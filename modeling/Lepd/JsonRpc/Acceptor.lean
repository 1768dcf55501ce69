import Mathlib.Data.Fintype.Card
import Lepd.Foundation.Runs
import Lepd.JsonRpc.Callback

/-!
# Accepting connections

The callback of the listening socket accepts one connection and hands it to a
worker. The workers take turns, by a counter that is never reduced.
-/

namespace Lepd
namespace JsonRpc

open Foundation
open CJson (toInt32)

/-!
# The callback of the listening socket
-/

/-- What a call of `accept` answers. -/
inductive Accepted (sockaddr : Type) where
  | socket (fd : Nat) (sin : sockaddr)
  /-- `EAGAIN` or `EWOULDBLOCK` -/
  | again
  /-- Any other error. -/
  | error
deriving DecidableEq

variable {sockaddr : Type}

/-- The loop around `accept`, with the answers that are still to come. -/
def acceptLoop (sin : sockaddr) :
    List (Accepted sockaddr) -> Option ((Int × sockaddr) × List (Accepted sockaddr))
  | [] => none
  | .socket fd sin :: answers => some (((fd : Int), sin), answers)
  | .again :: answers => acceptLoop sin answers
  | .error :: answers => some ((-1, sin), answers)

theorem acceptLoop_length {sin : sockaddr} {answers rest : List (Accepted sockaddr)}
    {conn : Int × sockaddr} (h : acceptLoop sin answers = some (conn, rest)) :
    rest.length < answers.length := by
  induction answers with
  | nil =>
      cases h
  | cons answer answers ih =>
      cases answer with
      | socket fd sin' =>
          cases h
          exact Nat.lt_succ_self _
      | again =>
          exact Nat.lt_succ_of_lt (ih h)
      | error =>
          cases h
          exact Nat.lt_succ_self _

/--
The arguments of the calls of `dispath_conn` in a whole run, one for each
execution of `accept_callback2` that leaves its loop; `sin` is what its variable
holds at first.
-/
def acceptCallback2 (sin : sockaddr) (answers : List (Accepted sockaddr)) :
    List (Int × sockaddr) :=
  match h : acceptLoop sin answers with
  | none => []
  | some (conn, rest) =>
      have : rest.length < answers.length := acceptLoop_length h
      conn :: acceptCallback2 sin rest
termination_by answers.length

/-- The descriptors that successful calls of `accept` answered. -/
def sockets (answers : List (Accepted sockaddr)) : List Int :=
  answers.filterMap (fun answer => match answer with
    | .socket fd _ => some (fd : Int)
    | _ => none)

def Accepted.handed : Accepted sockaddr -> Option Int
  | .socket fd _ => some fd
  | .again => none
  | .error => some (-1)

theorem acceptLoop_handed (sin : sockaddr) (answers : List (Accepted sockaddr)) :
    (acceptLoop sin answers = none ∧ answers.filterMap Accepted.handed = []) ∨
      exists conn rest, acceptLoop sin answers = some (conn, rest) ∧
        answers.filterMap Accepted.handed = conn.1 ::
          rest.filterMap Accepted.handed := by
  induction answers with
  | nil =>
      exact Or.inl ⟨rfl, rfl⟩
  | cons answer answers ih =>
      cases answer with
      | socket fd sin' =>
          exact Or.inr ⟨_, _, rfl, rfl⟩
      | again =>
          exact ih
      | error =>
          exact Or.inr ⟨_, _, rfl, rfl⟩

theorem acceptCallback2_handed (sin : sockaddr)
    (answers : List (Accepted sockaddr)) :
    (acceptCallback2 sin answers).map Prod.fst =
    answers.filterMap Accepted.handed := by
  induction hn : answers.length using Nat.strongRecOn generalizing answers with
  | ind n ih =>
      rw [acceptCallback2]
      rcases acceptLoop_handed sin answers with
        ⟨hnone, hempty⟩ | ⟨conn, rest, hsome, hhanded⟩
      · split
        · rw [hempty]
          rfl
        · next hsome =>
            rw [hnone] at hsome
            cases hsome
      · split
        · next hnone =>
            rw [hsome] at hnone
            cases hnone
        · next conn' rest' hsome' =>
            cases hsome.symm.trans hsome'
            rw [List.map_cons, ih rest.length (hn ▸ acceptLoop_length hsome)
              rest rfl, hhanded]

theorem sockets_nonneg {answers : List (Accepted sockaddr)} {fd : Int}
    (h : fd ∈ sockets answers) :
    0 <= fd := by
  rcases List.mem_filterMap.mp h with ⟨answer, _, hfd⟩
  cases answer with
  | socket n sin =>
      cases hfd
      exact Int.natCast_nonneg n
  | again =>
      cases hfd
  | error =>
      cases hfd

/-- Exactly the accepted descriptors are handed on if and only if no call fails
for good. -/
theorem accepted_handed_iff (sin : sockaddr) (answers : List (Accepted sockaddr)) :
    (acceptCallback2 sin answers).map Prod.fst = sockets answers <->
    .error ∉ answers := by
  rw [acceptCallback2_handed]
  constructor
  · intro hsame herror
    have hfailed : (-1 : Int) ∈ answers.filterMap Accepted.handed :=
      List.mem_filterMap.mpr ⟨.error, herror, rfl⟩
    rw [hsame] at hfailed
    exact absurd (sockets_nonneg hfailed) (by decide)
  · intro hnone
    apply List.filterMap_congr
    intro answer hanswer
    cases answer with
    | socket fd sin' =>
        rfl
    | again =>
        rfl
    | error =>
        exact absurd hanswer hnone

/-- Out of descriptors: the failed call is handed on as if it had accepted. -/
theorem error_handed :
    (acceptCallback2 () [.socket 7 (), .error]).map Prod.fst = [7, -1] ∧
      sockets [Accepted.socket 7 (), .error] = [7] := by
  refine ⟨?_, rfl⟩
  rw [acceptCallback2_handed]
  rfl

/-!
# Round robin
-/

abbrev nthreads : Nat := 5

/-- The variables that the threads share, and what each worker has been given. -/
structure Dispatcher where
  initCount : Int
  /-- The workers that have counted themselves. -/
  ready : Finset (Fin nthreads)
  /-- `thread_init` has returned. -/
  initialised : Bool
  roundRobin : Int
  received : Fin nthreads -> Nat
  dispatched : Nat
  /-- No memory outside of `work_threads` was accessed. -/
  valid : Bool

/-- A worker that starts, `thread_init` that returns, or a connection. -/
inductive Dispatch where
  | workerLibev (i : Fin nthreads)
  | threadInit
  | dispathConn
deriving DecidableEq

namespace Dispatcher

def start : Dispatcher where
  initCount := 0
  ready := ∅
  initialised := false
  roundRobin := 0
  received _ := 0
  dispatched := 0
  valid := true

/-- The index of the worker that gets the next connection. -/
def robin (s : Dispatcher) : Int :=
  Int.tmod s.roundRobin s.initCount

def give (s : Dispatcher) (i : Fin nthreads) : Dispatcher :=
  { s with received := Function.update s.received i (s.received i + 1),
           roundRobin := toInt32 (s.roundRobin + 1), dispatched :=
             s.dispatched + 1 }

def dispathConn (s : Dispatcher) : Dispatcher :=
  if h : s.valid = true ∧ 0 <= s.robin ∧ s.robin.toNat < nthreads then
    s.give ⟨s.robin.toNat, h.right.right⟩
  else { s with valid := false, dispatched := s.dispatched + 1 }

def next (s : Dispatcher) : Dispatch -> Option Dispatcher
  | .workerLibev i =>
      if i ∈ s.ready then none
      else some { s with initCount := toInt32 (s.initCount + 1),
                         ready := insert i s.ready }
  | .threadInit =>
      if s.initialised = true ∨ s.initCount < nthreads then none
      else some { s with initialised := true }
  | .dispathConn => if s.initialised then some s.dispathConn else none

/-- The next index is one of a worker, and no worker is ahead of another by more
than one. -/
def Balanced (s : Dispatcher) : Prop :=
  s.valid = true ∧ 0 <= s.robin ∧ s.robin < nthreads ∧
    forall i, s.received i = s.dispatched / nthreads ∨
      s.received i = (s.dispatched + (nthreads - 1)) / nthreads

/-- What is known after `dispatched` connections. -/
structure Counted (s : Dispatcher) : Prop where
  counted : s.initCount = s.ready.card
  complete : s.initialised = true -> s.ready = Finset.univ
  unused : s.initialised = false -> s.dispatched = 0
  turns : s.dispatched <= 2 ^ 31 -> s.valid = true ∧ s.roundRobin =
    toInt32 s.dispatched ∧
    forall i, s.received i = (s.dispatched + (nthreads - 1) - i) / nthreads
  overflow : 2 ^ 31 < s.dispatched -> s.valid = false

end Dispatcher

def Dispatches (s : Dispatcher) (act : Dispatch) (s' : Dispatcher) : Prop :=
  s.next act = some s'

namespace Dispatcher

theorem counted_start : Counted start := by
  have hzero : start.dispatched = 0 := rfl
  refine ⟨rfl, ?_, fun _ => rfl, ?_, ?_⟩
  · intro hinit
    cases hinit
  · intro _
    refine ⟨rfl, (toInt32_of_lt (le_refl 0) (by decide)).symm, ?_⟩
    intro i
    show 0 = (0 + 4 - (i : Nat)) / 5
    omega
  · rw [hzero]
    omega

theorem Counted.robin_eq {s : Dispatcher} (h : Counted s)
    (hinit : s.initialised = true) :
    s.robin = Int.tmod s.roundRobin 5 := by
  rw [robin, h.counted, h.complete hinit, Finset.card_univ, Fintype.card_fin]
  rfl

theorem toInt32_wrap : toInt32 ((2 ^ 31 : Nat) : Int) = -(2 ^ 31) := by
  decide

/-- Up to the last number that the counter can hold, the workers take turns. -/
theorem Counted.robin_of_lt {s : Dispatcher} (h : Counted s)
    (hinit : s.initialised = true)
    (hless : s.dispatched < 2 ^ 31) :
    s.robin = ((s.dispatched % 5 : Nat) : Int) := by
  rcases h.turns hless.le with ⟨_, hround, _⟩
  rw [h.robin_eq hinit, hround, toInt32_of_lt (by omega) (by omega)]
  rfl

theorem Counted.robin_overflow {s : Dispatcher} (h : Counted s)
    (hinit : s.initialised = true)
    (hall : s.dispatched = 2 ^ 31) : s.robin = -3 := by
  rcases h.turns hall.le with ⟨_, hround, _⟩
  rw [h.robin_eq hinit, hround, hall, toInt32_wrap]
  rfl

theorem Counted.balanced {s : Dispatcher} (h : Counted s)
    (hinit : s.initialised = true)
    (hless : s.dispatched < 2 ^ 31) : s.Balanced := by
  rcases h.turns hless.le with ⟨hvalid, _, hreceived⟩
  have hrobin := h.robin_of_lt hinit hless
  refine ⟨hvalid, ?_, ?_, ?_⟩
  · rw [hrobin]
    exact Int.natCast_nonneg _
  · rw [hrobin]
    show ((s.dispatched % 5 : Nat) : Int) < 5
    omega
  · intro i
    rw [hreceived i]
    show (s.dispatched + 4 - (i : Nat)) / 5 = s.dispatched / 5 ∨
      (s.dispatched + 4 - (i : Nat)) / 5 = (s.dispatched + 4) / 5
    have hi : (i : Nat) < 5 := i.isLt
    omega

theorem Counted.give {s : Dispatcher} (h : Counted s) (hinit : s.initialised = true)
    (hless : s.dispatched < 2 ^ 31) (turn : Fin nthreads)
    (hturn : (turn : Nat) = s.dispatched % 5) :
    Counted (s.give turn) := by
  rcases h.turns hless.le with ⟨hvalid, hround, hreceived⟩
  have hround' : s.roundRobin = s.dispatched := by
    rw [hround, toInt32_of_lt (by omega) (by omega)]
  constructor
  · exact h.counted
  · exact h.complete
  · intro hnot
    exact absurd (hinit.symm.trans hnot) (by decide)
  · intro _
    refine ⟨hvalid, ?_, ?_⟩
    · show toInt32 (s.roundRobin + 1) = toInt32 ((s.dispatched + 1 : Nat) : Int)
      rw [hround', Int.natCast_add, Int.natCast_one]
    · intro i
      have hlt : (i : Nat) < 5 := i.isLt
      by_cases hi : i = turn
      · have hnew : (s.give turn).received i = s.received i + 1 := by
          rw [hi]
          exact Function.update_self turn _ s.received
        rw [hnew, hreceived i]
        show (s.dispatched + 4 - (i : Nat)) / 5 + 1 =
          (s.dispatched + 1 + 4 - (i : Nat)) / 5
        rw [hi, hturn]
        omega
      · have hsame : (s.give turn).received i = s.received i :=
          Function.update_of_ne hi _ s.received
        have hne : (i : Nat) ≠ s.dispatched % 5 := fun heq =>
          hi (Fin.ext (heq.trans hturn.symm))
        rw [hsame, hreceived i]
        show (s.dispatched + 4 - (i : Nat)) / 5 =
          (s.dispatched + 1 + 4 - (i : Nat)) / 5
        omega
  · intro hover
    exact absurd hover (Nat.not_lt.mpr hless)

theorem Counted.dispathConn {s : Dispatcher} (h : Counted s)
    (hinit : s.initialised = true) :
    Counted s.dispathConn := by
  unfold Dispatcher.dispathConn
  rcases Nat.lt_trichotomy s.dispatched (2 ^ 31) with hless | hall | hmore
  · have hrobin := h.robin_of_lt hinit hless
    have hnat : s.robin.toNat = s.dispatched % 5 := by
      rw [hrobin, Int.toNat_natCast]
    have hin : s.valid = true ∧ 0 <= s.robin ∧ s.robin.toNat < nthreads := by
      refine ⟨(h.turns hless.le).left, ?_, ?_⟩
      · rw [hrobin]
        exact Int.natCast_nonneg _
      · rw [hnat]
        exact Nat.mod_lt _ (by decide)
    rw [dif_pos hin]
    exact h.give hinit hless ⟨s.robin.toNat, hin.right.right⟩ hnat
  · have hout : ¬ (s.valid = true ∧ 0 <= s.robin ∧ s.robin.toNat < nthreads) := by
      rintro ⟨_, hpos, _⟩
      rw [h.robin_overflow hinit hall] at hpos
      exact absurd hpos (by decide)
    rw [dif_neg hout]
    refine ⟨h.counted, h.complete, ?_, ?_, fun _ => rfl⟩
    · intro hnot
      rw [hinit] at hnot
      cases hnot
    · intro hle
      exact absurd hle (by simp only [hall]; omega)
  · have hout : ¬ (s.valid = true ∧ 0 <= s.robin ∧ s.robin.toNat < nthreads) := by
      rintro ⟨hvalid, _⟩
      rw [h.overflow hmore] at hvalid
      cases hvalid
    rw [dif_neg hout]
    refine ⟨h.counted, h.complete, ?_, ?_, fun _ => rfl⟩
    · intro hnot
      rw [hinit] at hnot
      cases hnot
    · intro hle
      exact absurd hle (by simp only; omega)

end Dispatcher

/-!
# Runs
-/

theorem counted_dispatches {s s' : Dispatcher} {act : Dispatch}
    (h : Dispatcher.Counted s)
    (hact : Dispatches s act s') : Dispatcher.Counted s' := by
  unfold Dispatches Dispatcher.next at hact
  cases act with
  | workerLibev i =>
      simp only at hact
      split at hact
      · cases hact
      · next hnew =>
          cases hact
          have hcard : (insert i s.ready).card <= 5 := Finset.card_le_univ _
          rw [Finset.card_insert_of_notMem hnew] at hcard
          constructor
          · show toInt32 (s.initCount + 1) = ((insert i s.ready).card : Int)
            rw [h.counted, Finset.card_insert_of_notMem hnew,
              toInt32_of_lt (by omega) (by omega),
              Int.natCast_add, Int.natCast_one]
          · intro hinit
            rw [h.complete hinit] at hnew
            exact absurd (Finset.mem_univ i) hnew
          · exact h.unused
          · exact h.turns
          · exact h.overflow
  | threadInit =>
      simp only at hact
      split at hact
      · cases hact
      · next hwait =>
          cases hact
          have hcount : (5 : Int) <= s.initCount :=
            Int.not_lt.mp (fun hless => hwait (Or.inr hless))
          have hcard : Fintype.card (Fin nthreads) <= s.ready.card := by
            rw [h.counted] at hcount
            rw [Fintype.card_fin]
            exact Int.ofNat_le.mp hcount
          constructor
          · exact h.counted
          · intro _
            exact (Finset.card_eq_iff_eq_univ s.ready).mp
              (le_antisymm (Finset.card_le_univ _) hcard)
          · intro hnot
            cases hnot
          · exact h.turns
          · exact h.overflow
  | dispathConn =>
      simp only at hact
      split at hact
      · next hinit =>
          cases hact
          exact h.dispathConn hinit
      · cases hact

theorem counted_runs {acts : List Dispatch} {s : Dispatcher}
    (hrun : Runs Dispatches Dispatcher.start acts s) : s.Counted := by
  have hstep : forall s act s', Dispatcher.Counted s -> Dispatches s act s' ->
      Dispatcher.Counted s' :=
    fun s act s' h hact => counted_dispatches h hact
  exact Runs.invariant hstep hrun Dispatcher.counted_start

theorem runs_initialised :
    exists acts s, Runs Dispatches Dispatcher.start acts s ∧ s.initialised =
      true ∧ s.dispatched = 0 := by
  have hrun : Runs Dispatches Dispatcher.start
      [.workerLibev 0, .workerLibev 1, .workerLibev 2, .workerLibev 3,
        .workerLibev 4, .threadInit] _ :=
    .cons rfl (.cons rfl (.cons rfl (.cons rfl (.cons rfl (.single rfl)))))
  exact ⟨_, _, hrun, rfl, rfl⟩

theorem dispathConn_dispatched (s : Dispatcher) :
    s.dispathConn.initialised = s.initialised ∧ s.dispathConn.dispatched =
      s.dispatched + 1 := by
  unfold Dispatcher.dispathConn
  split
  · exact ⟨rfl, rfl⟩
  · exact ⟨rfl, rfl⟩

theorem runs_dispatched (k : Nat) :
    exists acts s, Runs Dispatches Dispatcher.start acts s ∧ s.initialised =
      true ∧ s.dispatched = k := by
  induction k with
  | zero =>
      exact runs_initialised
  | succ k ih =>
      rcases ih with ⟨acts, s, hrun, hinit, hk⟩
      rcases dispathConn_dispatched s with ⟨hinit', hk'⟩
      have hact : Dispatches s .dispathConn s.dispathConn := by
        rw [Dispatches, Dispatcher.next, hinit]
        rfl
      exact ⟨acts ++ [.dispathConn], s.dispathConn, .snoc hrun hact,
        hinit'.trans hinit, by rw [hk', hk]⟩

/--
After `k` connections, in every run, the next index is in range and the workers have
been given their shares, exactly as long as the counter has not overflown.
-/
theorem round_robin_iff (k : Nat) :
    (forall acts s, Runs Dispatches Dispatcher.start acts s ->
    s.initialised = true ->
      s.dispatched = k -> s.Balanced) <-> k < 2 ^ 31 := by
  constructor
  · intro h
    rcases runs_dispatched k with ⟨acts, s, hrun, hinit, hk⟩
    rcases h acts s hrun hinit hk with ⟨hvalid, hpos, _⟩
    have hcounted := counted_runs hrun
    rcases Nat.lt_trichotomy k (2 ^ 31) with hless | hall | hmore
    · exact hless
    · rw [hcounted.robin_overflow hinit (hk.trans hall)] at hpos
      exact absurd hpos (by decide)
    · rw [hcounted.overflow (hk ▸ hmore)] at hvalid
      cases hvalid
  · intro hless acts s hrun hinit hk
    exact (counted_runs hrun).balanced hinit (hk ▸ hless)

/-- After 2^31 connections the next one goes to the worker with the index -3. -/
theorem round_robin_overflow :
    exists acts s, Runs Dispatches Dispatcher.start acts s ∧ s.initialised = true ∧
      s.dispatched = 2 ^ 31 ∧ s.robin = -3 := by
  rcases runs_dispatched (2 ^ 31) with ⟨acts, s, hrun, hinit, hk⟩
  exact ⟨acts, s, hrun, hinit, hk, (counted_runs hrun).robin_overflow hinit hk⟩

end JsonRpc
end Lepd
