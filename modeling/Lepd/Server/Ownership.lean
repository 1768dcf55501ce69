import Mathlib.Logic.Function.Basic
import Lepd.Foundation.Descriptors
import Lepd.Foundation.Runs

/-!
# Descriptor ownership

The calls of `run_builtin_cmd` and the accepting thread share one descriptor
table. A call opens a pipe, its builtin closes the write end with the stream it
opened on it, and then the call closes both ends by their numbers.
-/

namespace Lepd
namespace Server

open Foundation

inductive PipeEnd where
  | read
  | write
deriving DecidableEq

/-- An open object, with the call that opened it. -/
inductive Object (call : Type) where
  | pipe (owner : call) (side : PipeEnd)
  /-- The socket of an accepted client. -/
  | client (n : Nat)
  | other
deriving DecidableEq

/-- Where a call of `run_builtin_cmd` stands; `r` is `fd[0]` and `w` is `fd[1]`. -/
inductive Stage where
  | waiting
  | locked
  | piped (r w : Nat)
  | written (r w : Nat)
  | received (r w : Nat)
  | halfClosed (w : Nat)
  | closed
  | returned
deriving DecidableEq

/-- A `close` that a call executed, with the object that its number referred to. -/
structure Close (call : Type) where
  caller : call
  number : Nat
  object : Option (Object call)
deriving DecidableEq

structure Process (call lock : Type) where
  table : Descriptors (Object call)
  held : lock -> Bool
  stage : call -> Stage
  clients : Nat
  /-- The closes that calls executed, in order. -/
  closes : List (Close call)

/-- The steps of the calls, and of the accepting thread. -/
inductive Act (call : Type) where
  | lock (t : call)
  | pipe (t : call)
  | pipeError (t : call)
  /-- The builtin closes the stream it opened on the write end. -/
  | fclose (t : call)
  | read (t : call)
  | closeRead (t : call)
  | closeWrite (t : call)
  | unlock (t : call)
  | accept
deriving DecidableEq

/-!
# Ownership
-/

variable {call lock : Type}

/-- Before the first call: only objects that no call opened. -/
def started (call lock : Type) (opened : List Bool) : Process call lock where
  table := opened.map (fun o => if o then some .other else none)
  held _ := false
  stage _ := .waiting
  clients := 0
  closes := []

/-- The object is what the same call opened, and it is still open. -/
def Close.Own (c : Close call) : Prop :=
  exists side, c.object = some (.pipe c.caller side)

def Stage.Holds : Stage -> PipeEnd -> Nat -> Prop
  | .piped r _, .read, n => n = r
  | .piped _ w, .write, n => n = w
  | .written r _, .read, n => n = r
  | .received r _, .read, n => n = r
  | _, _, _ => False

def Owned (s : Process call lock) : Prop :=
  forall t side n, s.table.entry n = some (.pipe t side) <->
    (s.stage t).Holds side n

theorem entry_started {opened : List Bool} {n : Nat} {object : Object call}
    (h : Descriptors.entry (started call lock opened).table n = some object) :
    object = .other := by
  unfold Descriptors.entry started at h
  simp only [List.getElem?_map] at h
  cases hget : opened[n]? with
  | none =>
      rw [hget] at h
      cases h
  | some o =>
      rw [hget] at h
      cases o with
      | false =>
          cases h
      | true =>
          cases h
          rfl

theorem owned_started (opened : List Bool) : Owned (started call lock opened) := by
  intro t side n
  constructor
  · intro h
    cases entry_started h
  · intro h
    exact h.elim

theorem Owned.of_step {s s' : Process call lock} {t : call} (h : Owned s)
    (hothers : forall u, u ≠ t -> s'.stage u = s.stage u)
    (htable : forall u, u ≠ t -> forall side n,
      s'.table.entry n = some (.pipe u side) <-> s.table.entry n =
        some (.pipe u side))
    (hself : forall side n, s'.table.entry n = some (.pipe t side) <->
    (s'.stage t).Holds side n) :
    Owned s' := by
  intro u side n
  by_cases hu : u = t
  · rw [hu]
    exact hself side n
  · rw [htable u hu, hothers u hu]
    exact h u side n

/-- Closing a number that a call has open leaves what the others have open. -/
theorem close_other {s : Process call lock} {t : call} {side : PipeEnd} {n : Nat}
    (hn : s.table.entry n = some (.pipe t side)) {u : call} (hu : u ≠ t)
    (side' : PipeEnd) (m : Nat) :
    (s.table.close n).entry m = some (.pipe u side') <-> s.table.entry m =
    some (.pipe u side') := by
  rw [Descriptors.entry_close_eq_some]
  constructor
  · exact And.right
  · intro hm
    refine ⟨?_, hm⟩
    rintro rfl
    rw [hn] at hm
    cases hm
    exact hu rfl

def Adds (s s' : Process call lock) (closes : List (Close call)) : Prop :=
  s'.closes = s.closes ++ closes

theorem adds_nil {s s' : Process call lock} (h : s'.closes = s.closes) :
    Adds s s' [] := by
  rw [Adds, h, List.append_nil]

theorem accept_owned {s : Process call lock} (h : Owned s) :
    Owned { s with table := s.table.assign (.client s.clients),
                   clients := s.clients + 1 } := by
  intro t side n
  rw [Descriptors.entry_assign_eq_some]
  simp only [reduceCtorEq, and_false, false_or]
  exact h t side n

/-!
# The steps
-/

variable [DecidableEq call]

namespace Process

def enter (s : Process call lock) (t : call) (stage : Stage) : Process call lock :=
  { s with stage := Function.update s.stage t stage }

@[simp] theorem enter_stage_self (s : Process call lock) (t : call)
    (stage : Stage) :
    (s.enter t stage).stage t = stage := by
  simp only [enter, Function.update_self]

theorem enter_stage_ne (s : Process call lock) {t u : call} (stage : Stage)
    (h : u ≠ t) :
    (s.enter t stage).stage u = s.stage u := by
  simp only [enter, Function.update_of_ne h]

@[simp] theorem enter_table (s : Process call lock) (t : call) (stage : Stage) :
    (s.enter t stage).table = s.table := rfl

@[simp] theorem enter_closes (s : Process call lock) (t : call) (stage : Stage) :
    (s.enter t stage).closes = s.closes := rfl

def close (s : Process call lock) (t : call) (n : Nat) : Process call lock :=
  { s with table := s.table.close n,
           closes :=
             s.closes ++ [{ caller := t, number := n, object := s.table.entry n }] }

def unlock [DecidableEq lock] (s : Process call lock) (l : lock) :
    Process call lock :=
  { s with held := Function.update s.held l false }

def next [DecidableEq lock] (group : call -> lock) (s : Process call lock) :
    Act call -> Option (Process call lock)
  | .lock t =>
      match s.stage t with
      | .waiting =>
          if s.held (group t) then none
          else
            some ({ s with held := Function.update s.held (group t) true }.enter
              t .locked)
      | _ => none
  | .pipe t =>
      match s.stage t with
      | .locked =>
          let table := s.table.assign (.pipe t .read)
          some ({ s with table := table.assign (.pipe t .write) }.enter t
            (.piped s.table.lowestFree table.lowestFree))
      | _ => none
  | .pipeError t =>
      match s.stage t with
      | .locked => some ((s.unlock (group t)).enter t .returned)
      | _ => none
  | .fclose t =>
      match s.stage t with
      | .piped r w =>
          some ({ s with table := s.table.close w }.enter t (.written r w))
      | _ => none
  | .read t =>
      match s.stage t with
      | .written r w => some (s.enter t (.received r w))
      | _ => none
  | .closeRead t =>
      match s.stage t with
      | .received r w => some ((s.close t r).enter t (.halfClosed w))
      | _ => none
  | .closeWrite t =>
      match s.stage t with
      | .halfClosed w => some ((s.close t w).enter t .closed)
      | _ => none
  | .unlock t =>
      match s.stage t with
      | .closed => some ((s.unlock (group t)).enter t .returned)
      | _ => none
  | .accept =>
      some { s with table := s.table.assign (.client
        s.clients), clients := s.clients + 1 }

end Process

/-- One step of the process. -/
def Acts [DecidableEq lock] (group : call -> lock) (s : Process call lock)
    (a : Act call) (s' : Process call lock) : Prop :=
  s.next group a = some s'

theorem owned_enter {s s' : Process call lock} {t : call} {stage : Stage}
    (h : Owned s)
    (htable : s'.table = s.table) (hstage : s'.stage = s.stage)
    (hsame : forall side n, stage.Holds side n <-> (s.stage t).Holds side n) :
    Owned (s'.enter t stage) := by
  refine h.of_step (t := t) ?_ ?_ ?_
  · intro u hu
    rw [Process.enter_stage_ne s' stage hu, hstage]
  · intro u _ side n
    rw [Process.enter_table, htable]
  · intro side n
    rw [Process.enter_table, htable, Process.enter_stage_self, hsame]
    exact h t side n

theorem owned_pipe {s : Process call lock} {t : call} (h : Owned s)
    (hstage : s.stage t = .locked) :
    Owned ({ s with table :=
        (s.table.assign (Object.pipe t .read)).assign (Object.pipe t .write)
          }.enter t
      (.piped s.table.lowestFree
        (s.table.assign (Object.pipe t .read)).lowestFree)) := by
  have hnone : forall side n, s.table.entry n ≠ some (.pipe t side) := by
    intro side n hn
    have hholds := (h t side n).mp hn
    rw [hstage] at hholds
    exact hholds
  refine h.of_step (t := t) ?_ ?_ ?_
  · intro u hu
    exact Process.enter_stage_ne _ _ hu
  · intro u hu side n
    rw [Process.enter_table, Descriptors.entry_assign_eq_some,
      Descriptors.entry_assign_eq_some]
    simp [hu]
  · intro side n
    rw [Process.enter_table, Descriptors.entry_assign_eq_some,
      Descriptors.entry_assign_eq_some,
      Process.enter_stage_self]
    cases side with
    | read =>
        simp [hnone, Stage.Holds]
    | write =>
        simp [hnone, Stage.Holds]

theorem owned_fclose {s : Process call lock} {t : call} {r w : Nat} (h : Owned s)
    (hstage : s.stage t = .piped r w) :
    Owned ({ s with table := s.table.close w }.enter t (.written r w)) := by
  have hread : s.table.entry r = some (.pipe t .read) :=
    (h t .read r).mpr (by rw [hstage]; rfl)
  have hwrite : s.table.entry w = some (.pipe t .write) :=
    (h t .write w).mpr (by rw [hstage]; rfl)
  have hne : r ≠ w := by
    rintro rfl
    cases hread.symm.trans hwrite
  refine h.of_step (t := t) ?_ ?_ ?_
  · intro u hu
    exact Process.enter_stage_ne _ _ hu
  · intro u hu side n
    exact close_other hwrite hu side n
  · intro side n
    rw [Process.enter_table, Descriptors.entry_close_eq_some, h t side n, hstage,
      Process.enter_stage_self]
    cases side with
    | read =>
        simp only [Stage.Holds]
        constructor
        · exact And.right
        · rintro rfl
          exact ⟨hne, rfl⟩
    | write =>
        simp [Stage.Holds]

theorem owned_closeRead {s : Process call lock} {t : call} {r w : Nat} (h : Owned s)
    (hstage : s.stage t = .received r w) :
    Owned ((s.close t r).enter t (.halfClosed w)) := by
  have hread : s.table.entry r = some (.pipe t .read) :=
    (h t .read r).mpr (by rw [hstage]; rfl)
  refine h.of_step (t := t) ?_ ?_ ?_
  · intro u hu
    exact Process.enter_stage_ne _ _ hu
  · intro u hu side n
    exact close_other hread hu side n
  · intro side n
    rw [Process.enter_table, Process.close, Descriptors.entry_close_eq_some,
      h t side n, hstage,
      Process.enter_stage_self]
    cases side with
    | read =>
        simp [Stage.Holds]
    | write =>
        simp [Stage.Holds]

variable [DecidableEq lock] {group : call -> lock}

/-- Every step but the second close of a call keeps the ends that the calls have
open. -/
theorem acts_owned {s s' : Process call lock} {a : Act call} (h : Owned s)
    (hacts : Acts group s a s')
    (ha : forall t, a ≠ .closeWrite t) :
    Owned s' ∧ exists closes, Adds s s' closes ∧ forall c, c ∈ closes -> c.Own := by
  unfold Acts Process.next at hacts
  cases a with
  | lock t =>
      simp only at hacts
      split at hacts
      · next hstage =>
          split at hacts
          · cases hacts
          · cases hacts
            exact ⟨owned_enter h rfl rfl
              (by rw [hstage]; exact fun _ _ => Iff.rfl), [], adds_nil rfl,
              by simp⟩
      · cases hacts
  | pipe t =>
      simp only at hacts
      split at hacts
      · next hstage =>
          cases hacts
          exact ⟨owned_pipe h hstage, [], adds_nil rfl, by simp⟩
      · cases hacts
  | pipeError t =>
      simp only at hacts
      split at hacts
      · next hstage =>
          cases hacts
          exact ⟨owned_enter h rfl rfl
            (by rw [hstage]; exact fun _ _ => Iff.rfl), [], adds_nil rfl,
            by simp⟩
      · cases hacts
  | fclose t =>
      simp only at hacts
      split at hacts
      · next r w hstage =>
          cases hacts
          exact ⟨owned_fclose h hstage, [], adds_nil rfl, by simp⟩
      · cases hacts
  | read t =>
      simp only at hacts
      split at hacts
      · next r w hstage =>
          cases hacts
          refine ⟨owned_enter h rfl rfl ?_, [], adds_nil rfl, by simp⟩
          intro side n
          rw [hstage]
          cases side <;> exact Iff.rfl
      · cases hacts
  | closeRead t =>
      simp only at hacts
      split at hacts
      · next r w hstage =>
          cases hacts
          have hread : s.table.entry r = some (.pipe t .read) :=
            (h t .read r).mpr (by rw [hstage]; rfl)
          refine ⟨owned_closeRead h hstage, [_], rfl, ?_⟩
          intro c hc
          rw [List.mem_singleton.mp hc]
          exact ⟨.read, hread⟩
      · cases hacts
  | closeWrite t =>
      exact absurd rfl (ha t)
  | unlock t =>
      simp only at hacts
      split at hacts
      · next hstage =>
          cases hacts
          exact ⟨owned_enter h rfl rfl
            (by rw [hstage]; exact fun _ _ => Iff.rfl), [], adds_nil rfl,
            by simp⟩
      · cases hacts
  | accept =>
      simp only at hacts
      cases hacts
      exact ⟨accept_owned h, [], adds_nil rfl, by simp⟩

theorem acts_closeWrite {s s' : Process call lock} {t : call} (h : Owned s)
    (hacts : Acts group s (.closeWrite t) s') :
    exists c, Adds s s' [c] ∧ ¬ c.Own := by
  unfold Acts Process.next at hacts
  simp only at hacts
  split at hacts
  · next w hstage =>
      cases hacts
      refine ⟨_, rfl, ?_⟩
      rintro ⟨side, hown⟩
      have hholds := (h t side w).mp hown
      rw [hstage] at hholds
      cases side <;> exact hholds
  · cases hacts

theorem acts_closes {s s' : Process call lock} {a : Act call}
    (hacts : Acts group s a s') :
    exists closes, Adds s s' closes := by
  unfold Acts Process.next at hacts
  cases a with
  | lock t =>
      simp only at hacts
      split at hacts
      · split at hacts
        · cases hacts
        · cases hacts
          exact ⟨[], adds_nil rfl⟩
      · cases hacts
  | pipe t | pipeError t | fclose t | read t | unlock t =>
      simp only at hacts
      split at hacts
      · cases hacts
        exact ⟨[], adds_nil rfl⟩
      · cases hacts
  | closeRead t | closeWrite t =>
      simp only at hacts
      split at hacts
      · cases hacts
        exact ⟨_, rfl⟩
      · cases hacts
  | accept =>
      simp only at hacts
      cases hacts
      exact ⟨[], adds_nil rfl⟩

/-!
# Interleavings
-/

def Account (acts : List (Act call)) (s : Process call lock) : Prop :=
  ((forall t, .closeWrite t ∉ acts) -> Owned s ∧ forall c, c ∈ s.closes -> c.Own) ∧
    (forall t, .closeWrite t ∈ acts -> exists c, c ∈ s.closes ∧ ¬ c.Own)

theorem account_step {acts : List (Act call)} {s s' : Process call lock}
    {a : Act call}
    (h : Account acts s) (hacts : Acts group s a s') :
    Account (acts ++ [a]) s' := by
  by_cases hbefore : exists t, .closeWrite t ∈ acts
  · rcases hbefore with ⟨t, ht⟩
    rcases h.right t ht with ⟨c, hc, hown⟩
    rcases acts_closes hacts with ⟨closes, hcloses⟩
    have hkept : c ∈ s'.closes := by
      rw [hcloses]
      exact List.mem_append_left closes hc
    constructor
    · intro hnone
      exact absurd (List.mem_append_left [a] ht) (hnone t)
    · intro _ _
      exact ⟨c, hkept, hown⟩
  · rcases h.left (fun t ht => hbefore ⟨t, ht⟩) with ⟨howned, hcloses⟩
    by_cases ha : exists t, a = .closeWrite t
    · rcases ha with ⟨t, rfl⟩
      rcases acts_closeWrite howned hacts with ⟨c, hadds, hown⟩
      constructor
      · intro hnone
        exact absurd (List.mem_append_right acts (List.mem_singleton_self _))
          (hnone t)
      · intro _ _
        refine ⟨c, ?_, hown⟩
        rw [hadds]
        exact List.mem_append_right _ (List.mem_singleton_self c)
    · have hother : forall t, a ≠ .closeWrite t := fun t heq => ha ⟨t, heq⟩
      rcases acts_owned howned hacts hother with ⟨howned', closes, hadds, hall⟩
      constructor
      · intro _
        refine ⟨howned', ?_⟩
        intro c hc
        rw [hadds] at hc
        rcases List.mem_append.mp hc with hold | hnew
        · exact hcloses c hold
        · exact hall c hnew
      · intro t ht
        rcases List.mem_append.mp ht with hold | hnew
        · exact absurd ⟨t, hold⟩ hbefore
        · exact absurd (List.mem_singleton.mp hnew).symm (hother t)

/--
In every interleaving, all closes that calls execute are of what the same call
opened and has open, exactly when no call executes its second close.
-/
theorem closes_own_iff {opened : List Bool} {acts : List (Act call)}
    {s : Process call lock}
    (hrun : Runs (Acts group) (started call lock opened) acts s) :
    (forall c, c ∈ s.closes -> c.Own) <-> forall t, .closeWrite t ∉ acts := by
  have hinit : Account [] (started call lock opened) := by
    constructor
    · intro _
      refine ⟨owned_started opened, ?_⟩
      intro c hc
      cases hc
    · intro t ht
      cases ht
  have hstep : forall acts s a s', Account acts s -> Acts group s a s' ->
      Account (acts ++ [a]) s' :=
    fun acts s a s' h hacts => account_step h hacts
  have haccount : Account acts s := Runs.invariant_events hstep hrun hinit
  constructor
  · intro hall t ht
    rcases haccount.right t ht with ⟨c, hc, hown⟩
    exact hown (hall c hc)
  · intro hnone
    exact (haccount.left hnone).right

/-- One call, in which the second close closes the socket of a client. -/
theorem closes_client :
    exists acts s, Runs (Acts id) (started Unit Unit [true, true, true]) acts s ∧
      exists c, c ∈ s.closes ∧ c.object = some (.client 0) ∧ ¬ c.Own := by
  have hrun : Runs (Acts id) (started Unit Unit [true, true, true])
      [.lock (), .pipe (), .fclose (), .accept, .read (), .closeRead (),
        .closeWrite ()] _ :=
    .cons rfl
      (.cons rfl (.cons rfl (.cons rfl (.cons rfl (.cons rfl (.single rfl))))))
  refine ⟨_, _, hrun, { caller := (), number := 4, object := some (.client 0) },
    ?_, rfl, ?_⟩
  · exact List.mem_cons_of_mem _ (List.mem_singleton_self _)
  · rintro ⟨side, hside⟩
    cases hside

/-- The same call, before its second close. -/
theorem closes_own_iff_closeRead :
    exists s, Runs (Acts id) (started Unit Unit [true, true, true])
        [.lock (), .pipe (), .fclose (), .read (), .closeRead ()] s ∧
      ((forall c, c ∈ s.closes -> c.Own) <->
        forall t, Act.closeWrite t ∉ [Act.lock (), .pipe (), .fclose (),
          .read (), .closeRead ()]) := by
  have hrun : Runs (Acts id) (started Unit Unit [true, true, true])
      [.lock (), .pipe (), .fclose (), .read (), .closeRead ()] _ :=
    .cons rfl (.cons rfl (.cons rfl (.cons rfl (.single rfl))))
  exact ⟨_, hrun, closes_own_iff hrun⟩

end Server
end Lepd
