import Mathlib.Algebra.BigOperators.Group.List.Basic
import Lepd.Foundation.Runs
import Lepd.Server.Reply

/-!
# A builtin and its pipe

`run_builtin_cmd` holds the lock of its group from before it makes the pipe
until it has closed both ends. The builtin writes into the pipe, and the same
thread reads from it after the builtin has returned.
-/

namespace Lepd
namespace Server

open Foundation

/-- A builtin, by the sizes of its writes and by whether it closes `out_fd`. -/
structure Builtin where
  writes : List Nat
  closes : Bool

def Builtin.output (builtin : Builtin) : Nat :=
  builtin.writes.sum

/-- Where an execution of `run_builtin_cmd` stands; `inside` is what the pipe
holds. -/
inductive Holder where
  /-- The lock has just been taken. -/
  | locked
  /-- In `info->func`, with these writes still to be done. -/
  | writing (writes : List Nat) (inside : Nat)
  /-- In front of `read`; the write end is open in this thread or not. -/
  | returned (inside : Nat) (writeEnd : Bool)
  | received
  | halfClosed
  | closed
  | released
deriving DecidableEq

inductive Move where
  | pipe
  | pipeError
  /-- The current write transfers `size` bytes. -/
  | write (size : Nat)
  | leave
  /-- `read` delivers `size` bytes. -/
  | read (size : Nat)
  | closeRead
  | closeWrite
  | unlock
deriving DecidableEq

namespace Holder

/--
A write transfers at least one byte as long as it has any, and no more than there is
room for.  A read of an empty pipe waits while the write end is open.
-/
def next (capacity : Nat) (builtin : Builtin) : Holder -> Move -> Option Holder
  | .locked, .pipe => some (.writing builtin.writes 0)
  | .locked, .pipeError => some .released
  | .writing (chunk :: writes) inside, .write size =>
      if size <= chunk ∧ inside + size <= capacity ∧ (size = 0 -> chunk = 0) then
        if size = chunk then some (.writing writes (inside + size))
        else some (.writing ((chunk - size) :: writes) (inside + size))
      else none
  | .writing [] inside, .leave => some (.returned inside (!builtin.closes))
  | .returned inside writeEnd, .read size =>
      if inside = 0 then
        if writeEnd then none else if size = 0 then some .received else none
      else if 0 < size ∧ size <= inside ∧ size <= cmdBuff - endstring.length -
        1 then some .received
      else none
  | .received, .closeRead => some .halfClosed
  | .halfClosed, .closeWrite => some .closed
  | .closed, .unlock => some .released
  | _, _ => none

end Holder

def Moves (capacity : Nat) (builtin : Builtin) (s : Holder) (move : Move)
    (s' : Holder) : Prop :=
  s.next capacity builtin move = some s'

/-- No step can be taken. -/
def Stuck (capacity : Nat) (builtin : Builtin) (s : Holder) : Prop :=
  forall move s', ¬ Moves capacity builtin s move s'

/-- No state that can be reached while the lock is held is stuck. -/
def NeverWedged (capacity : Nat) (builtin : Builtin) : Prop :=
  forall moves s, Runs (Moves capacity builtin) .locked moves s -> s ≠ .released ->
    ¬ Stuck capacity builtin s

/-- However an execution has begun, it can go on until the lock is released. -/
def Releases (capacity : Nat) (builtin : Builtin) : Prop :=
  forall moves s, Runs (Moves capacity builtin) .locked moves s ->
    exists more, Runs (Moves capacity builtin) s more .released

/-!
# One step
-/

variable {capacity : Nat} {builtin : Builtin}

namespace Holder

/-- What is still to be done, so that each step does some of it. -/
def remaining (builtin : Builtin) : Holder -> Nat
  | .locked => builtin.writes.sum + builtin.writes.length + 7
  | .writing writes _ => writes.sum + writes.length + 6
  | .returned _ _ => 5
  | .received => 4
  | .halfClosed => 3
  | .closed => 2
  | .released => 0

/-- The pipe has what has been written so far, and no more than fits. -/
def Accounted (capacity : Nat) (builtin : Builtin) : Holder -> Prop
  | .writing writes inside =>
      inside + writes.sum = builtin.output ∧ inside <= capacity
  | .returned inside writeEnd =>
      inside = builtin.output ∧ inside <= capacity ∧ writeEnd = !builtin.closes
  | .received | .halfClosed | .closed =>
      builtin.output <= capacity ∧ (builtin.closes = true ∨ 0 < builtin.output)
  | .locked | .released => True

end Holder

theorem moves_write {chunk inside size : Nat} {writes : List Nat} {s' : Holder}
    (h : Moves capacity builtin (.writing (chunk :: writes) inside)
    (.write size) s') :
    size <= chunk ∧ inside + size <= capacity ∧ (size = 0 -> chunk = 0) ∧
      (size = chunk ∧ s' = .writing writes (inside + size) ∨
        size ≠ chunk ∧ s' = .writing ((chunk - size) :: writes)
          (inside + size)) := by
  unfold Moves Holder.next at h
  simp only at h
  split at h
  · next hroom =>
      split at h
      · next hall =>
          cases h
          exact ⟨hroom.left, hroom.right.left, hroom.right.right, .inl ⟨hall, rfl⟩⟩
      · next hpart =>
          cases h
          exact ⟨hroom.left, hroom.right.left, hroom.right.right, .inr ⟨hpart, rfl⟩⟩
  · cases h

theorem moves_read {inside size : Nat} {writeEnd : Bool} {s' : Holder}
    (h : Moves capacity builtin (.returned inside writeEnd) (.read size) s') :
    s' = .received ∧ (writeEnd = false ∨ 0 < inside) := by
  unfold Moves Holder.next at h
  simp only at h
  split at h
  · cases writeEnd with
    | true =>
        cases h
    | false =>
        simp only [Bool.false_eq_true, if_false] at h
        split at h
        · cases h
          exact ⟨rfl, .inl rfl⟩
        · cases h
  · next hinside =>
      split at h
      · cases h
        exact ⟨rfl, .inr (Nat.pos_of_ne_zero hinside)⟩
      · cases h

theorem moves_accounted {s s' : Holder} {move : Move}
    (hs : s.Accounted capacity builtin)
    (h : Moves capacity builtin s move s') :
    s'.Accounted capacity builtin ∧ s'.remaining builtin < s.remaining builtin := by
  cases s with
  | locked =>
      cases move <;> cases h
      · constructor
        · exact ⟨Nat.zero_add _, Nat.zero_le _⟩
        · simp [Holder.remaining]
      · exact ⟨trivial, by simp [Holder.remaining]⟩
  | writing writes inside =>
      cases writes with
      | nil =>
          cases move <;> cases h
          exact ⟨⟨hs.left, hs.right, rfl⟩, by simp [Holder.remaining]⟩
      | cons chunk writes =>
          rcases hs with ⟨hsum, hinside⟩
          rw [List.sum_cons] at hsum
          cases move with
          | write size =>
              rcases moves_write h with
                ⟨hle, hroom, hzero, ⟨hall, rfl⟩ | ⟨hpart, rfl⟩⟩
              · constructor
                · exact ⟨by omega, hroom⟩
                · simp only [Holder.remaining, List.sum_cons, List.length_cons]
                  omega
              · constructor
                · refine ⟨?_, hroom⟩
                  rw [List.sum_cons]
                  omega
                · simp only [Holder.remaining, List.sum_cons, List.length_cons]
                  omega
          | _ =>
              cases h
  | returned inside writeEnd =>
      cases move with
      | read size =>
          rcases hs with ⟨houtput, hinside, hend⟩
          rcases moves_read h with ⟨rfl, hready⟩
          refine ⟨⟨houtput ▸ hinside, ?_⟩, by simp [Holder.remaining]⟩
          rcases hready with hclosed | hpos
          · left
            simpa [hclosed] using hend
          · right
            exact houtput ▸ hpos
      | _ =>
          cases h
  | received | halfClosed =>
      cases move <;> cases h
      exact ⟨hs, by simp [Holder.remaining]⟩
  | closed =>
      cases move <;> cases h
      exact ⟨trivial, by simp [Holder.remaining]⟩
  | released =>
      cases move <;> cases h

/-!
# Progress
-/

theorem moves_write_room {chunk inside : Nat} (writes : List Nat)
    (hroom : inside + chunk <= capacity) :
    Moves capacity builtin (.writing (chunk :: writes) inside) (.write chunk)
      (.writing writes (inside + chunk)) := by
  unfold Moves Holder.next
  simp [hroom]

theorem stuck_read : Stuck capacity builtin (.returned 0 true) := by
  intro move s' h
  cases move with
  | read size =>
      rcases moves_read h with ⟨_, hend | hpos⟩
      · cases hend
      · exact absurd hpos (Nat.lt_irrefl 0)
  | _ =>
      cases h

theorem stuck_write {chunk : Nat} (writes : List Nat) (hchunk : 0 < chunk) :
    Stuck capacity builtin (.writing (chunk :: writes) capacity) := by
  intro move s' h
  cases move with
  | write size =>
      rcases moves_write h with ⟨_, hroom, hzero, _⟩
      omega
  | _ =>
      cases h

/-- A builtin whose output fits, and that closes the write end or writes
something, is never stuck. -/
theorem accounted_moves (hfits : builtin.output <= capacity)
    (hend : builtin.closes = true ∨ 0 < builtin.output) {s : Holder}
    (hs : s.Accounted capacity builtin) (hheld : s ≠ .released) :
    exists move s', Moves capacity builtin s move s' := by
  cases s with
  | locked =>
      exact ⟨.pipe, _, rfl⟩
  | writing writes inside =>
      cases writes with
      | nil =>
          exact ⟨.leave, _, rfl⟩
      | cons chunk writes =>
          have hsum := hs.left
          rw [List.sum_cons] at hsum
          exact ⟨.write chunk, _, moves_write_room writes (by omega)⟩
  | returned inside writeEnd =>
      rcases hs with ⟨rfl, _, rfl⟩
      unfold Moves Holder.next
      by_cases hzero : builtin.output = 0
      · have hcloses : builtin.closes = true := hend.resolve_right (by omega)
        exact ⟨.read 0, .received, by simp [hzero, hcloses]⟩
      · refine ⟨.read 1, .received, ?_⟩
        have hone : 1 <= builtin.output := Nat.one_le_iff_ne_zero.mpr hzero
        have hlimit : 1 <= cmdBuff - endstring.length - 1 := by decide
        simp [hzero, hone, hlimit]
  | received =>
      exact ⟨.closeRead, _, rfl⟩
  | halfClosed =>
      exact ⟨.closeWrite, _, rfl⟩
  | closed =>
      exact ⟨.unlock, _, rfl⟩
  | released =>
      exact absurd rfl hheld

/-!
# Runs
-/

theorem run_accounted {moves : List Move} {s : Holder}
    (h : Runs (Moves capacity builtin) .locked moves s) :
    s.Accounted capacity builtin := by
  have hstep : forall s move s', Holder.Accounted capacity builtin s ->
      Moves capacity builtin s move s' ->
      Holder.Accounted capacity builtin s' :=
    fun s move s' hs hmoves => (moves_accounted hs hmoves).left
  exact Runs.invariant hstep h trivial

theorem releases_of_fits (hfits : builtin.output <= capacity)
    (hend : builtin.closes = true ∨ 0 < builtin.output) :
    Releases capacity builtin := by
  intro moves s hrun
  have hstep : forall s move s', Holder.Accounted capacity builtin s ->
      ¬ s = .released ->
      Moves capacity builtin s move s' ->
      Holder.Accounted capacity builtin s' ∧ s'.remaining builtin <
        s.remaining builtin :=
    fun s move s' hs _ hmoves => moves_accounted hs hmoves
  have hprogress : forall s, Holder.Accounted capacity builtin s ->
      ¬ s = .released ->
      exists move s', Moves capacity builtin s move s' :=
    fun s hs hheld => accounted_moves hfits hend hs hheld
  rcases Runs.reaches hstep hprogress (run_accounted hrun) with
    ⟨more, t, hmore, _, rfl⟩
  exact ⟨more, hmore⟩

def Holder.Reading : Holder -> Prop
  | .writing _ _ | .returned _ _ | .received => True
  | _ => False

theorem moves_reading {s s' : Holder} {move : Move} (hs : s.Reading)
    (hopen : ¬ s = .received)
    (h : Moves capacity builtin s move s') : s'.Reading := by
  cases s with
  | writing writes inside =>
      cases writes with
      | nil =>
          cases move <;> cases h
          trivial
      | cons chunk writes =>
          cases move with
          | write size =>
              rcases moves_write h with ⟨_, _, _, ⟨_, rfl⟩ | ⟨_, rfl⟩⟩ <;> trivial
          | _ =>
              cases h
  | returned inside writeEnd =>
      cases move with
      | read size =>
          rcases moves_read h with ⟨rfl, _⟩
          trivial
      | _ =>
          cases h
  | received =>
      exact absurd rfl hopen
  | _ =>
      exact hs.elim

theorem fits_of_neverWedged (h : NeverWedged capacity builtin) :
    builtin.output <= capacity ∧ (builtin.closes = true ∨ 0 < builtin.output) := by
  let inv : Holder -> Prop := fun s =>
    (exists moves, Runs (Moves capacity builtin) .locked moves s) ∧ s.Reading
  have hstep : forall s move s', inv s -> ¬ s = .received ->
      Moves capacity builtin s move s' ->
      inv s' ∧ s'.remaining builtin < s.remaining builtin := by
    rintro s move s' ⟨⟨moves, hrun⟩, hreading⟩ hopen hmoves
    refine ⟨⟨⟨moves ++ [move], .snoc hrun hmoves⟩,
      moves_reading hreading hopen hmoves⟩, ?_⟩
    exact (moves_accounted (run_accounted hrun) hmoves).right
  have hprogress : forall s, inv s -> ¬ s = .received -> exists move s',
      Moves capacity builtin s move s' := by
    rintro s ⟨⟨moves, hrun⟩, hreading⟩ _
    have hheld : s ≠ .released := by
      rintro rfl
      exact hreading
    simpa only [Stuck, not_forall, not_not] using h moves s hrun hheld
  have hpipe : inv (.writing builtin.writes 0) := ⟨⟨[.pipe], .single rfl⟩, trivial⟩
  rcases Runs.reaches hstep hprogress hpipe with
    ⟨more, t, _, ⟨⟨moves, hrun⟩, _⟩, rfl⟩
  exact run_accounted hrun

/--
No state in which the lock is held is stuck, exactly for a builtin whose output
fits into the pipe and that closes the write end or writes something; and then
the lock is released.
-/
theorem neverWedged_iff (capacity : Nat) (builtin : Builtin) :
    (NeverWedged capacity builtin ∧ Releases capacity builtin) <->
      builtin.output <= capacity ∧ (builtin.closes = true ∨
        0 < builtin.output) := by
  constructor
  · rintro ⟨h, _⟩
    exact fits_of_neverWedged h
  · rintro ⟨hfits, hend⟩
    refine ⟨?_, releases_of_fits hfits hend⟩
    intro moves s hrun hheld hstuck
    rcases accounted_moves hfits hend (run_accounted hrun) hheld with
      ⟨move, s', hmoves⟩
    exact hstuck move s' hmoves

/-- A byte more than fits, and nothing at all without closing the write end. -/
theorem wedged :
    ¬ NeverWedged 65536 { writes := [65537], closes := true } ∧
      ¬ NeverWedged 65536 { writes := [], closes := false } := by
  constructor
  · intro h
    refine h [.pipe, .write 65536] (.writing [1] 65536) ?_ ?_
      (stuck_write [] Nat.one_pos)
    · exact .cons rfl (.single rfl)
    · rintro ⟨⟩
  · intro h
    refine h [.pipe, .leave] (.returned 0 true) ?_ ?_ stuck_read
    · exact .cons rfl (.single rfl)
    · rintro ⟨⟩

end Server
end Lepd
