import Lepd.Foundation.Cursor
import Lepd.Foundation.Programs

/-!
# Builders

A routine that reads from a cursor on often builds what it reads in some state.
What it reads is told by a computation that builds nothing, and the routine
follows that one: it gets to the same place, and it answers where the other one
answers. It may give up where it is out of room.
-/

namespace Lepd
namespace Foundation

/-- A routine with a cursor; without an answer, it answers a null pointer. -/
abbrev Builder (state cell value : Type) : Type :=
  List cell -> Program state (Option value × List cell)

variable {state fault cell value other result : Type}

namespace Builder

def andThen (r : Option value × List cell)
    (f : value -> Builder state cell other) :
    Program state (Option other × List cell) :=
  match r.1 with
  | none => pure (none, r.2)
  | some a => f a r.2

instance : Monad (Builder state cell) where
  pure a := fun cur => pure (some a, cur)
  bind m f := fun cur => m cur >>= fun r => andThen r f

def scan (m : Scan fault cell value) : Builder state cell value :=
  fun cur =>
    match m cur with
    | .ok a rest => pure (some a, rest)
    | .null rest => pure (none, rest)
    | .fault _ => StateT.lift none

def act (p : Program state value) : Builder state cell value :=
  fun cur => p >>= fun a => pure (some a, cur)

def fail : Builder state cell value :=
  fun cur => pure (none, cur)

/-!
# Following
-/

/-- How a routine ends where the computation that it follows ends like this. -/
inductive Matches (room : Prop) (good : value -> other -> state -> Prop)
    (bad : state -> Prop) :
    Outcome fault cell value -> Option ((Option other × List cell) × state) ->
      Prop where
  | ok {a : value} {b : other} {rest : List cell} {s : state} : good a b s ->
      Matches room good bad (.ok a rest) (some ((some b, rest), s))
  | null {rest : List cell} {s : state} : bad s ->
      Matches room good bad (.null rest) (some ((none, rest), s))
  | fault {reason : fault} : Matches room good bad (.fault reason) none
  | full {o : Outcome fault cell value} {rest : List cell} {s : state} :
      ¬ room -> bad s -> Matches room good bad o (some ((none, rest), s))

/-- From the state `s`, the routine follows the computation. -/
def Follows (room : Prop) (m : Builder state cell other)
    (p : Scan fault cell value) (s : state)
    (good : value -> other -> state -> Prop) (bad : state -> Prop) : Prop :=
  forall cur, Matches room good bad (p cur) (m cur s)

variable {room : Prop} {m : Builder state cell other}
  {p : Scan fault cell value} {s s' : state}
  {good good' : value -> other -> state -> Prop} {bad bad' : state -> Prop}

theorem Matches.mono {o : Outcome fault cell value}
    {r : Option ((Option other × List cell) × state)}
    (h : Matches room good bad o r)
    (hgood : forall a b t, good a b t -> good' a b t)
    (hbad : forall t, bad t -> bad' t) : Matches room good' bad' o r := by
  cases h with
  | ok hab => exact .ok (hgood _ _ _ hab)
  | null hs => exact .null (hbad _ hs)
  | fault => exact .fault
  | full hfull hs => exact .full hfull (hbad _ hs)

theorem Follows.mono (h : Follows room m p s good bad)
    (hgood : forall a b t, good a b t -> good' a b t)
    (hbad : forall t, bad t -> bad' t) : Follows room m p s good' bad' :=
  fun cur => (h cur).mono hgood hbad

theorem Follows.fail (h : bad s) :
    Follows room Builder.fail (Scan.fail : Scan fault cell value) s good bad :=
  fun _ => .null h

theorem Follows.undefined (reason : fault) :
    Follows room (scan (Scan.undefined reason : Scan fault cell other))
      (Scan.undefined reason : Scan fault cell value) s good bad :=
  fun _ => .fault

theorem Follows.full (hfull : ¬ room) (h : bad s) :
    Follows room Builder.fail p s good bad :=
  fun _ => .full hfull h

theorem Matches.andThen {next : Type} {f : other -> Builder state cell next}
    {g : value -> Scan fault cell result}
    {good' : result -> next -> state -> Prop} {o : Outcome fault cell value}
    {r : Option ((Option other × List cell) × state)}
    (h : Matches room good bad o r) (h' : forall a b t, good a b t ->
    Follows room (f b) (g a) t good' bad) :
    Matches room good' bad (Scan.andThen o g)
      (r.bind (fun r => andThen r.1 f r.2)) := by
  cases h with
  | ok hab => exact h' _ _ _ hab _
  | null hs => exact .null hs
  | fault => exact .fault
  | full hfull hs => exact .full hfull hs

theorem Follows.bind {next : Type} {f : other -> Builder state cell next}
    {g : value -> Scan fault cell result}
    {good' : result -> next -> state -> Prop} (h : Follows room m p s good bad)
    (h' : forall a b t, good a b t -> Follows room (f b) (g a) t good' bad) :
    Follows room (m >>= f) (p >>= g) s good' bad :=
  fun cur => (h cur).andThen h'

theorem Follows.return {g : value -> result}
    {good' : result -> other -> state -> Prop}
    (h : Follows room m p s (fun a b t => good' (g a) b t) bad) :
    Follows room m (p >>= fun a => Pure.pure (g a)) s good' bad := by
  intro cur
  show Matches room good' bad (Scan.andThen (p cur) _) (m cur s)
  generalize m cur s = r, p cur = o, h cur = hcur
  cases hcur with
  | ok hab => exact .ok hab
  | null hs => exact .null hs
  | fault => exact .fault
  | full hfull hs => exact .full hfull hs

theorem Follows.read {f : value -> Builder state cell other}
    {g : value -> Scan fault cell result} {good : result -> other -> state -> Prop}
    (h : forall a, Follows room (f a) (g a) s good bad) (hbad : bad s) :
    Follows room (scan p >>= f) (p >>= g) s good bad := by
  intro cur
  show Matches room good bad (Scan.andThen (p cur) g)
    ((scan p cur >>= fun r => andThen r f) s)
  rw [Program.bind_apply]
  unfold scan
  cases p cur with
  | ok a rest => exact h a rest
  | null rest => exact .null hbad
  | fault reason => exact .fault

theorem Follows.scan {p : Scan fault cell other}
    {good : other -> other -> state -> Prop} (hgood : forall a, good a a s)
    (hbad : bad s) :
    Follows room (Builder.scan p) p s good bad := by
  intro cur
  unfold Builder.scan
  cases p cur with
  | ok a rest => exact .ok (hgood a)
  | null rest => exact .null hbad
  | fault reason => exact .fault

/-- What is read is the answer of the computation, and the routine goes on with
it. -/
theorem Follows.finish {p : Scan fault cell result}
    {f : result -> Builder state cell other}
    {good : result -> other -> state -> Prop}
    (h : forall cur a rest, p cur = .ok a rest ->
    Follows room (f a) (Pure.pure a : Scan fault cell result) s good bad)
    (hbad : bad s) :
    Follows room (Builder.scan p >>= f) p s good bad := by
  intro cur
  show Matches room good bad (p cur)
    ((Builder.scan p cur >>= fun r => andThen r f) s)
  rw [Program.bind_apply]
  unfold Builder.scan
  cases hp : p cur with
  | ok a rest => exact h cur a rest hp rest
  | null rest => exact .null hbad
  | fault reason => exact .fault

/-- The first computation looks at the text that the second one reads then. -/
def Ahead (l : Scan fault cell result) (p : Scan fault cell value) : Prop :=
  forall cur, (exists a, l cur = .ok a cur) ∨
    (exists rest, l cur = .null rest ∧ p cur = .null rest) ∨
    exists reason reason', l cur = .fault reason ∧ p cur = .fault reason'

theorem Follows.ahead {l : Scan fault cell result}
    {f : result -> Builder state cell other} (hahead : Ahead l p)
    (h : forall a, Follows room (f a) p s good bad) (hbad : bad s) :
    Follows room (Builder.scan l >>= f) p s good bad := by
  intro cur
  show Matches room good bad (p cur)
    ((Builder.scan l cur >>= fun r => andThen r f) s)
  rw [Program.bind_apply]
  unfold Builder.scan
  rcases hahead cur with ⟨a, hl⟩ | ⟨rest, hl, hp⟩ | ⟨reason, reason', hl, hp⟩
  · rw [hl]
    exact h a cur
  · rw [hl, hp]
    exact .null hbad
  · rw [hl, hp]
    exact .fault

theorem Follows.last {q : Program state other} {a : value} {b : other}
    (hrun : q s = some (b, s')) (h : good a b s') :
    Follows room (Builder.act q) (Pure.pure a : Scan fault cell value) s good
      bad := by
  intro cur
  show Matches room good bad (.ok a cur)
    ((q >>= fun b => Pure.pure (some b, cur)) s)
  rw [Program.bind_apply, hrun]
  exact .ok h

theorem Follows.answer {next : Type} {g : other -> next}
    {good' : value -> next -> state -> Prop}
    (h : Follows room m p s (fun a b t => good' a (g b) t) bad) :
    Follows room (m >>= fun b => Pure.pure (g b)) p s good' bad := by
  intro cur
  show Matches room good' bad (p cur) ((m cur >>= fun r => andThen r _) s)
  rw [Program.bind_apply]
  generalize m cur s = r, p cur = o, h cur = hcur
  cases hcur with
  | ok hab => exact .ok hab
  | null hs => exact .null hs
  | fault => exact .fault
  | full hfull hs => exact .full hfull hs

theorem Follows.full_bind {f : other -> Builder state cell result}
    {good : value -> result -> state -> Prop} (hfull : ¬ room) (h : bad s) :
    Follows room (Builder.fail >>= f) p s good bad :=
  fun _ => .full hfull h

theorem Follows.act {q : Program state result}
    {f : result -> Builder state cell other} {a : result}
    (hrun : q s = some (a, s'))
    (h : Follows room (f a) p s' good bad) :
    Follows room (act q >>= f) p s good bad := by
  intro cur
  show Matches room good bad (p cur)
    (((q >>= fun a => Pure.pure (some a, cur)) >>= fun r => andThen r f) s)
  rw [Program.bind_apply, Program.bind_apply, hrun]
  exact h cur

theorem Follows.ite {c : Prop} [Decidable c] {m' : Builder state cell other}
    {p' : Scan fault cell value}
    (h : c -> Follows room m p s good bad)
    (h' : ¬ c -> Follows room m' p' s good bad) :
    Follows room (if c then m else m') (if c then p else p') s good bad := by
  split
  · next hc => exact h hc
  · next hc => exact h' hc

theorem Follows.length {f : Nat -> Builder state cell other}
    {g : Nat -> Scan fault cell value}
    (h : forall n, Follows room (f n) (g n) s good bad) :
    Follows room (fun cur => f (cur.length + 1) cur)
      (fun cur => g (cur.length + 1) cur) s good bad :=
  fun cur => h (cur.length + 1) cur

end Builder
end Foundation
end Lepd
