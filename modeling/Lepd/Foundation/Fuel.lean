import Lepd.Foundation.Programs

/-!
# Programs with fuel

A program that may take any number of steps is given fuel, and has no answer
when that runs out. More fuel does not change an answer, so what such a program
answers is what it answers with any fuel that is enough.
-/

namespace Lepd
namespace Foundation
namespace Program

variable {state value other : Type} {p p' q : Program state value}
  {f f' : value -> Program state other}
  {s t : state} {a : value} {fuel fuel' : Nat}

def Agrees (p q : Program state value) : Prop :=
  forall s r, p s = some r -> q s = some r

theorem Agrees.refl (p : Program state value) : Agrees p p :=
  fun _ _ => id

theorem Agrees.trans {p q r : Program state value} (h : Agrees p q)
    (h' : Agrees q r) : Agrees p r :=
  fun s a hrun => h' s a (h s a hrun)

theorem Agrees.nothing : Agrees (StateT.lift none) p := by
  intro s r hrun
  cases hrun

theorem Agrees.bind (h : Agrees p p') (h' : forall a, Agrees (f a) (f' a)) :
    Agrees (p >>= f) (p' >>= f') := by
  intro s r hrun
  have hsome : (p >>= f) s = some (r.1, r.2) := hrun
  rcases bind_eq_some hsome with ⟨a, t, hp, hf⟩
  rw [bind_apply, h s (a, t) hp]
  exact h' a t r hf

theorem Agrees.ite {c : Prop} [Decidable c] (h : Agrees p p')
    {q q' : Program state value} (h' : Agrees q q') :
    Agrees (if c then p else q) (if c then p' else q') := by
  split
  · exact h
  · exact h'

/-- More fuel does not change an answer. -/
def Stable (p : Nat -> Program state value) : Prop :=
  forall fuel, Agrees (p fuel) (p (fuel + 1))

/-- With enough fuel, this is what the program comes to: an answer, or none. -/
def Settles (p : Nat -> Program state value) (s : state)
    (r : Option (value × state)) : Prop :=
  exists enough, forall fuel, enough <= fuel -> p fuel s = r

/-- With enough fuel, the program answers `a` and leaves the state `s'`. -/
abbrev Gives (p : Nat -> Program state value) (s : state) (a : value)
    (s' : state) : Prop :=
  Settles p s (some (a, s'))

/-- No fuel is enough. -/
abbrev Fails (p : Nat -> Program state value) (s : state) : Prop :=
  Settles p s none

section Fuel

variable {p : Nat -> Program state value} {f : Nat -> value ->
  Program state other} {r r' : Option (value × state)}
  {r'' : Option (other × state)}

theorem Stable.le (h : Stable p) (hle : fuel <= fuel') :
    Agrees (p fuel) (p fuel') := by
  induction hle with
  | refl => exact Agrees.refl _
  | step _ ih => exact ih.trans (h _)

theorem Stable.gives (h : Stable p) (hrun : p fuel s = some (a, t)) :
    Gives p s a t := by
  refine ⟨fuel, ?_⟩
  intro fuel' hle
  exact h.le hle s (a, t) hrun

theorem Settles.of {p : Program state value} (h : p s = r) :
    Settles (fun _ => p) s r :=
  ⟨0, fun _ _ => h⟩

theorem Settles.unique (h : Settles p s r) (h' : Settles p s r') : r' = r := by
  rcases h with ⟨n, hn⟩
  rcases h' with ⟨m, hm⟩
  rw [← hn (max n m) (Nat.le_max_left n m), ← hm (max n m) (Nat.le_max_right n m)]

theorem Settles.bind (h : Gives p s a t)
    (h' : Settles (fun fuel => f fuel a) t r'') :
    Settles (fun fuel => p fuel >>= f fuel) s r'' := by
  rcases h with ⟨n, hn⟩
  rcases h' with ⟨m, hm⟩
  refine ⟨max n m, ?_⟩
  intro fuel hle
  show (p fuel >>= f fuel) s = r''
  rw [bind_apply, hn fuel (Nat.le_trans (Nat.le_max_left n m) hle)]
  exact hm fuel (Nat.le_trans (Nat.le_max_right n m) hle)

theorem Settles.bind_none (h : Fails p s) :
    Fails (fun fuel => p fuel >>= f fuel) s := by
  rcases h with ⟨n, hn⟩
  refine ⟨n, ?_⟩
  intro fuel hle
  show (p fuel >>= f fuel) s = none
  rw [bind_apply, hn fuel hle]
  rfl

theorem Stable.only (h : Stable p) (hsettles : Settles p s r)
    (hrun : p fuel s = some (a, t)) : r = some (a, t) :=
  Settles.unique (h.gives hrun) hsettles

end Fuel

end Program
end Foundation
end Lepd
