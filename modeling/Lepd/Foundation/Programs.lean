import Mathlib.Algebra.Order.Ring.Nat
import Mathlib.Data.List.Basic

/-!
# Programs with a state

A routine is a function of the state that answers nothing where its behaviour is
undefined. It is total on the states of a precondition when it answers there,
and its postcondition speaks of the answer and of the state it leaves.
-/

namespace Lepd
namespace Foundation

abbrev Program (state value : Type) : Type :=
  StateT state Option value

namespace Program

variable {state value other : Type}

/-- Started in a state of `pre`, the program answers, and `post` holds of the
answer and the state left. -/
def Total (pre : state -> Prop) (p : Program state value)
    (post : value -> state -> Prop) : Prop :=
  forall s, pre s -> exists a s', p s = some (a, s') ∧ post a s'

/-- The program answers in every state, and what it answers has a property. -/
def Answers (p : Program state value) (post : value -> Prop) : Prop :=
  Total (fun _ => True) p (fun a _ => post a)

@[simp] theorem pure_apply (a : value) (s : state) :
    (pure a : Program state value) s = some (a, s) := rfl

@[simp] theorem bind_apply (p : Program state value)
    (f : value -> Program state other) (s : state) :
    (p >>= f) s = (p s).bind (fun r => f r.1 r.2) := rfl

variable {pre pre' : state -> Prop} {p : Program state value} {f : value ->
  Program state other}
  {post post' : value -> state -> Prop} {post'' : other -> state -> Prop}

theorem Total.pure {a : value} (h : forall s, pre s -> post a s) :
    Total pre (pure a) post := by
  intro s hs
  exact ⟨a, s, rfl, h s hs⟩

theorem Total.bind (h : Total pre p post)
    (h' : forall a, Total (post a) (f a) post'') :
    Total pre (p >>= f) post'' := by
  intro s hs
  rcases h s hs with ⟨a, t, hp, ha⟩
  rcases h' a t ha with ⟨b, u, hf, hb⟩
  refine ⟨b, u, ?_, hb⟩
  rw [bind_apply, hp]
  exact hf

theorem Total.mono (h : Total pre p post) (hpre : forall s, pre' s -> pre s)
    (hpost : forall a s, post a s -> post' a s) : Total pre' p post' := by
  intro s hs
  rcases h s (hpre s hs) with ⟨a, t, hp, ha⟩
  exact ⟨a, t, hp, hpost a t ha⟩

theorem Total.lift {x : Option value} (h : x.isSome = true) :
    Total pre (StateT.lift x) (fun _ => pre) := by
  intro s hs
  rcases Option.isSome_iff_exists.mp h with ⟨a, ha⟩
  refine ⟨a, s, ?_, hs⟩
  rw [ha]
  rfl

theorem Answers.pure {a : value} {post : value -> Prop} (h : post a) :
    Answers (Pure.pure a : Program state value) post :=
  Total.pure (fun _ _ => h)

theorem Answers.bind {post : value -> Prop} {post' : other -> Prop}
    (h : Answers p post)
    (h' : forall a, post a -> Answers (f a) post') : Answers (p >>= f) post' := by
  apply Total.bind h
  intro a s ha
  exact h' a ha s trivial

theorem Answers.mono {post post' : value -> Prop} (h : Answers p post)
    (himp : forall a, post a -> post' a) :
    Answers p post' :=
  Total.mono h (fun _ => id) (fun a _ => himp a)

/-!
# Partial correctness
-/

/-- Where the program answers, started in a state of `pre`, `post` holds of the
answer and the state left. -/
def Partial (pre : state -> Prop) (p : Program state value)
    (post : value -> state -> Prop) : Prop :=
  forall s a s', pre s -> p s = some (a, s') -> post a s'

theorem Partial.pure {a : value} (h : forall s, pre s -> post a s) :
    Partial pre (Pure.pure a) post := by
  intro s b s' hs hrun
  cases hrun
  exact h s hs

theorem bind_eq_some {s s' : state} {b : other} (h : (p >>= f) s = some (b, s')) :
    exists a t, p s = some (a, t) ∧ f a t = some (b, s') := by
  rw [bind_apply] at h
  rcases Option.bind_eq_some_iff.mp h with ⟨⟨a, t⟩, hp, hf⟩
  exact ⟨a, t, hp, hf⟩

theorem Partial.bind (h : Partial pre p post)
    (h' : forall a, Partial (post a) (f a) post'') :
    Partial pre (p >>= f) post'' := by
  intro s b u hs hrun
  rcases bind_eq_some hrun with ⟨a, t, hp, hf⟩
  exact h' a t b u (h s a t hs hp) hf

theorem Partial.mono (h : Partial pre p post) (hpre : forall s, pre' s -> pre s)
    (hpost : forall a s, post a s -> post' a s) : Partial pre' p post' := by
  intro s a t hs hrun
  exact hpost a t (h s a t (hpre s hs) hrun)

theorem Partial.lift {x : Option value} : Partial pre (StateT.lift x)
    (fun _ => pre) := by
  intro s a s' hs hrun
  rcases Option.bind_eq_some_iff.mp hrun with ⟨b, _, hb⟩
  cases hb
  exact hs

/-!
# Invariants
-/

/-- The program leaves the invariant as it finds it. -/
def Keeps (inv : state -> Prop) (p : Program state value) : Prop :=
  Partial inv p (fun _ => inv)

variable {inv : state -> Prop}

theorem Keeps.pure {a : value} : Keeps inv (Pure.pure a) :=
  Partial.pure (fun _ hs => hs)

theorem Keeps.bind (h : Keeps inv p) (h' : forall a, Keeps inv (f a)) :
    Keeps inv (p >>= f) :=
  Partial.bind h h'

theorem Keeps.ite {c : Prop} [Decidable c] {q : Program state value}
    (h : Keeps inv p) (h' : Keeps inv q) :
    Keeps inv (if c then p else q) := by
  split
  · exact h
  · exact h'

end Program
end Foundation
end Lepd
