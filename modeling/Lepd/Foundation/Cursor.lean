import Mathlib.Algebra.Order.Ring.Nat
import Mathlib.Data.List.Basic

/-!
# Cursor computations

A C routine that walks memory through a pointer is modelled on the suffix of
the memory block that the pointer still has in front of it.  Reading takes the
head of the suffix, and reading an empty suffix is a fault.  A routine that
answers a null pointer keeps the place its cursor had reached, because C
callers go on to look at it.
-/

namespace Lepd
namespace Foundation

/-- How a cursor computation ends: with a result, with a null answer, or not at
all. -/
inductive Outcome (fault cell value : Type) where
  | ok (result : value) (rest : List cell)
  | null (rest : List cell)
  | fault (reason : fault)
deriving DecidableEq

abbrev Scan (fault cell value : Type) : Type :=
  List cell -> Outcome fault cell value

variable {fault cell value other : Type}

namespace Scan

def andThen (o : Outcome fault cell value) (f : value -> Scan fault cell other) :
    Outcome fault cell other :=
  match o with
  | .ok a rest => f a rest
  | .null rest => .null rest
  | .fault reason => .fault reason

instance : Monad (Scan fault cell) where
  pure a := fun cur => .ok a cur
  bind m f := fun cur => andThen (m cur) f

/-- Answer a null pointer, leaving the cursor where it is. -/
def fail : Scan fault cell value :=
  fun cur => .null cur

/-- Stop in an undefined state. -/
def undefined (reason : fault) : Scan fault cell value :=
  fun _ => .fault reason

def peek (overrun : fault) : Scan fault cell cell
  | [] => .fault overrun
  | c :: cur => .ok c (c :: cur)

def peekNext (overrun : fault) : Scan fault cell cell
  | c :: d :: cur => .ok d (c :: d :: cur)
  | _ => .fault overrun

def advance : Scan fault cell Unit :=
  fun cur => .ok () cur.tail

@[simp] theorem pure_apply (a : value) (cur : List cell) :
    (pure a : Scan fault cell value) cur = .ok a cur := rfl

@[simp] theorem bind_apply (m : Scan fault cell value)
    (f : value -> Scan fault cell other) (cur : List cell) :
    (m >>= f) cur = andThen (m cur) f := rfl

@[simp] theorem andThen_ok (a : value) (rest : List cell)
    (f : value -> Scan fault cell other) :
    andThen (.ok a rest) f = f a rest := rfl

@[simp] theorem andThen_null (rest : List cell)
    (f : value -> Scan fault cell other) :
    andThen (.null rest) f = .null rest := rfl

@[simp] theorem andThen_fault (reason : fault)
    (f : value -> Scan fault cell other) :
    andThen (.fault reason) f = .fault reason := rfl

@[simp] theorem fail_apply (cur : List cell) :
    (fail : Scan fault cell value) cur = .null cur := rfl

@[simp] theorem undefined_apply (reason : fault) (cur : List cell) :
    (undefined reason : Scan fault cell value) cur = .fault reason := rfl

@[simp] theorem peek_nil (overrun : fault) :
    (peek overrun : Scan fault cell cell) [] = .fault overrun := rfl

@[simp] theorem peek_cons (overrun : fault) (c : cell) (cur : List cell) :
    peek overrun (c :: cur) = .ok c (c :: cur) := rfl

@[simp] theorem peekNext_cons (overrun : fault) (c d : cell) (cur : List cell) :
    peekNext overrun (c :: d :: cur) = .ok d (c :: d :: cur) := rfl

@[simp] theorem advance_apply (cur : List cell) :
    (advance : Scan fault cell Unit) cur = .ok () cur.tail := rfl

theorem ite_apply {p : Prop} [Decidable p] (m n : Scan fault cell value)
    (cur : List cell) :
    (if p then m else n) cur = if p then m cur else n cur := by
  by_cases h : p <;> simp [h]

/-!
## Moving forward

A computation that only steps its cursor forward leaves it on a suffix of the cells
it was given, whether it answers or not.
-/

def EndsIn (cur : List cell) : Outcome fault cell value -> Prop
  | .ok _ rest => rest <:+ cur
  | .null rest => rest <:+ cur
  | .fault _ => True

def Forward (m : Scan fault cell value) : Prop :=
  forall cur, EndsIn cur (m cur)

theorem EndsIn.trans {o : Outcome fault cell value} {cur mid : List cell}
    (h : EndsIn mid o)
    (hmid : mid <:+ cur) : EndsIn cur o := by
  cases o with
  | ok a rest =>
      exact List.IsSuffix.trans h hmid
  | null rest =>
      exact List.IsSuffix.trans h hmid
  | fault reason =>
      trivial

theorem EndsIn.append {o : Outcome fault cell value} {mid : List cell}
    (h : EndsIn mid o)
    (front : List cell) : EndsIn (front ++ mid) o :=
  h.trans (List.suffix_append front mid)

theorem EndsIn.andThen {o : Outcome fault cell value} {cur : List cell}
    (h : EndsIn cur o)
    {f : value -> Scan fault cell other} (hf : forall a, Forward (f a)) :
    EndsIn cur (andThen o f) := by
  cases o with
  | ok a rest =>
      exact (hf a rest).trans h
  | null rest =>
      exact h
  | fault reason =>
      trivial

theorem forward_bind {m : Scan fault cell value}
    {f : value -> Scan fault cell other}
    (h : Forward m) (hf : forall a, Forward (f a)) : Forward (m >>= f) :=
  fun cur => (h cur).andThen hf

theorem forward_pure (a : value) : Forward (pure a : Scan fault cell value) :=
  List.suffix_refl

theorem forward_fail : Forward (fail : Scan fault cell value) :=
  List.suffix_refl

theorem forward_undefined (reason : fault) :
    Forward (undefined reason : Scan fault cell value) :=
  fun _ => trivial

theorem forward_peek (overrun : fault) :
    Forward (peek overrun : Scan fault cell cell) := by
  intro cur
  cases cur with
  | nil =>
      trivial
  | cons c cur =>
      exact List.suffix_refl _

theorem forward_peekNext (overrun : fault) :
    Forward (peekNext overrun : Scan fault cell cell) := by
  intro cur
  match cur with
  | [] => trivial
  | [_] => trivial
  | _ :: _ :: _ => exact List.suffix_refl _

theorem forward_advance : Forward (advance : Scan fault cell Unit) :=
  List.tail_suffix

theorem forward_ite {p : Prop} [Decidable p] {m n : Scan fault cell value}
    (hm : Forward m)
    (hn : Forward n) : Forward (if p then m else n) := by
  split
  · exact hm
  · exact hn

theorem forward_length {f : Nat -> Scan fault cell value}
    (h : forall n, Forward (f n)) :
    Forward (fun cur => f (cur.length + 1) cur) :=
  fun cur => h _ cur

end Scan
end Foundation
end Lepd
