import Mathlib.Data.List.Basic

/-!
# Sorting with a comparison function

What the C library promises of `qsort`: the items are permuted, and where the
comparison function is consistent they are in its order. Nothing is said of
items that compare equal.
-/

namespace Lepd
namespace Foundation

variable {item : Type}

structure Consistent (compar : item -> item -> Int) : Prop where
  total : forall a b, compar a b <= 0 ∨ compar b a <= 0
  trans : forall a b c, compar a b <= 0 -> compar b c <= 0 -> compar a c <= 0

/-- The items are in the order of the comparison function. -/
def InOrder (compar : item -> item -> Int) (items : List item) : Prop :=
  items.Pairwise (fun a b => compar a b <= 0)

/-!
# Several keys
-/

/-- The comparison function orders all items, and turns its sign with its
arguments. -/
structure Orders (compar : item -> item -> Int) : Prop where
  antisymm : forall a b, compar a b <= 0 <-> 0 <= compar b a
  trans : forall a b c, compar a b <= 0 -> compar b c <= 0 -> compar a c <= 0

def firstOf : List (item -> item -> Int) -> item -> item -> Int
  | [], _, _ => 0
  | compar :: compars, a, b => if compar a b = 0 then firstOf compars a b
      else compar a b

theorem Orders.consistent {compar : item -> item -> Int} (h : Orders compar) :
    Consistent compar where
  total a b := by
    rcases Int.le_total (compar a b) 0 with hle | hle
    · exact Or.inl hle
    · exact Or.inr ((h.antisymm b a).mpr hle)
  trans := h.trans

theorem Orders.neg {compar : item -> item -> Int} (h : Orders compar) :
    Orders (fun a b => -compar a b) where
  antisymm a b := by
    have hba := h.antisymm b a
    omega
  trans a b c hab hbc := by
    have hab' := h.antisymm b a
    have hbc' := h.antisymm c b
    have hac' := h.antisymm c a
    have hca := h.trans c b a
    omega

/-- Items that compare equal are not told apart by the items in between. -/
theorem Orders.zero_iff {compar : item -> item -> Int} (h : Orders compar)
    {a b c : item} (hab : compar a b <= 0)
    (hbc : compar b c <= 0) : compar a c = 0 <-> compar a b = 0 ∧
    compar b c = 0 := by
  have hac := h.trans a b c hab hbc
  constructor
  · intro hzero
    have hca : compar c a <= 0 := (h.antisymm c a).mpr (Int.le_of_eq hzero.symm)
    have hba := (h.antisymm b a).mp (h.trans b c a hbc hca)
    have hcb := (h.antisymm c b).mp (h.trans c a b hca hab)
    exact ⟨Int.le_antisymm hab hba, Int.le_antisymm hbc hcb⟩
  · rintro ⟨hab', hbc'⟩
    have hba : compar b a <= 0 := (h.antisymm b a).mpr (Int.le_of_eq hab'.symm)
    have hcb : compar c b <= 0 := (h.antisymm c b).mpr (Int.le_of_eq hbc'.symm)
    exact Int.le_antisymm hac ((h.antisymm c a).mp (h.trans c b a hcb hba))

theorem firstOf_cons (compar : item -> item -> Int)
    (compars : List (item -> item -> Int)) (a b : item) :
    firstOf (compar :: compars) a b = if compar a b = 0 then firstOf compars a b
      else compar a b :=
  rfl

/-- What the first key says of two items, and what is left to the others. -/
theorem firstOf_le {compar : item -> item -> Int}
    {compars : List (item -> item -> Int)} {a b : item} :
    firstOf (compar :: compars) a b <= 0 <-> compar a b <= 0 ∧
      (compar a b = 0 -> firstOf compars a b <= 0) := by
  rw [firstOf_cons]
  split
  · next heq => exact ⟨fun hr => ⟨Int.le_of_eq heq, fun _ => hr⟩,
      fun hr => hr.right heq⟩
  · next hne => exact ⟨fun hr => ⟨hr, fun heq => absurd heq hne⟩, fun hr => hr.left⟩

theorem orders_firstOf {compars : List (item -> item -> Int)}
    (h : forall compar, compar ∈ compars -> Orders compar) :
    Orders (firstOf compars) := by
  induction compars with
  | nil => exact ⟨fun _ _ => Iff.rfl, fun _ _ _ _ _ => Int.le_refl 0⟩
  | cons compar compars ih =>
      have hfirst := h compar List.mem_cons_self
      have hrest := ih (fun compar' hcompar =>
        h compar' (List.mem_cons_of_mem compar hcompar))
      constructor
      · intro a b
        have hab := hfirst.antisymm a b
        have hba := hfirst.antisymm b a
        have hrest' := hrest.antisymm a b
        rw [firstOf_le, firstOf_cons]
        split
        · omega
        · omega
      · intro a b c hab hbc
        rw [firstOf_le] at hab hbc ⊢
        refine ⟨hfirst.trans a b c hab.left hbc.left, ?_⟩
        intro hac
        rcases (hfirst.zero_iff hab.left hbc.left).mp hac with ⟨heq, heq'⟩
        exact hrest.trans a b c (hab.right heq) (hbc.right heq')

/-!
# Items with one key
-/

section Keys

variable {key : item -> Nat}

theorem filter_key_front {items : List item} {k : Nat}
    (hsorted : items.Pairwise (fun a b => key a <= key b))
    (hle : forall a, a ∈ items -> k <= key a) :
    exists rest, items = items.filter (fun a => key a = k) ++ rest ∧ forall a,
      a ∈ rest -> key a ≠ k := by
  induction items with
  | nil => exact ⟨[], rfl, fun a ha => (nomatch ha)⟩
  | cons x items ih =>
      rcases List.pairwise_cons.mp hsorted with ⟨hx, hitems⟩
      by_cases hk : key x = k
      · rcases ih hitems (fun a ha => hle a (List.mem_cons_of_mem x ha)) with
          ⟨rest, hrest, hne⟩
        refine ⟨rest, ?_, hne⟩
        rw [List.filter_cons_of_pos (by simpa using hk), List.cons_append, ← hrest]
      · have hlt : k < key x := Nat.lt_of_le_of_ne (hle x List.mem_cons_self)
          (Ne.symm hk)
        have hall : forall a, a ∈ x :: items -> key a ≠ k := by
          intro a ha
          rcases List.mem_cons.mp ha with rfl | ha
          · exact hk
          · exact Nat.ne_of_gt (Nat.lt_of_lt_of_le hlt (hx a ha))
        refine ⟨x :: items, ?_, hall⟩
        rw [List.filter_eq_nil_iff.mpr (fun a ha => by simpa using hall a ha),
          List.nil_append]

theorem filter_key {items : List item}
    (hsorted : items.Pairwise (fun a b => key a <= key b)) (k : Nat) :
    (items.findIdx? (fun a => key a = k) = none ∧
    items.filter (fun a => key a = k) = []) ∨
      exists i rest, items.findIdx? (fun a => key a = k) = some i ∧
        items.drop i = items.filter (fun a => key a = k) ++ rest ∧
        items.filter (fun a => key a = k) ≠ [] ∧ forall a, a ∈ rest ->
          key a ≠ k := by
  induction items with
  | nil => exact Or.inl ⟨rfl, rfl⟩
  | cons x items ih =>
      rcases List.pairwise_cons.mp hsorted with ⟨hx, hitems⟩
      by_cases hk : key x = k
      · have hle : forall a, a ∈ x :: items -> k <= key a := by
          intro a ha
          rcases List.mem_cons.mp ha with rfl | ha
          · exact Nat.le_of_eq hk.symm
          · exact hk ▸ hx a ha
        rcases filter_key_front hsorted hle with ⟨rest, hrest, hne⟩
        refine Or.inr ⟨0, rest, ?_, hrest, ?_, hne⟩
        · rw [List.findIdx?_cons, if_pos (decide_eq_true hk)]
        · rw [List.filter_cons_of_pos (by simpa using hk)]
          exact List.cons_ne_nil x _
      · rw [List.findIdx?_cons, if_neg (by simpa using hk),
          List.filter_cons_of_neg (by simpa using hk)]
        rcases ih hitems with ⟨hnone, hfilter⟩ | ⟨i, rest, hi, hrest, hne, hall⟩
        · exact Or.inl ⟨by rw [hnone]; rfl, hfilter⟩
        · exact Or.inr ⟨i + 1, rest, by rw [hi]; rfl, hrest, hne, hall⟩

end Keys

/-!
# `qsort`
-/

structure Qsort (item : Type) where
  sort : (item -> item -> Int) -> List item -> List item
  perm : forall compar items, (sort compar items).Perm items
  sorted : forall compar items, Consistent compar ->
    InOrder compar (sort compar items)

theorem mergeSort_inOrder {compar : item -> item -> Int} (items : List item)
    (h : Consistent compar) :
    InOrder compar (items.mergeSort (fun a b => decide (compar a b <= 0))) := by
  have htrans : forall a b c, decide (compar a b <= 0) = true ->
      decide (compar b c <= 0) = true ->
      decide (compar a c <= 0) = true := by
    intro a b c hab hbc
    exact decide_eq_true (h.trans a b c (of_decide_eq_true hab)
      (of_decide_eq_true hbc))
  have htotal : forall a b, (decide (compar a b <= 0) ||
    decide (compar b a <= 0)) = true := by
    intro a b
    rw [Bool.or_eq_true, decide_eq_true_iff, decide_eq_true_iff]
    exact h.total a b
  exact (List.pairwise_mergeSort htrans htotal items).imp of_decide_eq_true

theorem mergeSort_perm_decide (compar : item -> item -> Int) (items : List item) :
    (items.mergeSort (fun a b => decide (compar a b <= 0))).Perm items :=
  List.mergeSort_perm items _

/-- Merging is one way to sort. -/
def Qsort.merge : Qsort item where
  sort compar items := items.mergeSort (fun a b => decide (compar a b <= 0))
  perm := mergeSort_perm_decide
  sorted _ := mergeSort_inOrder

namespace Qsort

variable (qsort : Qsort item)

theorem length (compar : item -> item -> Int) (items : List item) :
    (qsort.sort compar items).length = items.length :=
  (qsort.perm compar items).length_eq

end Qsort
end Foundation
end Lepd
