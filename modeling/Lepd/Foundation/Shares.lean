import Mathlib.Algebra.BigOperators.Group.Finset.Basic
import Mathlib.Algebra.Group.Action.Defs
import Mathlib.Algebra.Order.BigOperators.Group.Finset
import Mathlib.Algebra.Order.Ring.Nat
import Mathlib.Data.Finset.Card

/-!
# Shares

Things that are used several times, each use with a share of the thing. A list
has a thing once for each use, and the share is the size of a thing divided by
how often it is used.
-/

namespace Lepd
namespace Foundation
namespace Shares

variable {thing : Type} [DecidableEq thing] {uses : List thing}
  {count : thing -> Nat}

theorem count_mul_le (size : Nat) {x : thing} (h : uses.count x <= count x) :
    uses.count x * (size / count x) <= size :=
  Nat.le_trans (Nat.mul_le_mul_right _ h) (Nat.mul_div_le size (count x))

/-- If all uses are counted, what is lost in the division is less than one for
each use. -/
theorem le_count_mul (size : Nat) {x : thing} (hx : x ∈ uses)
    (h : uses.count x = count x) :
    size <= uses.count x * (size / count x) + uses.count x := by
  have hpos : 0 < count x := h ▸ List.count_pos_iff.mpr hx
  have hmod := Nat.mod_lt size hpos
  have hdiv := Nat.div_add_mod size (count x)
  rw [h]
  omega

theorem sum_le (size : Nat) (h : forall x, x ∈ uses -> uses.count x <= count x) :
    (uses.map (fun x => size / count x)).sum <= uses.dedup.length * size := by
  rw [Finset.sum_list_map_count, ← List.card_toFinset, ← smul_eq_mul]
  apply Finset.sum_le_card_nsmul
  intro x hx
  exact count_mul_le size (h x (List.mem_toFinset.mp hx))

theorem le_sum (size : Nat) (h : forall x, x ∈ uses -> uses.count x = count x) :
    uses.dedup.length * size <= (uses.map (fun x => size / count x)).sum +
      uses.length := by
  have hlength : uses.length = ∑ x ∈ uses.toFinset, uses.count x :=
    (List.sum_toFinset_count_eq_length uses).symm
  rw [Finset.sum_list_map_count, hlength, ← Finset.sum_add_distrib,
    ← List.card_toFinset, ← smul_eq_mul]
  apply Finset.card_nsmul_le_sum
  intro x hx
  have hmem := List.mem_toFinset.mp hx
  exact le_count_mul size hmem (h x hmem)

theorem sum_singles (size : Nat) (h : forall x, x ∈ uses ->
    uses.count x = count x) :
    (uses.map (fun x => if count x = 1 then size else 0)).sum =
    (uses.filter (fun x => uses.count x = 1)).length * size := by
  have hsum : forall l : List thing, (forall x, x ∈ l -> uses.count x = count x) ->
      (l.map (fun x => if count x = 1 then size else 0)).sum =
        (l.filter (fun x => uses.count x = 1)).length * size := by
    intro l
    induction l with
    | nil => exact fun _ => (Nat.zero_mul size).symm
    | cons x l ih =>
        intro hl
        have hx := hl x List.mem_cons_self
        rw [List.map_cons, List.sum_cons,
          ih (fun y hy => hl y (List.mem_cons_of_mem x hy)), List.filter_cons, hx]
        by_cases hone : count x = 1
        · rw [if_pos hone, if_pos (decide_eq_true hone), List.length_cons,
            Nat.succ_mul, Nat.add_comm]
        · rw [if_neg hone, if_neg (by simpa using hone), Nat.zero_add]
  exact hsum uses h

end Shares
end Foundation
end Lepd
