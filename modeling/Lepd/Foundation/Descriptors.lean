import Mathlib.Algebra.Order.Ring.Nat
import Mathlib.Data.List.Basic

/-!
# Descriptor tables

A process refers to its open objects by numbers. A new object gets the lowest
number that is free, and a closed number is free again.
-/

namespace Lepd
namespace Foundation

abbrev Descriptors (object : Type) : Type :=
  List (Option object)

namespace Descriptors

variable {object : Type}

def entry (table : Descriptors object) (n : Nat) : Option object :=
  table[n]?.join

def lowestFree : Descriptors object -> Nat
  | [] => 0
  | none :: _ => 0
  | some _ :: table => lowestFree table + 1

def assign (new : object) : Descriptors object -> Descriptors object
  | [] => [some new]
  | none :: table => some new :: table
  | some other :: table => some other :: assign new table

def close (table : Descriptors object) (n : Nat) : Descriptors object :=
  table.set n none

@[simp] theorem entry_nil (n : Nat) :
    entry ([] : Descriptors object) n = none := rfl

@[simp] theorem entry_cons_zero (head : Option object)
    (table : Descriptors object) :
    entry (head :: table) 0 = head := rfl

@[simp] theorem entry_cons_succ (head : Option object)
    (table : Descriptors object) (n : Nat) :
    entry (head :: table) (n + 1) = entry table n := rfl

theorem entry_lowestFree (table : Descriptors object) :
    entry table (lowestFree table) = none := by
  induction table with
  | nil =>
      rfl
  | cons head table ih =>
      cases head with
      | none =>
          rfl
      | some other =>
          exact ih

theorem entry_assign_self (new : object) (table : Descriptors object) :
    entry (assign new table) (lowestFree table) = some new := by
  induction table with
  | nil =>
      rfl
  | cons head table ih =>
      cases head with
      | none =>
          rfl
      | some other =>
          exact ih

theorem entry_assign_ne (new : object) {table : Descriptors object} {n : Nat}
    (h : n ≠ lowestFree table) : entry (assign new table) n = entry table n := by
  induction table generalizing n with
  | nil =>
      cases n with
      | zero =>
          exact absurd rfl h
      | succ n =>
          rfl
  | cons head table ih =>
      cases head with
      | none =>
          cases n with
          | zero =>
              exact absurd rfl h
          | succ n =>
              rfl
      | some other =>
          cases n with
          | zero =>
              rfl
          | succ n =>
              exact ih (fun heq => h (congrArg Nat.succ heq))

/-- A new object has the lowest number that was free, and all the others keep
theirs. -/
theorem entry_assign_eq_some {new found : object} {table : Descriptors object}
    {n : Nat} :
    entry (assign new table) n = some found <->
      (n = lowestFree table ∧ found = new) ∨ entry table n = some found := by
  by_cases hn : n = lowestFree table
  · subst hn
    rw [entry_assign_self, entry_lowestFree]
    simp [eq_comm]
  · rw [entry_assign_ne new hn]
    simp [hn]

theorem entry_close_self (table : Descriptors object) (n : Nat) :
    entry (close table n) n = none := by
  unfold entry close
  rw [List.getElem?_set_self']
  cases table[n]? <;> rfl

theorem entry_close_ne {table : Descriptors object} {m n : Nat} (h : n ≠ m) :
    entry (close table m) n = entry table n := by
  unfold entry close
  rw [List.getElem?_set_ne h.symm]

theorem entry_close_eq_some {found : object} {table : Descriptors object}
    {m n : Nat} :
    entry (close table m) n = some found <-> n ≠ m ∧ entry table n =
      some found := by
  by_cases hn : n = m
  · subst hn
    rw [entry_close_self]
    simp
  · rw [entry_close_ne hn]
    simp [hn]

end Descriptors
end Foundation
end Lepd
