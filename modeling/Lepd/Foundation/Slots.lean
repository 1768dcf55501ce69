import Mathlib.Data.List.Basic
import Mathlib.Data.List.Nodup

/-!
# Tables of slots

A table has a fixed number of slots. A slot has a key, which is blank before the
first use, and an item is stored in the slot that has its key or else in one
that is free.
-/

namespace Lepd
namespace Foundation
namespace Slots

variable {slot key : Type}

def changeFirst (p : slot -> Bool) (f : slot -> slot) :
    List slot -> Option (List slot)
  | [] => none
  | e :: rest =>
      if p e then some (f e :: rest)
      else (changeFirst p f rest).map (fun rest => e :: rest)

theorem changeFirst_eq_some {p : slot -> Bool} {f : slot -> slot}
    {table table' : List slot}
    (h : changeFirst p f table = some table') :
    exists front e back, table = front ++ e :: back ∧ table' = front ++ f e ::
      back ∧ p e = true := by
  induction table generalizing table' with
  | nil => cases h
  | cons x rest ih =>
      rw [changeFirst] at h
      split at h
      · next hx =>
          cases h
          exact ⟨[], x, rest, rfl, rfl, hx⟩
      · rcases Option.map_eq_some_iff.mp h with ⟨rest', hrest, rfl⟩
        rcases ih hrest with ⟨front, e, back, hfront, hfront', he⟩
        exact ⟨x :: front, e, back, by rw [hfront]; rfl, by rw [hfront']; rfl, he⟩

theorem changeFirst_eq_none {p : slot -> Bool} {f : slot -> slot}
    {table : List slot} :
    changeFirst p f table = none <-> forall e, e ∈ table -> p e = false := by
  induction table with
  | nil => exact ⟨fun _ e he => (nomatch he), fun _ => rfl⟩
  | cons x rest ih =>
      rw [changeFirst, List.forall_mem_cons]
      cases hx : p x with
      | true => exact ⟨fun h => (nomatch h), fun h => (nomatch h.left)⟩
      | false =>
          show (changeFirst p f rest).map _ = none <-> _
          rw [Option.map_eq_none_iff, ih]
          exact ⟨fun h => ⟨rfl, h⟩, And.right⟩

/-!
# Keys
-/

variable (keyOf : slot -> key) (blank : key)

/-- No two slots share a key, but for the blank one. -/
def Distinct (table : List slot) : Prop :=
  table.Pairwise (fun a b => keyOf a = keyOf b -> keyOf a = blank)

variable {keyOf blank} {front back table : List slot} {e e' : slot}

theorem distinct_middle : Distinct keyOf blank (front ++ e :: back) <->
    Distinct keyOf blank (front ++ back) ∧ forall a, a ∈ front ++ back ->
      keyOf a = keyOf e -> keyOf e = blank := by
  unfold Distinct
  have hmiddle : (front ++ e :: back).Perm (e :: (front ++ back)) :=
    List.perm_middle
  have hsymm : forall a b : slot, (keyOf a = keyOf b -> keyOf a = blank) ->
      keyOf b = keyOf a -> keyOf b = blank :=
    fun a b h heq => heq.trans (h heq.symm)
  rw [hmiddle.pairwise_iff (fun {a b} => hsymm a b), List.pairwise_cons, and_comm]
  constructor
  · intro h
    exact ⟨h.left, fun a ha heq => h.right a ha heq.symm⟩
  · intro h
    exact ⟨h.left, fun a ha heq => h.right a ha heq.symm⟩

theorem Distinct.change (h : Distinct keyOf blank (front ++ e :: back))
    (hkey : keyOf e' = keyOf e) :
    Distinct keyOf blank (front ++ e' :: back) := by
  rw [distinct_middle] at h ⊢
  rw [hkey]
  exact h

theorem Distinct.rekey (h : Distinct keyOf blank (front ++ e :: back))
    (hnew : forall a, a ∈ front ++ e :: back -> keyOf a ≠ keyOf e') :
    Distinct keyOf blank (front ++ e' :: back) := by
  rw [distinct_middle] at h ⊢
  refine ⟨h.left, ?_⟩
  intro a ha heq
  exact absurd heq
    (hnew a (List.perm_middle.mem_iff.mpr (List.mem_cons_of_mem e ha)))

theorem Distinct.map (h : Distinct keyOf blank table) {f : slot -> slot}
    (hf : forall a, keyOf (f a) = keyOf a) :
    Distinct keyOf blank (table.map f) := by
  unfold Distinct
  rw [List.pairwise_map]
  apply h.imp
  intro a b hab
  rw [hf a, hf b]
  exact hab

theorem Distinct.other (h : Distinct keyOf blank (front ++ e :: back))
    (hblank : keyOf e ≠ blank) {a : slot}
    (ha : a ∈ front ++ back) : keyOf a ≠ keyOf e :=
  fun heq => hblank ((distinct_middle.mp h).right a ha heq)

theorem Distinct.nodup_filter (h : Distinct keyOf blank table) {p : slot -> Bool}
    (hp : forall a, a ∈ table -> p a = true -> keyOf a ≠ blank) :
    ((table.filter p).map keyOf).Nodup := by
  unfold List.Nodup
  rw [List.pairwise_map, List.pairwise_filter]
  apply h.imp_of_mem
  intro a b ha _ hab hpa _ heq
  exact hp a ha hpa (hab heq)

theorem mem_changed {a : slot} : a ∈ front ++ e :: back <-> a = e ∨
    a ∈ front ++ back := by
  rw [List.perm_middle.mem_iff, List.mem_cons]

end Slots
end Foundation
end Lepd
