import Mathlib.Data.List.Basic
import Mathlib.Data.List.Infix
import Mathlib.Data.List.TakeWhile

/-!
# Searching in strings

`strstr` on a string as it is, and on a block of memory, where it has no answer
unless a string ends in the block.
-/

namespace Lepd
namespace Foundation

variable {cell : Type} [DecidableEq cell]

def strstr (pattern : List cell) : List cell -> Option (List cell)
  | [] => if pattern = [] then some [] else none
  | c :: text =>
      if pattern <+: c :: text then some (c :: text) else strstr pattern text

theorem strstr_isSome_iff (pattern text : List cell) :
    (strstr pattern text).isSome = true <-> pattern <:+: text := by
  induction text with
  | nil =>
      rw [strstr, List.infix_nil]
      split
      · next h => exact ⟨fun _ => h, fun _ => rfl⟩
      · next h => exact ⟨fun hsome => (nomatch hsome), fun heq => absurd heq h⟩
  | cons c text ih =>
      rw [strstr, List.infix_cons_iff]
      split
      · next h => exact ⟨fun _ => Or.inl h, fun _ => rfl⟩
      · next h => exact ih.trans ⟨Or.inr, fun hor => hor.resolve_left h⟩

theorem strstr_singleton (c : cell) (text : List cell) :
    strstr [c] text = if c ∈ text then some (text.dropWhile (fun d => d ≠ c))
      else none := by
  induction text with
  | nil =>
      rw [strstr, if_neg (List.cons_ne_nil c []), if_neg List.not_mem_nil]
  | cons d text ih =>
      rw [strstr]
      by_cases hd : d = c
      · subst hd
        have hpair : [d] <+: d :: text := ⟨text, rfl⟩
        rw [if_pos hpair, if_pos List.mem_cons_self, List.dropWhile_cons_of_neg
          (by simp)]
      · have hpair : ¬ [c] <+: d :: text := by
          rw [List.cons_prefix_cons]
          exact fun h => hd h.left.symm
        have hmem : c ∈ d :: text <-> c ∈ text := by
          rw [List.mem_cons]
          exact ⟨fun h => h.resolve_left (Ne.symm hd), Or.inr⟩
        rw [if_neg hpair, ih, List.dropWhile_cons_of_pos (by simpa using hd)]
        simp only [hmem]

def strstrIndex (pattern : List cell) : List cell -> Option Nat
  | [] => if pattern = [] then some 0 else none
  | c :: text =>
      if pattern <+: c :: text then some 0
      else (strstrIndex pattern text).map (fun i => i + 1)

theorem strstrIndex_of_first {pattern front : List cell} :
    forall {text : List cell}, text ≠ [] -> pattern <+: text ->
      (forall i, i < front.length -> ¬ pattern <+: (front ++ text).drop i) ->
        strstrIndex pattern (front ++ text) = some front.length := by
  induction front with
  | nil =>
      intro text hne hpattern _
      cases text with
      | nil =>
          exact absurd rfl hne
      | cons c text =>
          exact if_pos hpattern
  | cons c front ih =>
      intro text hne hpattern hfirst
      have hrest := ih hne hpattern (fun i hi =>
        hfirst (i + 1) (Nat.succ_lt_succ hi))
      have hnone : ¬ pattern <+: c :: (front ++ text) := hfirst 0 (Nat.succ_pos _)
      rw [List.cons_append, strstrIndex, if_neg hnone, hrest]
      rfl

theorem strstrIndex_found {pattern text : List cell} :
    forall {i : Nat}, strstrIndex pattern text = some i ->
      i <= text.length ∧ pattern <+: text.drop i ∧
        forall j, j < i -> ¬ pattern <+: text.drop j := by
  induction text with
  | nil =>
      intro i h
      rw [strstrIndex] at h
      split at h
      · next hnil =>
          cases h
          exact ⟨Nat.le_refl 0, hnil ▸ List.nil_prefix, fun j hj => (nomatch hj)⟩
      · cases h
  | cons c text ih =>
      intro i h
      rw [strstrIndex] at h
      split at h
      · next hpattern =>
          cases h
          exact ⟨Nat.zero_le _, hpattern, fun j hj => (nomatch hj)⟩
      · next hnone =>
          rcases Option.map_eq_some_iff.mp h with ⟨k, hk, rfl⟩
          rcases ih hk with ⟨hle, hpattern, hfirst⟩
          refine ⟨Nat.succ_le_succ hle, hpattern, ?_⟩
          intro j hj
          cases j with
          | zero => exact hnone
          | succ j => exact hfirst j (Nat.lt_of_succ_lt_succ hj)

/-!
# Searching in memory
-/

def stringIn (null : cell) (mem : List cell) : Option (List cell) :=
  if null ∈ mem then some (mem.takeWhile (fun c => c ≠ null)) else none

section Memory

variable {null : cell} {pattern mem : List cell}

theorem stringIn_of_front {front rest : List cell} (hfront : null ∉ front)
    (hrest : null ∈ rest) :
    stringIn null (front ++ rest) =
      some (front ++ rest.takeWhile (fun c => c ≠ null)) := by
  have hplain : forall c, c ∈ front -> decide (c ≠ null) = true := by
    intro c hc
    exact decide_eq_true (fun heq => hfront (heq ▸ hc))
  rw [stringIn, if_pos (List.mem_append_right front hrest),
    List.takeWhile_append_of_pos hplain]

theorem stringIn_eq_some {text : List cell} (h : stringIn null mem = some text) :
    null ∈ mem ∧ text <+: mem ∧ null ∉ text := by
  unfold stringIn at h
  split at h
  · next hmem =>
      cases h
      refine ⟨hmem, List.takeWhile_prefix _, ?_⟩
      intro hnull
      have hne := List.mem_takeWhile_imp hnull
      simp at hne
  · cases h

omit [DecidableEq cell] in
/-- No place of the pattern starts in front and goes beyond the last cell there,
if that is none of the pattern's. -/
theorem not_found_in_front_iff {last : cell} {front rest : List cell}
    (hne : pattern ≠ []) (hlast : last ∉ pattern)
    (hfront : front = [] ∨ front.getLast? = some last) :
    (forall i, i < front.length -> ¬ pattern <+: (front ++ rest).drop i) <->
    ¬ pattern <:+: front := by
  constructor
  · intro h hwithin
    rcases hwithin with ⟨before, behind, heq⟩
    have hpos := List.length_pos_iff.mpr hne
    have hi : before.length < front.length := by
      rw [← heq, List.length_append, List.length_append]
      omega
    apply h before.length hi
    rw [← heq, List.append_assoc, List.append_assoc, List.drop_left]
    exact List.prefix_append _ _
  · intro h i hi hpattern
    rw [List.drop_append_of_le_length (Nat.le_of_lt hi)] at hpattern
    rcases List.prefix_or_prefix_of_prefix hpattern
      (List.prefix_append (front.drop i) rest) with hin | hover
    · exact h (hin.isInfix.trans (List.drop_suffix i front).isInfix)
    · have hmem : last ∈ front.drop i := by
        rcases hfront with hempty | hget
        · rw [hempty] at hi
          cases hi
        · apply List.mem_of_getLast?
          rw [List.getLast?_drop, if_neg (Nat.not_le.mpr hi), hget]
      exact hlast (hover.subset hmem)

end Memory

end Foundation
end Lepd
