import Lepd.Foundation.Forest
import Mathlib.Data.List.Perm.Basic
import Mathlib.Logic.Function.Basic

/-!
# Grafts

Trees are kept as the lists of the children of each item. Where a part of one of
these lists is replaced, what is below the old part leaves the tree, and what is
below the new part joins it.
-/

namespace Lepd
namespace Foundation
namespace RoseTree

variable {item : Type}

inductive Below (kids : item -> List item) : RoseTree item -> Prop where
  | node {x : item} {ts : List (RoseTree item)} :
      ts.map root = kids x -> (forall t, t ∈ ts -> Below kids t) ->
        Below kids (.node x ts)

inductive Part : RoseTree item -> RoseTree item -> Prop where
  | self {t : RoseTree item} : Part t t
  | child {x : item} {ts : List (RoseTree item)} {t u : RoseTree item} :
      t ∈ ts -> Part u t -> Part u (.node x ts)

variable {kids kids' : item -> List item}

theorem Below.children {x : item} {ts : List (RoseTree item)}
    (h : Below kids (.node x ts)) :
    ts.map root = kids x ∧ forall t, t ∈ ts -> Below kids t := by
  cases h with
  | node hroots hall => exact ⟨hroots, hall⟩

theorem root_mem_items (t : RoseTree item) : t.root ∈ t.items := by
  cases t with
  | node x ts =>
      rw [items_node]
      exact List.mem_cons_self

theorem items_subset {x : item} {ts : List (RoseTree item)} {t : RoseTree item}
    (ht : t ∈ ts) : t.items ⊆ (node x ts).items := by
  intro y hy
  rw [items_node]
  exact List.mem_cons_of_mem x (List.mem_flatMap.mpr ⟨t, ht, hy⟩)

theorem Part.items_subset {t u : RoseTree item} (h : Part u t) :
    u.items ⊆ t.items := by
  induction h with
  | self => exact List.Subset.refl _
  | child ht _ ih => exact List.Subset.trans ih (RoseTree.items_subset ht)

theorem Below.congr {t : RoseTree item} (h : Below kids t)
    (hsame : forall x, x ∈ t.items -> kids' x = kids x) :
    Below kids' t := by
  induction t using induct with
  | node x ts ih =>
      refine .node ?_ ?_
      · rw [h.children.left, hsame x (root_mem_items (.node x ts))]
      · intro t ht
        exact ih t ht (h.children.right t ht) (fun y hy =>
          hsame y (items_subset ht hy))

theorem Below.unique {t : RoseTree item} (h : Below kids t) :
    forall {t' : RoseTree item}, Below kids t' -> t.root = t'.root -> t = t' := by
  induction t using induct with
  | node x ts ih =>
      intro t' h' hroot
      cases t' with
      | node y ts' =>
          cases (show x = y from hroot)
          have hroots : ts.map root = ts'.map root :=
            h.children.left.trans h'.children.left.symm
          have heq : ts = ts' := by
            apply List.ext_getElem?
            intro i
            have hi := congrArg (fun l => l[i]?) hroots
            simp only [List.getElem?_map] at hi
            cases ht : ts[i]? with
            | none =>
                rw [ht] at hi
                cases ht' : ts'[i]? with
                | none => rfl
                | some t' =>
                    rw [ht'] at hi
                    cases hi
            | some t =>
                rw [ht] at hi
                cases ht' : ts'[i]? with
                | none =>
                    rw [ht'] at hi
                    cases hi
                | some t' =>
                    rw [ht'] at hi
                    have hmem := List.mem_of_getElem? ht
                    have hmem' := List.mem_of_getElem? ht'
                    rw [ih t hmem (h.children.right t hmem)
                      (h'.children.right t' hmem') (Option.some.inj hi)]
          rw [heq]

theorem Below.unique_all {ts ts' : List (RoseTree item)}
    (h : forall t, t ∈ ts -> Below kids t)
    (h' : forall t, t ∈ ts' -> Below kids t)
    (hroots : ts.map root = ts'.map root) : ts = ts' := by
  induction ts generalizing ts' with
  | nil => exact (List.map_eq_nil_iff.mp hroots.symm).symm
  | cons t ts ih =>
      cases ts' with
      | nil => cases hroots
      | cons t' ts' =>
          rcases List.cons.inj hroots with ⟨hroot, hroots⟩
          rw [(h t List.mem_cons_self).unique (h' t' List.mem_cons_self) hroot,
            ih (fun u hu => h u (List.mem_cons_of_mem t hu)) (fun u hu =>
              h' u (List.mem_cons_of_mem t' hu)) hroots]

/-- Trees with the same roots, above the same children, are the same trees. -/
theorem perm_of_roots {ts ts' : List (RoseTree item)}
    (h : forall t, t ∈ ts -> Below kids t)
    (h' : forall t, t ∈ ts' -> Below kids t)
    (hroots : (ts.map root).Perm (ts'.map root)) : ts.Perm ts' := by
  induction ts generalizing ts' with
  | nil =>
      rw [List.map_nil] at hroots
      rw [List.map_eq_nil_iff.mp hroots.symm.eq_nil]
  | cons t ts ih =>
      have hmem : t.root ∈ ts'.map root := hroots.mem_iff.mp List.mem_cons_self
      rcases List.mem_map.mp hmem with ⟨t', ht', hroot⟩
      have heq : t' = t := (h' t' ht').unique (h t List.mem_cons_self) hroot
      rcases List.append_of_mem ht' with ⟨front, back, rfl⟩
      rw [heq] at hroots ⊢
      have hrest : (ts.map root).Perm ((front ++ back).map root) := by
        rw [List.map_append, List.map_cons] at hroots
        rw [List.map_append]
        exact (List.perm_cons t.root).mp (hroots.trans List.perm_middle)
      have hperm := ih (fun u hu => h u (List.mem_cons_of_mem t hu))
        (fun u hu => h' u (by
        rcases List.mem_append.mp hu with hu | hu
        · exact List.mem_append_left _ hu
        · exact List.mem_append_right _ (List.mem_cons_of_mem _ hu))) hrest
      exact (hperm.cons t).trans List.perm_middle.symm

theorem items_perm_of {ts : List (RoseTree item)}
    (h : forall t, t ∈ ts -> t.items.Perm (t.root :: t.items.flatMap kids)) :
    (ts.flatMap items).Perm (ts.map root ++ (ts.flatMap items).flatMap kids) := by
  induction ts with
  | nil => exact List.Perm.refl []
  | cons t ts ih =>
      have ht := h t List.mem_cons_self
      have hts := ih (fun u hu => h u (List.mem_cons_of_mem t hu))
      rw [List.flatMap_cons, List.map_cons, List.flatMap_append]
      refine (ht.append hts).trans ?_
      rw [List.cons_append, List.cons_append]
      apply List.Perm.cons
      rw [← List.append_assoc, ← List.append_assoc]
      exact List.perm_append_comm.append_right _

theorem Below.items_perm {t : RoseTree item} (h : Below kids t) :
    t.items.Perm (t.root :: t.items.flatMap kids) := by
  induction t using induct with
  | node x ts ih =>
      rw [items_node, List.flatMap_cons, ← h.children.left]
      exact (items_perm_of (fun t ht => ih t ht (h.children.right t ht))).cons x

theorem items_perm_all {ts : List (RoseTree item)}
    (h : forall t, t ∈ ts -> Below kids t) :
    (ts.flatMap items).Perm (ts.map root ++ (ts.flatMap items).flatMap kids) :=
  items_perm_of (fun t ht => (h t ht).items_perm)

theorem Below.child {t : RoseTree item} (h : Below kids t) :
    forall {x c : item}, x ∈ t.items -> c ∈ kids x ->
    exists u, u.root = c ∧ Below kids u ∧ u.items ⊆ t.items := by
  induction t using induct with
  | node y ts ih =>
      intro x c hx hc
      rw [items_node, List.mem_cons, List.mem_flatMap] at hx
      rcases hx with rfl | ⟨t, ht, hx⟩
      · rw [← h.children.left] at hc
        rcases List.mem_map.mp hc with ⟨t, ht, hroot⟩
        exact ⟨t, hroot, h.children.right t ht, items_subset ht⟩
      · rcases ih t ht (h.children.right t ht) hx hc with ⟨u, hroot, hu, hsub⟩
        exact ⟨u, hroot, hu, fun z hz => items_subset ht (hsub hz)⟩

theorem Below.apart {t : RoseTree item} (h : Below kids t)
    (hnodup : t.items.Nodup) :
    forall {x c : item} {u : RoseTree item}, x ∈ t.items -> c ∈ kids x ->
      Below kids u -> u.root = c ->
      x ∉ u.items := by
  induction t using induct with
  | node y ts ih =>
      intro x c u hx hc hu hroot
      rw [items_node, List.nodup_cons] at hnodup
      rw [items_node, List.mem_cons, List.mem_flatMap] at hx
      rcases hx with rfl | ⟨t, ht, hx⟩
      · rw [← h.children.left] at hc
        rcases List.mem_map.mp hc with ⟨t, ht, htc⟩
        rw [hu.unique (h.children.right t ht) (hroot.trans htc.symm)]
        exact fun hxt => hnodup.left (List.mem_flatMap.mpr ⟨t, ht, hxt⟩)
      · exact ih t ht (h.children.right t ht)
          ((List.nodup_flatMap.mp hnodup.right).left t ht) hx hc hu hroot

/-!
# Another part of a list of children
-/

section Splice

variable [DecidableEq item] {a : item} {front back : List item}
  {old new : List (RoseTree item)}

theorem Below.update {t : RoseTree item} (h : Below kids t) (ha : a ∉ t.items)
    (l : List item) :
    Below (Function.update kids a l) t := by
  apply h.congr
  intro x hx
  apply Function.update_of_ne
  intro heq
  exact ha (heq ▸ hx)

/-- The trees below one part leave, and the trees below the other part join. -/
theorem splice (hkids : kids a = front ++ (old.map root ++ back))
    (hold : forall m, m ∈ old -> Below kids m)
    (hnew : forall n, n ∈ new -> Below kids n ∧ a ∉ n.items) {t : RoseTree item}
    (h : Below kids t) (hnodup : t.items.Nodup)
    (ha : a ∈ t.items) :
    exists t', t'.root = t.root ∧
      Below (Function.update kids a (front ++ (new.map root ++ back))) t' ∧
      a ∈ t'.items ∧
      (t.items ++ new.flatMap items).Perm (t'.items ++ old.flatMap items) := by
  induction t using induct with
  | node x ts ih =>
      rw [items_node, List.nodup_cons] at hnodup
      have hroots := h.children.left
      by_cases hx : a = x
      · subst hx
        -- The list is that of the root.
        rw [hkids] at hroots
        rcases List.map_eq_append_iff.mp hroots with ⟨fs, rest, rfl, hfs, hrest⟩
        rcases List.map_eq_append_iff.mp hrest with ⟨ms, bs, rfl, hms, hbs⟩
        have hsame : ms = old :=
          Below.unique_all (fun m hm =>
            h.children.right m (List.mem_append_right _
            (List.mem_append_left _ hm))) hold hms
        subst hsame
        refine ⟨.node a (fs ++ (new ++ bs)), rfl, .node ?_ ?_, root_mem_items _, ?_⟩
        · rw [Function.update_self, List.map_append, List.map_append, hfs, hbs]
        · intro t ht
          have hkept : t ∈ fs ++ (ms ++ bs) ->
              Below (Function.update kids a (front ++ (new.map root ++ back)))
              t := by
            intro ht
            exact (h.children.right t ht).update (fun hat =>
              hnodup.left (List.mem_flatMap.mpr ⟨t, ht, hat⟩)) _
          rcases List.mem_append.mp ht with ht | ht
          · exact hkept (List.mem_append_left _ ht)
          · rcases List.mem_append.mp ht with ht | ht
            · exact (hnew t ht).left.update (hnew t ht).right _
            · exact hkept (List.mem_append_right _ (List.mem_append_right _ ht))
        · rw [List.perm_iff_count]
          intro y
          simp only [items_node, List.count_append, List.flatMap_append,
            List.count_cons]
          omega
      · rw [items_node, List.mem_cons, List.mem_flatMap] at ha
        rcases ha with heq | ⟨t, ht, hat⟩
        · exact absurd heq hx
        · rcases List.append_of_mem ht with ⟨fs, bs, rfl⟩
          have hflat := hnodup.right
          rw [List.flatMap_append, List.flatMap_cons] at hflat
          have hflat' := List.nodup_append.mp
            (List.nodup_append.mp hflat).right.left
          rcases ih t ht (h.children.right t ht) hflat'.left hat with
            ⟨t', hroot, ht', hat', hperm⟩
          refine ⟨.node x (fs ++ t' :: bs), rfl, .node ?_ ?_,
            items_subset (List.mem_append_right fs List.mem_cons_self) hat', ?_⟩
          · rw [Function.update_of_ne (Ne.symm hx), ← hroots, List.map_append,
              List.map_append, List.map_cons,
              List.map_cons, hroot]
          · intro u hu
            rcases List.mem_append.mp hu with hu | hu
            · apply (h.children.right u (List.mem_append_left _ hu)).update
              intro hau
              exact (List.nodup_append.mp hflat).right.right a
                (List.mem_flatMap.mpr ⟨u, hu, hau⟩) a
                (List.mem_append_left _ hat) rfl
            · rcases List.mem_cons.mp hu with rfl | hu
              · exact ht'
              · apply (h.children.right u
                  (List.mem_append_right _ (List.mem_cons_of_mem t hu))).update
                intro hau
                exact hflat'.right.right a hat a
                  (List.mem_flatMap.mpr ⟨u, hu, hau⟩) rfl
          · rw [List.perm_iff_count] at hperm ⊢
            intro y
            have hy := hperm y
            simp only [items_node, List.count_append, List.flatMap_append,
              List.flatMap_cons, List.count_cons] at hy ⊢
            omega

end Splice

end RoseTree
end Foundation
end Lepd
