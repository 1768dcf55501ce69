import Mathlib.Data.List.Basic
import Mathlib.Data.List.Infix
import Mathlib.Data.List.Nodup
import Mathlib.Data.List.Perm.Subperm

/-!
# Forests

Members of a family name their parents. Those whose parents are no members are
the roots of trees, and the others are in a tree or descend from themselves.
-/

namespace Lepd
namespace Foundation

inductive RoseTree (item : Type) where
  | node (root : item) (children : List (RoseTree item))

namespace RoseTree

variable {item : Type}

def root : RoseTree item -> item
  | .node x _ => x

mutual

/-- The items of a tree, each one in front of those below it. -/
def items : RoseTree item -> List item
  | .node x ts => x :: itemsAll ts

def itemsAll : List (RoseTree item) -> List item
  | [] => []
  | t :: ts => t.items ++ itemsAll ts

end

mutual

def height : RoseTree item -> Nat
  | .node _ ts => heightAll ts + 1

def heightAll : List (RoseTree item) -> Nat
  | [] => 0
  | t :: ts => max t.height (heightAll ts)

end

@[elab_as_elim] theorem induct {motive : RoseTree item -> Prop}
    (node : forall x ts, (forall t, t ∈ ts -> motive t) ->
    motive (.node x ts)) : forall t, motive t
  | .node x ts => node x ts (fun t _ => induct node t)

theorem itemsAll_eq (ts : List (RoseTree item)) :
    itemsAll ts = ts.flatMap items := by
  induction ts with
  | nil => rfl
  | cons t ts ih =>
      unfold itemsAll
      rw [ih, List.flatMap_cons]

theorem items_node (x : item) (ts : List (RoseTree item)) :
    (RoseTree.node x ts).items = x :: ts.flatMap items := by
  unfold items
  rw [itemsAll_eq]

theorem heightAll_le {ts : List (RoseTree item)} {n : Nat}
    (h : forall t, t ∈ ts -> t.height <= n) : heightAll ts <= n := by
  induction ts with
  | nil => exact Nat.zero_le n
  | cons t ts ih =>
      unfold heightAll
      exact Nat.max_le.mpr ⟨h t List.mem_cons_self,
        ih (fun t' ht => h t' (List.mem_cons_of_mem t ht))⟩

theorem height_le_heightAll {ts : List (RoseTree item)} {t : RoseTree item}
    (h : t ∈ ts) : t.height <= heightAll ts := by
  induction ts with
  | nil => cases h
  | cons t' ts ih =>
      unfold heightAll
      rcases List.mem_cons.mp h with rfl | h
      · exact Nat.le_max_left _ _
      · exact Nat.le_trans (ih h) (Nat.le_max_right _ _)

end RoseTree

/-- Members with names of their own, and the names of their parents. -/
structure Family (item key : Type) where
  id : item -> key
  parent : item -> key
  members : List item
  distinct : (members.map id).Nodup

namespace Family

variable {item key : Type} [DecidableEq key] (family : Family item key)

def children (x : item) : List item :=
  family.members.filter (fun y => family.parent y = family.id x)

def IsRoot (x : item) : Prop :=
  x ∈ family.members ∧ forall y, y ∈ family.members -> family.id y ≠ family.parent x

/-- A member behind its child, and so on up to a root. -/
inductive Lineage : List item -> Prop where
  | root {x : item} : family.IsRoot x -> Lineage [x]
  | child {x y : item} {above : List item} :
      Lineage (x :: above) -> y ∈ family.children x -> Lineage (y :: x :: above)

/-- The chain of parents leads to a root. -/
def Rooted (x : item) : Prop :=
  exists above, family.Lineage (x :: above)

/-- Below each item of the tree are its children. -/
inductive Whole : RoseTree item -> Prop where
  | node {x : item} {ts : List (RoseTree item)} :
      ts.map RoseTree.root = family.children x ->
        (forall t, t ∈ ts -> Whole t) -> Whole (.node x ts)

variable {family}

omit [DecidableEq key] in
theorem eq_of_id {x y : item} (hx : x ∈ family.members)
    (hy : y ∈ family.members) (h : family.id x = family.id y) : x = y :=
  List.inj_on_of_nodup_map family.distinct hx hy h

theorem mem_children {x y : item} : y ∈ family.children x <->
    y ∈ family.members ∧ family.parent y = family.id x := by
  unfold children
  rw [List.mem_filter, decide_eq_true_iff]

variable (family) in
theorem children_nodup (x : item) : (family.children x).Nodup :=
  (List.Nodup.of_map _ family.distinct).filter _

/-!
# Lineages
-/

theorem Lineage.mem {x : item} {above : List item}
    (h : family.Lineage (x :: above)) : x ∈ family.members := by
  cases h with
  | root hroot => exact hroot.left
  | child _ hchild => exact (mem_children.mp hchild).left

theorem Lineage.tail {x y : item} {above : List item}
    (h : family.Lineage (y :: x :: above)) :
    family.Lineage (x :: above) ∧ y ∈ family.children x := by
  cases h with
  | child hx hchild => exact ⟨hx, hchild⟩

theorem Lineage.suffix (front : List item) {x : item} {above : List item}
    (h : family.Lineage (front ++ x :: above)) : family.Lineage (x :: above) := by
  induction front with
  | nil => exact h
  | cons y front ih =>
      apply ih
      cases front with
      | nil => exact h.tail.left
      | cons z front => exact h.tail.left

theorem Lineage.unique {above : List item} :
    forall {x : item} {above' : List item}, family.Lineage (x :: above) ->
    family.Lineage (x :: above') -> above = above' := by
  induction above with
  | nil =>
      intro x above' h h'
      cases h with
      | root hroot =>
          cases h' with
          | root => rfl
          | child hx hchild =>
              exact absurd (mem_children.mp hchild).right.symm
                (hroot.right _ hx.mem)
  | cons y above ih =>
      intro x above' h h'
      rcases h.tail with ⟨hy, hchild⟩
      cases h' with
      | root hroot =>
          exact absurd (mem_children.mp hchild).right.symm (hroot.right _ hy.mem)
      | child hy' hchild' =>
          have hid := (mem_children.mp hchild).right.symm.trans
            (mem_children.mp hchild').right
          cases eq_of_id hy.mem hy'.mem hid
          rw [ih hy hy']

theorem Lineage.not_mem {x : item} {above : List item}
    (h : family.Lineage (x :: above)) : x ∉ above := by
  intro hmem
  rcases List.append_of_mem hmem with ⟨front, rest, rfl⟩
  have hrest : family.Lineage (x :: rest) := Lineage.suffix (x :: front) h
  have hlength := congrArg List.length (h.unique hrest)
  rw [List.length_append, List.length_cons] at hlength
  omega

theorem Lineage.nodup {lineage : List item} (h : family.Lineage lineage) :
    lineage.Nodup := by
  induction h with
  | root _ => exact List.nodup_singleton _
  | child hx hchild ih =>
      exact List.nodup_cons.mpr ⟨(Lineage.child hx hchild).not_mem, ih⟩

theorem Lineage.subset {lineage : List item} (h : family.Lineage lineage) :
    lineage ⊆ family.members := by
  induction h with
  | root hroot => exact List.cons_subset.mpr ⟨hroot.left, List.nil_subset _⟩
  | child hx hchild ih =>
      exact List.cons_subset.mpr ⟨(mem_children.mp hchild).left, ih⟩

theorem Lineage.length_le {lineage : List item} (h : family.Lineage lineage) :
    lineage.length <= family.members.length :=
  (List.subperm_of_subset h.nodup h.subset).length_le

/-!
# Trees
-/

theorem Whole.children {x : item} {ts : List (RoseTree item)}
    (h : family.Whole (.node x ts)) :
    ts.map RoseTree.root = family.children x ∧ forall t, t ∈ ts ->
      family.Whole t := by
  cases h with
  | node hroots hall => exact ⟨hroots, hall⟩

theorem Whole.child_lineage {x : item} {ts : List (RoseTree item)}
    {above : List item} (h : family.Whole (.node x ts))
    (hx : family.Lineage (x :: above)) {t : RoseTree item} (ht : t ∈ ts) :
    family.Lineage (t.root :: x :: above) := by
  apply Lineage.child hx
  rw [← h.children.left]
  exact List.mem_map_of_mem ht

omit [DecidableEq key] in
theorem exists_trees {good : RoseTree item -> Prop} {xs : List item}
    (h : forall x, x ∈ xs -> exists t, t.root = x ∧ good t) :
    exists ts : List (RoseTree item), ts.map RoseTree.root = xs ∧ forall t,
      t ∈ ts -> good t := by
  induction xs with
  | nil => exact ⟨[], rfl, fun t ht => (nomatch ht)⟩
  | cons x xs ih =>
      rcases h x List.mem_cons_self with ⟨t, hroot, ht⟩
      rcases ih (fun y hy => h y (List.mem_cons_of_mem x hy)) with ⟨ts, hroots, hts⟩
      refine ⟨t :: ts, ?_, ?_⟩
      · rw [List.map_cons, hroot, hroots]
      · intro t' ht'
        rcases List.mem_cons.mp ht' with rfl | ht'
        · exact ht
        · exact hts t' ht'

/-- A member with a lineage has a tree, which has no more generations than there
are further members. -/
theorem exists_tree (n : Nat) : forall {x : item} {above : List item},
    family.Lineage (x :: above) ->
    family.members.length <= above.length + n ->
      exists t : RoseTree item, t.root = x ∧ family.Whole t ∧ t.height <= n := by
  induction n with
  | zero =>
      intro x above h hlength
      have hle := h.length_le
      rw [List.length_cons] at hle
      omega
  | succ n ih =>
      intro x above h hlength
      have hchildren : forall y, y ∈ family.children x ->
          exists t : RoseTree item, t.root = y ∧ family.Whole t ∧
            t.height <= n := by
        intro y hy
        apply ih (Lineage.child h hy)
        rw [List.length_cons]
        omega
      rcases exists_trees hchildren with ⟨ts, hroots, hts⟩
      refine ⟨.node x ts, rfl, .node hroots (fun t ht => (hts t ht).left), ?_⟩
      unfold RoseTree.height
      exact Nat.succ_le_succ (RoseTree.heightAll_le (fun t ht => (hts t ht).right))

theorem Whole.mem_items {t : RoseTree item} (h : family.Whole t) :
    forall {above : List item},
    family.Lineage (t.root :: above) -> forall y,
      (y ∈ t.items <-> exists front, family.Lineage (front ++ t.root :: above) ∧
        (front ++ t.root :: above).head? = some y) := by
  induction t using RoseTree.induct with
  | node x ts ih =>
      intro above hx y
      rw [RoseTree.items_node, List.mem_cons, List.mem_flatMap]
      constructor
      · intro hy
        rcases hy with rfl | ⟨t, ht, hy⟩
        · exact ⟨[], hx, rfl⟩
        · rcases (ih t ht (h.children.right t ht) (h.child_lineage hx ht) y).mp
            hy with ⟨front, hfront, hhead⟩
          refine ⟨front ++ [t.root], ?_, ?_⟩
          · rw [List.append_assoc]
            exact hfront
          · rw [List.append_assoc]
            exact hhead
      · rintro ⟨front, hfront, hhead⟩
        rcases List.eq_nil_or_concat' front with rfl | ⟨front, c, rfl⟩
        · cases hhead
          exact Or.inl rfl
        · rw [List.append_assoc] at hfront hhead
          have hc : c ∈ family.children x := (Lineage.suffix _ hfront).tail.right
          rw [← h.children.left] at hc
          rcases List.mem_map.mp hc with ⟨t, ht, rfl⟩
          refine Or.inr ⟨t, ht, ?_⟩
          exact (ih t ht (h.children.right t ht) (h.child_lineage hx ht) y).mpr
            ⟨front, hfront, hhead⟩

/-- Trees that have different roots at the same place have no items in common. -/
theorem disjoint_trees {t t' : RoseTree item} {above : List item}
    (h : family.Whole t) (h' : family.Whole t')
    (hroot : family.Lineage (t.root :: above))
    (hroot' : family.Lineage (t'.root :: above)) (hne : t.root ≠ t'.root) :
    List.Disjoint t.items t'.items := by
  intro y hy hy'
  rcases (h.mem_items hroot y).mp hy with ⟨front, hfront, hhead⟩
  rcases (h'.mem_items hroot' y).mp hy' with ⟨front', hfront', hhead'⟩
  have hsame : front ++ t.root :: above = front' ++ t'.root :: above := by
    rcases List.head?_eq_some_iff.mp hhead with ⟨rest, hrest⟩
    rcases List.head?_eq_some_iff.mp hhead' with ⟨rest', hrest'⟩
    rw [hrest] at hfront ⊢
    rw [hrest'] at hfront' ⊢
    rw [hfront.unique hfront']
  have htails := List.append_inj_right' hsame
    (by rw [List.length_cons, List.length_cons])
  exact hne (List.cons.inj htails).left

variable (family) in
theorem flatMap_nodup {ts : List (RoseTree item)} (above : List item)
    (hroots : (ts.map RoseTree.root).Nodup)
    (hall : forall t, t ∈ ts -> family.Whole t ∧
    family.Lineage (t.root :: above) ∧ t.items.Nodup) :
    (ts.flatMap RoseTree.items).Nodup := by
  rw [List.nodup_flatMap]
  refine ⟨fun t ht => (hall t ht).right.right, ?_⟩
  apply (List.pairwise_map.mp hroots).imp_of_mem
  intro t t' ht ht' hne
  exact disjoint_trees (hall t ht).left (hall t' ht').left
    (hall t ht).right.left (hall t' ht').right.left hne

theorem Whole.nodup {t : RoseTree item} (h : family.Whole t) :
    forall {above : List item},
    family.Lineage (t.root :: above) -> t.items.Nodup := by
  induction t using RoseTree.induct with
  | node x ts ih =>
      intro above hx
      rw [RoseTree.items_node, List.nodup_cons]
      constructor
      · intro hmem
        rcases List.mem_flatMap.mp hmem with ⟨t, ht, hxt⟩
        rcases ((h.children.right t ht).mem_items (h.child_lineage hx ht) x).mp
          hxt with ⟨front, hfront, hhead⟩
        rcases List.head?_eq_some_iff.mp hhead with ⟨rest, hrest⟩
        have hlength := congrArg List.length hrest
        rw [hrest] at hfront
        rw [← hx.unique hfront, List.length_append] at hlength
        simp only [List.length_cons] at hlength
        omega
      · apply flatMap_nodup family (x :: above)
        · rw [h.children.left]
          exact family.children_nodup x
        · intro t ht
          exact ⟨h.children.right t ht, h.child_lineage hx ht,
            ih t ht (h.children.right t ht) (h.child_lineage hx ht)⟩

/-!
# The whole family
-/

/-- The trees of the roots have each item that has a root once, and no other. -/
theorem forest_items {roots : List item} {ts : List (RoseTree item)}
    (hnodup : roots.Nodup)
    (hroots : forall x, x ∈ roots <-> family.IsRoot x)
    (hts : ts.map RoseTree.root = roots)
    (hwhole : forall t, t ∈ ts -> family.Whole t) :
    (ts.flatMap RoseTree.items).Nodup ∧ forall y,
    (y ∈ ts.flatMap RoseTree.items <-> family.Rooted y) := by
  have hlineage : forall t, t ∈ ts -> family.Lineage [t.root] := by
    intro t ht
    apply Lineage.root
    rw [← hroots, ← hts]
    exact List.mem_map_of_mem ht
  constructor
  · apply flatMap_nodup family []
    · rw [hts]
      exact hnodup
    · intro t ht
      exact ⟨hwhole t ht, hlineage t ht, (hwhole t ht).nodup (hlineage t ht)⟩
  · intro y
    rw [List.mem_flatMap]
    constructor
    · rintro ⟨t, ht, hy⟩
      rcases ((hwhole t ht).mem_items (hlineage t ht) y).mp hy with
        ⟨front, hfront, hhead⟩
      rcases List.head?_eq_some_iff.mp hhead with ⟨above, habove⟩
      rw [habove] at hfront
      exact ⟨above, hfront⟩
    · rintro ⟨above, habove⟩
      rcases List.eq_nil_or_concat' (y :: above) with hnil | ⟨front, x, hconcat⟩
      · cases hnil
      · rw [hconcat] at habove
        have hx : family.IsRoot x := by
          cases Lineage.suffix _ habove with
          | root hroot => exact hroot
        rw [← hroots, ← hts] at hx
        rcases List.mem_map.mp hx with ⟨t, ht, rfl⟩
        refine ⟨t, ht, ((hwhole t ht).mem_items (hlineage t ht) y).mpr
          ⟨front, habove, ?_⟩⟩
        rw [← hconcat]
        rfl

end Family
end Foundation
end Lepd
