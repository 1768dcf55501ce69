import Lepd.CJson.HeapItems

/-!
# Trees in memory

Memory holds trees of records. Here is what the functions that create items, put
them in objects and give them back do to these trees, and to the items that they
show.
-/

namespace Lepd
namespace CJson
namespace Heap

open Foundation
open Foundation.Program (Agrees Stable Gives)

variable {double : Type} {mem mem' : Memory double} {f f' : Forest} {a c p q x :
  Nat} {fuel : Nat}
  {t u : RoseTree Nat} {ts us rest : List (RoseTree Nat)}

/-- Memory holds these trees and nothing else. -/
def Trees (mem : Memory double) (ts : List (RoseTree Nat)) : Prop :=
  exists f, Represents mem f ∧ f.trees.Perm ts

/-- The items of the trees say what they have said. -/
def SameValues (mem mem' : Memory double) (ts : List (RoseTree Nat)) : Prop :=
  forall t b, t ∈ ts -> b ∈ t.items -> valuesOf mem' b = valuesOf mem b

theorem Trees.perm (h : Trees mem ts) (hperm : ts.Perm us) : Trees mem us := by
  rcases h with ⟨f, hrep, hts⟩
  exact ⟨f, hrep, hts.trans hperm⟩

theorem SameValues.refl (mem : Memory double) (ts : List (RoseTree Nat)) :
    SameValues mem mem ts :=
  fun _ _ _ _ => rfl

theorem SameValues.trans {mem'' : Memory double} (h : SameValues mem mem' ts)
    (h' : SameValues mem' mem'' ts) :
    SameValues mem mem'' ts :=
  fun t b ht hb => (h' t b ht hb).trans (h t b ht hb)

theorem SameValues.sub (h : SameValues mem mem' ts) (hsub : us ⊆ ts) :
    SameValues mem mem' us :=
  fun t b ht hb => h t b (hsub ht) hb

theorem shownAll_congr (h : forall t, t ∈ ts -> shown mem' t = shown mem t) :
    shownAll mem' ts = shownAll mem ts := by
  induction ts with
  | nil => rfl
  | cons t ts ih =>
      unfold shownAll
      rw [h t List.mem_cons_self, ih (fun u hu => h u (List.mem_cons_of_mem t hu))]

theorem shown_congr (h : forall b, b ∈ t.items -> valuesOf mem' b =
    valuesOf mem b) : shown mem' t = shown mem t := by
  induction t using RoseTree.induct with
  | node p us ih =>
      have hbelow : shownAll mem' us = shownAll mem us :=
        shownAll_congr (fun u hu => ih u hu (fun b hb =>
          h b (RoseTree.items_subset hu hb)))
      unfold shown
      rw [h p (RoseTree.root_mem_items (.node p us)), hbelow]

theorem SameValues.shown (h : SameValues mem mem' ts) (ht : t ∈ ts) :
    shown mem' t = shown mem t :=
  shown_congr (fun b hb => h t b ht hb)

/-!
# The trees of a forest
-/

theorem nodes_perm_of (h : f.trees.Perm ts) :
    f.nodes.Perm (ts.flatMap RoseTree.items) :=
  h.flatMap_right RoseTree.items

theorem roots_perm_of (h : f.trees.Perm ts) : f.roots.Perm (ts.map RoseTree.root) :=
  h.map RoseTree.root

theorem below_of (h : f.trees.Perm ts) (ht : t ∈ ts) : RoseTree.Below f.kids t :=
  f.below t (h.mem_iff.mpr ht)

theorem mem_nodes_of (h : f.trees.Perm ts) (ht : t ∈ ts) (hb : p ∈ t.items) :
    p ∈ f.nodes :=
  (nodes_perm_of h).mem_iff.mpr (List.mem_flatMap.mpr ⟨t, ht, hb⟩)

theorem items_nodup (h : f.trees.Perm ts) : (ts.flatMap RoseTree.items).Nodup :=
  (nodes_perm_of h).nodup_iff.mp f.nodup

/-- Forests with the same roots and the same children have the same trees. -/
theorem trees_perm_of (hbelow : forall t, t ∈ ts -> RoseTree.Below f.kids t)
    (hroots : f.roots.Perm (ts.map RoseTree.root)) :
    f.trees.Perm ts :=
  RoseTree.perm_of_roots f.below hbelow hroots

theorem created_trees (h : Represents mem f)
    (hts : f.trees.Perm ts) (hp : mem p = none) (h' : Represents mem' f')
    (hbecomes : Becomes mem mem' f' (Function.update f.kids p []) (p :: f.roots)
    (p :: f.nodes) (some p)) :
    Trees mem' (.node p [] :: ts) ∧ SameValues mem mem' ts := by
  have hnew : forall t, t ∈ ts -> p ∉ t.items := by
    intro t ht hpt
    have hused := h.held.used p (mem_blocksAll (mem_nodes_of hts ht hpt))
    rw [hp] at hused
    cases hused
  constructor
  · refine ⟨f', h', trees_perm_of ?_
      (hbecomes.roots.trans ((roots_perm_of hts).cons p))⟩
    intro t ht
    rw [hbecomes.kids]
    rcases List.mem_cons.mp ht with rfl | ht
    · refine .node ?_ (fun u hu => absurd hu List.not_mem_nil)
      rw [Function.update_self]
      rfl
    · apply (below_of hts ht).congr
      intro b hb
      have hne : b ≠ p := fun heq => hnew t ht (heq ▸ hb)
      exact Function.update_of_ne hne _ _
  · intro t b ht hb
    have hne : b ≠ p := fun heq => hnew t ht (heq ▸ hb)
    exact hbecomes.values b (hbecomes.nodes.mem_iff.mpr
      (List.mem_cons_of_mem p (mem_nodes_of hts ht hb)))
      (fun heq => hne (Option.some.inj heq).symm)

theorem added_trees (hts : f.trees.Perm (.node a us :: t :: rest))
    (h' : Represents mem' f')
    (hbecomes :
    Becomes mem mem' f' (Function.update f.kids a (f.kids a ++ [t.root]))
    (f.roots.erase t.root) f.nodes
      (some t.root)) : Trees mem' (.node a (us ++ [t]) :: rest) := by
  have hnodup := items_nodup hts
  rw [List.flatMap_cons, RoseTree.items_node, List.flatMap_cons] at hnodup
  have hapart : forall b, b ∈ us.flatMap RoseTree.items ∨ b ∈ t.items ∨
      b ∈ rest.flatMap RoseTree.items -> b ≠ a := by
    intro b hb heq
    apply (List.nodup_cons.mp hnodup).left
    rw [← heq]
    rcases hb with hb | hb | hb
    · exact List.mem_append_left _ hb
    · exact List.mem_append_right _ (List.mem_append_left _ hb)
    · exact List.mem_append_right _ (List.mem_append_right _ hb)
  have hkids : forall b, b ≠ a -> f'.kids b = f.kids b := by
    intro b hb
    rw [hbecomes.kids]
    exact Function.update_of_ne hb _ _
  have hfirst := (below_of hts List.mem_cons_self).children
  have ht : RoseTree.Below f'.kids t :=
    (below_of hts (List.mem_cons_of_mem _ List.mem_cons_self)).congr
      (fun b hb => hkids b (hapart b (Or.inr (Or.inl hb))))
  refine ⟨f', h', trees_perm_of ?_ ?_⟩
  · intro v hv
    rcases List.mem_cons.mp hv with rfl | hv
    · refine .node ?_ ?_
      · rw [List.map_append, hfirst.left, hbecomes.kids, Function.update_self]
        rfl
      · intro v hv
        rcases List.mem_append.mp hv with hv | hv
        · exact (hfirst.right v hv).congr
            (fun b hb =>
              hkids b (hapart b (Or.inl (List.mem_flatMap.mpr ⟨v, hv, hb⟩))))
        · rw [List.mem_singleton.mp hv]
          exact ht
    · exact (below_of hts (List.mem_cons_of_mem _
        (List.mem_cons_of_mem _ hv))).congr
        (fun b hb =>
          hkids b (hapart b (Or.inr (Or.inr (List.mem_flatMap.mpr ⟨v, hv, hb⟩)))))
  · have herase := (roots_perm_of hts).erase t.root
    have hne : a ≠ t.root := fun heq =>
      hapart t.root (Or.inr (Or.inl (RoseTree.root_mem_items t))) heq.symm
    have hroots : ((RoseTree.node a us :: t :: rest).map RoseTree.root).erase
        t.root = a :: rest.map RoseTree.root := by
      show (a :: t.root :: rest.map RoseTree.root).erase t.root = _
      rw [List.erase_cons_tail (fun heq => hne (beq_iff_eq.mp heq)),
        List.erase_cons_head]
    rw [hroots] at herase
    exact hbecomes.roots.trans herase

/-!
# Allocation
-/

/-- `malloc`: a null pointer, or a block that is not in use. -/
structure Allocator (double : Type) where
  answer : Memory double -> Option Nat
  fresh : forall mem p, answer mem = some p -> mem p = none

def Bounded (mem : Memory double) : Prop :=
  exists n, forall p, n <= p -> mem p = none

namespace Allocator

variable (alloc : Allocator double)

def Generous : Prop :=
  forall mem, Bounded mem -> exists p, alloc.answer mem = some p

def after {value : Type} (routine : Routine double value) :
    Routine double (Option Nat) :=
  fun mem => (routine mem).map (fun r => (alloc.answer r.2, mem))

section Create

variable [CDouble double]

def cJSONCreateObject : Routine double (Option Nat) := do
  let answer <- alloc.after (pure ())
  Heap.cJSONCreateObject answer

def cJSONCreateNumber (num : double) : Routine double (Option Nat) := do
  let answer <- alloc.after (pure ())
  Heap.cJSONCreateNumber num answer

/-- A null pointer has no text to copy. -/
def cJSONCreateString (string : Option (List UInt8)) :
    Routine double (Option Nat) :=
  match string with
  | none => StateT.lift none
  | some string => do
      let answer <- alloc.after (pure ())
      let answer' <- alloc.after (newItem cJSONString answer)
      Heap.cJSONCreateString string answer answer'

end Create

/-- An item that is a null pointer is not added; an object that is one has no
children. -/
def cJSONAddItemToObject (fuel : Nat) (object : Option Nat)
    (string : List UInt8) (item : Option Nat) :
    Routine double Unit :=
  match item with
  | none => pure ()
  | some x =>
      match object with
      | none => StateT.lift none
      | some a => do
          let r <- readItem x
          let answer <- alloc.after (freeAll r.string)
          Heap.cJSONAddItemToObject fuel a (.own string) (some x) answer

theorem cJSONAddItemToObject_stable (object : Option Nat) (string : List UInt8)
    (item : Option Nat) :
    Stable (fun fuel => alloc.cJSONAddItemToObject fuel object string item) := by
  intro fuel
  cases item with
  | none => exact Agrees.refl _
  | some x =>
      cases object with
      | none => exact Agrees.refl _
      | some a =>
          apply (Agrees.refl (readItem x)).bind
          intro r
          apply (Agrees.refl (alloc.after (freeAll r.string))).bind
          intro answer
          exact Heap.cJSONAddItemToObject_stable a (.own string)
            (some x) answer fuel

theorem after_pure {value : Type} (v : value) :
    alloc.after (pure v) mem = some (alloc.answer mem, mem) := rfl

theorem after_apply {value : Type} {routine : Routine double value} {v : value}
    (h : routine mem = some (v, mem')) :
    alloc.after routine mem = some (alloc.answer mem', mem) := by
  unfold after
  rw [h]
  rfl

end Allocator

theorem bounded_of_list {l : List Nat} (h : forall p, (mem p).isSome -> p ∈ l) :
    Bounded mem := by
  have hbound : exists n, forall p, p ∈ l -> p < n := by
    clear h
    induction l with
    | nil => exact ⟨0, fun _ hp => nomatch hp⟩
    | cons x l ih =>
        rcases ih with ⟨n, hn⟩
        refine ⟨max n (x + 1), ?_⟩
        intro p hp
        rcases List.mem_cons.mp hp with rfl | hp
        · exact Nat.lt_of_lt_of_le (Nat.lt_succ_self p) (Nat.le_max_right n (p + 1))
        · exact Nat.lt_of_lt_of_le (hn p hp) (Nat.le_max_left n (x + 1))
  rcases hbound with ⟨n, hn⟩
  refine ⟨n, ?_⟩
  intro p hp
  cases hused : mem p with
  | none => rfl
  | some cell => exact absurd (hn p (h p (hused ▸ rfl))) (Nat.not_lt.mpr hp)

theorem Trees.bounded (h : Trees mem ts) : Bounded mem := by
  rcases h with ⟨f, hrep, _⟩
  exact bounded_of_list hrep.all

theorem Bounded.without (h : Bounded mem) (ps : List Nat) :
    Bounded (without mem ps) := by
  rcases h with ⟨n, hn⟩
  refine ⟨n, ?_⟩
  intro p hp
  unfold Heap.without
  split
  · rfl
  · exact hn p hp

theorem Bounded.update (h : Bounded mem) (p : Nat) (cell : Cell double) :
    Bounded (Function.update mem p (some cell)) := by
  rcases h with ⟨n, hn⟩
  refine ⟨max n (p + 1), ?_⟩
  intro q hq
  rw [Function.update_of_ne
    (Nat.ne_of_gt
    (Nat.lt_of_succ_le (Nat.le_trans (Nat.le_max_right n (p + 1)) hq)))]
  exact hn q (Nat.le_trans (Nat.le_max_left n (p + 1)) hq)

/-!
# What is done to the trees
-/

section Operations

variable {alloc : Allocator double}

theorem shown_single {type : Nat} {valueint : Int} {valuedouble : double}
    {valuestring : Option (List UInt8)} {item : Item double}
    (hvalues : valuesOf mem p = some (type, valueint, valuedouble, valuestring,
    none))
    (hitem : itemOf type valueint valuedouble valuestring [] = some item) :
    shown mem (.node p []) = some (none, item) :=
  shown_eq hvalues rfl hitem

theorem malloc_apply (hp : mem p = none) (cell : Cell double) :
    malloc (some p) cell mem = some (some p,
      Function.update mem p (some cell)) := by
  show (if (mem p).isSome then none else _) = _
  rw [hp]
  rfl

section Create

variable [CDouble double]

theorem createObject_trees (hgenerous : alloc.Generous) (h : Trees mem ts) :
    exists p mem', alloc.cJSONCreateObject mem = some (some p, mem') ∧
      Trees mem' (.node p [] :: ts) ∧
      shown mem' (.node p []) = some (none, .object []) ∧
        SameValues mem mem' ts := by
  rcases hgenerous mem h.bounded with ⟨p, hanswer⟩
  have hp := alloc.fresh mem p hanswer
  rcases h with ⟨f, hrep, hts⟩
  rcases newItem_created hrep (show cJSONObject &&& cJSONIsReference =
    0 from rfl) hp with ⟨mem', f', hrun, hrep', hbecomes, hvalues⟩
  rcases created_trees hrep hts hp hrep' hbecomes with ⟨htrees, hsame⟩
  refine ⟨p, mem', ?_, htrees, shown_single hvalues rfl, hsame⟩
  unfold Allocator.cJSONCreateObject
  rw [Program.bind_apply, alloc.after_pure, hanswer]
  exact hrun

theorem createNumber_trees (hgenerous : alloc.Generous) (h : Trees mem ts)
    (num : double) :
    exists p mem', alloc.cJSONCreateNumber num mem = some (some p, mem') ∧
      Trees mem' (.node p [] :: ts) ∧
      shown mem' (.node p []) = some (none, JsonRpc.cJSONCreateNumber num) ∧
        SameValues mem mem' ts := by
  rcases hgenerous mem h.bounded with ⟨p, hanswer⟩
  have hp := alloc.fresh mem p hanswer
  rcases h with ⟨f, hrep, hts⟩
  rcases createNumber_represents hrep num hp with
    ⟨mem', f', hrun, hrep', hbecomes, hvalues⟩
  rcases created_trees hrep hts hp hrep' hbecomes with ⟨htrees, hsame⟩
  refine ⟨p, mem', ?_, htrees, shown_single hvalues rfl, hsame⟩
  unfold Allocator.cJSONCreateNumber
  rw [Program.bind_apply, alloc.after_pure, hanswer]
  exact hrun

theorem createString_trees (hgenerous : alloc.Generous) (h : Trees mem ts)
    (string : List UInt8) :
    exists p mem', alloc.cJSONCreateString (some string) mem =
      some (some p, mem') ∧ Trees mem' (.node p [] :: ts) ∧
      shown mem' (.node p []) = some (none, .string string) ∧
        SameValues mem mem' ts := by
  rcases hgenerous mem h.bounded with ⟨p, hanswer⟩
  have hp := alloc.fresh mem p hanswer
  have hnew : exists cell, newItem cJSONString (some p) mem =
      some (some p, Function.update mem p (some cell)) := by
    exact ⟨_, malloc_apply hp _⟩
  rcases hnew with ⟨cell, hnew⟩
  rcases hgenerous _ (h.bounded.update p cell) with ⟨q, hanswer'⟩
  have hq := alloc.fresh _ q hanswer'
  have hne : q ≠ p := by
    intro heq
    rw [heq, Function.update_self] at hq
    cases hq
  rw [Function.update_of_ne hne] at hq
  rcases h with ⟨f, hrep, hts⟩
  have hfresh : forall q', some q = some q' -> mem q' = none ∧ q' ≠ p := by
    intro q' heq
    cases heq
    exact ⟨hq, hne⟩
  rcases createString_represents hrep string hp hfresh with
    ⟨mem', f', hrun, hrep', hbecomes, hvalues⟩
  rcases created_trees hrep hts hp hrep' hbecomes with ⟨htrees, hsame⟩
  refine ⟨p, mem', ?_, htrees, shown_single hvalues rfl, hsame⟩
  unfold Allocator.cJSONCreateString
  show (alloc.after (pure ()) >>= _) mem = _
  rw [Program.bind_apply, alloc.after_pure, hanswer]
  show (alloc.after (newItem cJSONString (some p)) >>= _) mem = _
  rw [Program.bind_apply, alloc.after_apply hnew, hanswer']
  exact hrun

end Create

theorem added_shown {members : List (List UInt8 × Item double)}
    {name name' : Option (List UInt8)} {item : Item double}
    {string : List UInt8}
    (hnodup : ((RoseTree.node a us :: t :: rest).flatMap RoseTree.items).Nodup)
    (hobject : shown mem (.node a us) = some (name, .object members))
    (hitem : shown mem t = some (name', item))
    (hsame : forall b, b ∈ (RoseTree.node a us :: t :: rest).flatMap
    RoseTree.items -> b ≠ t.root ->
      valuesOf mem' b = valuesOf mem b)
    (hnamed : valuesOf mem' t.root = (valuesOf mem t.root).map
    (withName (some string))) :
    shown mem' (.node a (us ++ [t])) =
      some (name, .object (members ++ [(string, item)])) ∧
      SameValues mem mem' rest := by
  have hitems : (RoseTree.node a us :: t :: rest).flatMap RoseTree.items =
      (RoseTree.node a us).items ++ (t.items ++ rest.flatMap RoseTree.items) := by
    rw [List.flatMap_cons, List.flatMap_cons]
  rw [hitems] at hnodup hsame
  rcases List.nodup_append.mp hnodup with ⟨_, hrest, hapart⟩
  have hapart' := (List.nodup_append.mp hrest).right.right
  have hroot := RoseTree.root_mem_items t
  -- The object says what it has said, and so do its children.
  have hfirst : forall b, b ∈ (RoseTree.node a us).items -> valuesOf mem' b =
      valuesOf mem b := by
    intro b hb
    exact hsame b (List.mem_append_left _ hb)
      (hapart b hb t.root (List.mem_append_left _ hroot))
  rcases shown_object hobject with ⟨valueint, valuedouble, valuestring, hvalues,
    hchildren⟩
  rw [← hfirst a (RoseTree.root_mem_items (.node a us))] at hvalues
  have hsameUs : shownAll mem' us = shownAll mem us :=
    shownAll_congr (fun u hu => shown_congr (fun b hb =>
      hfirst b (RoseTree.items_subset hu hb)))
  have hnew : shown mem' t = some (some string, item) := by
    cases t with
    | node x vs =>
        have hvs : forall v b, v ∈ vs -> b ∈ v.items -> valuesOf mem' b =
            valuesOf mem b := by
          intro v b hv hb
          have hmem : b ∈ vs.flatMap RoseTree.items :=
            List.mem_flatMap.mpr ⟨v, hv, hb⟩
          have hnodupT := (List.nodup_append.mp hrest).left
          rw [RoseTree.items_node] at hnodupT
          apply hsame b (List.mem_append_right _
            (List.mem_append_left _ (RoseTree.items_subset hv hb)))
          have hne : b ≠ x := fun heq =>
            (List.nodup_cons.mp hnodupT).left (heq ▸ hmem)
          exact hne
        rcases shown_node hitem with
          ⟨type, vint, vdouble, vstring, children, hv, hc, hi⟩
        have hnamed' : valuesOf mem' x =
            some (type, vint, vdouble, vstring, some string) := by
          refine hnamed.trans ?_
          show (valuesOf mem x).map _ = _
          rw [hv]
          rfl
        have hc' : shownAll mem' vs = some children := by
          rw [← hc]
          exact shownAll_congr (fun v hv => shown_congr (fun b hb => hvs v b hv hb))
        exact shown_eq hnamed' hc' hi
  constructor
  · have hall : shownAll mem' (us ++ [t]) =
        some ((members ++ [(string, item)]).map (fun m => (some m.1, m.2))) := by
      rw [List.map_append]
      apply shownAll_append (hsameUs.trans hchildren)
      unfold shownAll
      rw [hnew]
      rfl
    exact shown_of_object hvalues hall
  · intro v b hv hb
    have hmem : b ∈ rest.flatMap RoseTree.items := List.mem_flatMap.mpr ⟨v, hv, hb⟩
    apply hsame b (List.mem_append_right _ (List.mem_append_right _ hmem))
    exact fun heq => hapart' t.root hroot b hmem heq.symm

theorem addItemToObject_trees {members : List (List UInt8 × Item double)}
    {name name' : Option (List UInt8)} {item : Item double}
    (hgenerous : alloc.Generous) (h : Trees mem (.node a us :: t :: rest))
    (hobject : shown mem (.node a us) = some (name, .object members))
    (hitem : shown mem t = some (name', item))
    (string : List UInt8) :
    exists mem', Gives (fun fuel => alloc.cJSONAddItemToObject fuel
      (some a) string (some t.root)) mem () mem' ∧
      Trees mem' (.node a (us ++ [t]) :: rest) ∧
      shown mem' (.node a (us ++ [t])) =
        some (name, .object (members ++ [(string, item)])) ∧
        SameValues mem mem' rest := by
  have hbounded := h.bounded
  rcases h with ⟨f, hrep, hts⟩
  have ha : a ∈ f.nodes := mem_nodes_of hts List.mem_cons_self
    (RoseTree.root_mem_items (.node a us))
  have ht : t ∈ RoseTree.node a us :: t :: rest :=
    List.mem_cons_of_mem _ List.mem_cons_self
  have hx : t.root ∈ f.nodes := mem_nodes_of hts ht (RoseTree.root_mem_items t)
  have hnodup := items_nodup hts
  have hmovable : Movable f a t.root := by
    refine ⟨t, hts.mem_iff.mpr ht, rfl, ?_⟩
    intro hat
    rw [List.flatMap_cons, RoseTree.items_node, List.flatMap_cons] at hnodup
    exact (List.nodup_cons.mp hnodup).left
      (List.mem_append_right _ (List.mem_append_left _ hat))
  rcases recordAt_of_child (hrep.held.first t.root hx) with ⟨r, hr, _⟩
  have hname : nameOf mem t.root = r.string.toList := by
    unfold nameOf
    rw [hr]
  have hfree : freeAll r.string mem = some ((), without mem r.string.toList) := by
    apply freeAll_apply
    intro q hq
    apply isSome_of_text
    apply hrep.texts t.root q hx
    rw [strings_record hr]
    exact List.mem_append_right _ hq
  rcases hgenerous _ (hbounded.without r.string.toList) with ⟨q, hanswer⟩
  have hfresh : forall q', some q = some q' ->
      without mem (nameOf mem t.root) q' = none := by
    intro q' heq
    cases heq
    rw [hname]
    exact alloc.fresh _ q hanswer
  have hstring : (CString.own string).text (without mem (nameOf mem t.root)) =
      some string := rfl
  rcases addItemToObject_does hrep ha hmovable (Nat.le_refl _) hstring
    hfresh with ⟨mem', f', hrun, hrep', hbecomes, hnamed⟩
  have hkept : forall b, b ∈ (RoseTree.node a us :: t :: rest).flatMap
      RoseTree.items -> b ≠ t.root ->
      valuesOf mem' b = valuesOf mem b := by
    intro b hb hne
    have hb' : b ∈ f.nodes := (nodes_perm_of hts).mem_iff.mpr hb
    exact hbecomes.values b (hbecomes.nodes.mem_iff.mpr hb') (fun heq =>
      hne (Option.some.inj heq).symm)
  rcases added_shown hnodup hobject hitem hkept hnamed with ⟨hshown, hsame⟩
  have hadd : alloc.cJSONAddItemToObject f.nodes.length (some a) string
      (some t.root) mem = some ((), mem') := by
    show (readItem t.root >>= _) mem = _
    rw [Program.bind_apply, readItem_apply hr]
    show (alloc.after (freeAll r.string) >>= _) mem = _
    rw [Program.bind_apply, alloc.after_apply hfree, hanswer]
    exact hrun
  exact ⟨mem', (alloc.cJSONAddItemToObject_stable _ _ _).gives hadd,
    added_trees hts hrep' hbecomes, hshown, hsame⟩

theorem delete_trees (h : Trees mem (t :: rest)) :
    exists mem', Gives (fun fuel => cJSONDelete fuel (some t.root)) mem
      () mem' ∧ Trees mem' rest ∧ SameValues mem mem' rest := by
  rcases h with ⟨f, hrep, hts⟩
  have hroot : t.root ∈ f.roots :=
    (roots_perm_of hts).mem_iff.mpr List.mem_cons_self
  rcases delete_represents hrep hroot (Nat.le_refl _) with
    ⟨mem', f', t', hrun, hrep', ht', hbelow, hnodes, hbecomes⟩
  have heq : t' = t := hbelow.unique (below_of hts List.mem_cons_self) ht'
  rw [heq] at hnodes
  have hroots : f'.roots.Perm (rest.map RoseTree.root) := by
    have herase := (roots_perm_of hts).erase t.root
    rw [List.map_cons, List.erase_cons_head] at herase
    exact hbecomes.roots.trans herase
  have hrest : f'.trees.Perm rest := by
    apply trees_perm_of _ hroots
    intro u hu
    rw [hbecomes.kids]
    exact below_of hts (List.mem_cons_of_mem t hu)
  refine ⟨mem', (cJSONDelete_stable _).gives hrun, ⟨f', hrep', hrest⟩, ?_⟩
  intro u b hu hb
  exact hbecomes.values b (mem_nodes_of hrest hu hb) (fun h => nomatch h)

theorem print_trees {name : Option (List UInt8)} {item : Item double}
    (h : Trees mem ts) (ht : t ∈ ts)
    (hshown : shown mem t = some (name, item)) :
    Gives (fun fuel => cJSONPrint fuel (some t.root)) mem item mem := by
  rcases h with ⟨f, hrep, hts⟩
  cases t with
  | node p us =>
      have hmem : RoseTree.node p us ∈ f.trees := hts.mem_iff.mpr ht
      rcases trees_perm_cons hmem with ⟨others, hperm⟩
      rcases (hrep.held.perm hperm).cons with
        ⟨r, ⟨hr, hchild, _⟩, hroots, hheld, _, _⟩
      have hnodes : forall b, b ∈ (RoseTree.node p us).items -> b ∈ f.nodes :=
        fun b hb => mem_nodes_of hts ht hb
      have hp := hnodes p (RoseTree.root_mem_items (.node p us))
      rcases shown_node hshown with ⟨type, valueint, valuedouble, valuestring,
        children, hvalues, hchildren, hitem⟩
      rw [valuesOf_record hr] at hvalues
      cases hvalues
      have hsegment : Segment (linksOf mem) none (us.map RoseTree.root) none := by
        rw [hroots]
        exact hrep.held.segment p hp
      have htexts : TextsKept mem (us.flatMap RoseTree.items) := by
        intro b q hb hq
        rcases List.mem_flatMap.mp hb with ⟨u, hu, hbu⟩
        exact hrep.texts b q (hnodes b (RoseTree.items_subset hu hbu)) hq
      have hread := readFrom_apply (us.flatMap RoseTree.items).length none us
        hheld htexts hsegment (Nat.le_refl _) children hchildren
      rw [← hchild] at hread
      have hprint : cJSONPrint (us.flatMap RoseTree.items).length (some p) mem =
          some (item, mem) := by
        show (readItem p >>= _) mem = _
        rw [Program.bind_apply, readItem_apply hr]
        apply readValue_apply hread _ hitem
        intro q hq
        apply hrep.texts p q hp
        rw [strings_record hr]
        exact hq
      exact (cJSONPrint_stable _).gives hprint

theorem getObjectItem_trees {members : List (List UInt8 × Item double)}
    {name : Option (List UInt8)} (h : Trees mem ts)
    (ht : .node p us ∈ ts) (hshown : shown mem (.node p us) =
    some (name, .object members)) (string : List UInt8) :
    (JsonRpc.cJSONGetObjectItem string members = none ∧
    Gives (fun fuel => cJSONGetObjectItem fuel p string) mem none mem) ∨
      exists u item, u ∈ us ∧ (exists name', shown mem u = some (name', item)) ∧
        JsonRpc.cJSONGetObjectItem string members = some item ∧
        Gives (fun fuel => cJSONGetObjectItem fuel p string) mem
          (some u.root) mem := by
  rcases h with ⟨f, hrep, hts⟩
  have hp : p ∈ f.nodes := mem_nodes_of hts ht
    (RoseTree.root_mem_items (.node p us))
  rcases namedAt hrep hp (Nat.le_refl _) string with ⟨o, ho, hnamed⟩
  have hrun : cJSONGetObjectItem f.nodes.length p string mem =
      some ((f.kids p).find? (Named mem string), mem) := by
    show (readItem p >>= _) mem = _
    rw [Program.bind_apply, readItem_apply ho]
    show (namedFrom string f.nodes.length o.child 0 >>= _) mem = _
    rw [Program.bind_apply, hnamed]
    rfl
  rw [← (below_of hts ht).children.left] at hrun
  rcases shown_object hshown with ⟨_, _, _, _, hchildren⟩
  rcases find_named string hchildren with
    ⟨hnone, hfind⟩ | ⟨u, item, name', hu, hshownU, hsome, hfind⟩
  · rw [hfind] at hrun
    exact Or.inl ⟨hnone, (cJSONGetObjectItem_stable _ _).gives hrun⟩
  · rw [hfind] at hrun
    exact Or.inr ⟨u, item, hu, ⟨_, hshownU⟩, hsome,
      (cJSONGetObjectItem_stable _ _).gives hrun⟩

end Operations

end Heap
end CJson
end Lepd
