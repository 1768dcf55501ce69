import Lepd.CJson.HeapOwners

/-!
# Sessions with items in memory

A client creates items, puts them in others and takes them out, and gives them
back. As long as it only puts in or gives back what it owns, memory holds the
trees that it should hold, and nothing else.
-/

namespace Lepd
namespace CJson
namespace Heap

open Foundation

variable {double : Type} {mem mem' : Memory double} {f f' : Forest} {a c p q x :
  Nat} {fuel : Nat}

/-- Memory holds the trees of the forest and nothing else. -/
structure Represents (mem : Memory double) (f : Forest) : Prop where
  held : Held mem f.kids f.trees
  alone : forall r, r ∈ f.roots -> Alone mem r
  texts : forall a p, a ∈ f.nodes -> p ∈ strings mem a -> (textAt mem p).isSome
  all : forall p, (mem p).isSome -> p ∈ blocksAll mem f.nodes

/-- What a call has made of the forest; the items say what they said, but for
`changed`. -/
structure Becomes (mem mem' : Memory double) (f' : Forest)
    (kids : Nat -> List Nat) (roots nodes : List Nat)
    (changed : Option Nat) : Prop where
  kids : f'.kids = kids
  roots : f'.roots.Perm roots
  nodes : f'.nodes.Perm nodes
  values : forall b, b ∈ f'.nodes -> changed ≠ some b -> valuesOf mem' b =
    valuesOf mem b

theorem Represents.listOf (h : Represents mem f) (ha : a ∈ f.nodes) :
    ListOf mem a (f.kids a) where
  first := h.held.first a ha
  segment := h.held.segment a ha
  nodup := Forest.kids_nodup ha

theorem Represents.relinked (h : Represents mem f) {touched l : List Nat}
    (hre : Relinked mem mem' a touched l)
    (hkids : f'.kids = Function.update f.kids a l) (hnodes : f'.nodes.Perm f.nodes)
    (hother : forall b p, b ∈ f.nodes -> b ≠ a -> p ∈ f.kids b -> p ∉ touched)
    (halone : forall r, r ∈ f'.roots -> Alone mem' r) : Represents mem' f' := by
  have hblocks : (blocksAll mem' f'.nodes).Perm (blocksAll mem f.nodes) := by
    rw [blocksAll_content hre.content]
    exact hnodes.flatMap_right (blocks mem)
  have hcontent : forall p, content mem' p = content mem p := congrFun hre.content
  refine ⟨⟨f'.below, ?_, ?_, ?_, ?_, ?_⟩, halone, ?_, ?_⟩
  · intro b hb
    rw [hre.children, hkids]
    by_cases hba : b = a
    · rw [hba, Function.update_self, Function.update_self]
    · rw [Function.update_of_ne hba, Function.update_of_ne hba]
      exact h.held.first b (hnodes.mem_iff.mp hb)
  · intro b hb
    rw [hkids]
    by_cases hba : b = a
    · rw [hba, Function.update_self]
      exact hre.segment
    · rw [Function.update_of_ne hba]
      have hb' : b ∈ f.nodes := hnodes.mem_iff.mp hb
      exact (h.held.segment b hb').congr (fun p hp =>
        hre.links p (hother b p hb' hba hp))
  · intro b r hb hr
    rcases recordAt_content (hcontent b).symm hr with ⟨r', hr', htype, _⟩
    rw [← htype]
    exact h.held.owner b r' (hnodes.mem_iff.mp hb) hr'
  · exact hblocks.nodup_iff.mpr h.held.once
  · intro p hp
    rw [isSome_content (hcontent p)]
    exact h.held.used p (hblocks.mem_iff.mp hp)
  · intro b p hb hp
    rw [textAt_content (hcontent p)]
    rw [strings_content (hcontent b)] at hp
    exact h.texts b p (hnodes.mem_iff.mp hb) hp
  · intro p hp
    rw [isSome_content (hcontent p)] at hp
    exact hblocks.mem_iff.mpr (h.all p hp)

/-!
# Putting in and taking out
-/

theorem trees_perm_cons {t : RoseTree Nat} (ht : t ∈ f.trees) :
    exists rest, f.trees.Perm (t :: rest) := by
  rcases List.append_of_mem ht with ⟨ls, rs, heq⟩
  refine ⟨ls ++ rs, ?_⟩
  rw [heq]
  exact List.perm_middle

theorem mem_rest {t : RoseTree Nat} {rest : List (RoseTree Nat)}
    (hperm : f.trees.Perm (t :: rest)) (ha : a ∈ f.nodes)
    (hat : a ∉ t.items) : a ∈ rest.flatMap RoseTree.items := by
  have hnodes := (hperm.flatMap_right RoseTree.items).mem_iff.mp ha
  rw [List.flatMap_cons] at hnodes
  exact (List.mem_append.mp hnodes).resolve_left hat

/-- The item is a root, and what is below it does not contain `a`. -/
def Movable (f : Forest) (a x : Nat) : Prop :=
  exists t, t ∈ f.trees ∧ t.root = x ∧ a ∉ t.items

theorem Movable.root (h : Movable f a x) : x ∈ f.roots := by
  rcases h with ⟨t, ht, rfl, _⟩
  exact List.mem_map_of_mem ht

theorem addItemToArray_represents (h : Represents mem f) (ha : a ∈ f.nodes)
    (hx : Movable f a x)
    (hfuel : f.nodes.length <= fuel) :
    exists mem' f', cJSONAddItemToArray fuel a (some x) mem = some ((), mem') ∧
      Represents mem' f' ∧
      Becomes mem mem' f' (Function.update f.kids a (f.kids a ++ [x]))
        (f.roots.erase x) f.nodes none := by
  have hroot := hx.root
  have hxa : x ∉ f.kids a := fun hmem => Forest.kid_not_root ha hmem hroot
  rcases addItemToArray_relinked (h.listOf ha) (h.alone x hroot) hxa
    (Nat.le_trans (Forest.kids_length ha) hfuel) with ⟨mem', hrun, hre⟩
  rcases hx with ⟨t, ht, rfl, hat⟩
  rcases trees_perm_cons ht with ⟨rest, hperm⟩
  rcases f.splice (f.kids a) [] [] [t] hperm (mem_rest hperm ha hat)
    (List.append_nil _).symm (fun _ h => (nomatch h)) with
    ⟨f', hkids, hroots, hnodes, _⟩
  have hroots' : f.roots.Perm (t.root :: f'.roots) :=
    (hperm.map RoseTree.root).trans (hroots.symm.cons t.root)
  have hkids' : f'.kids = Function.update f.kids a (f.kids a ++ [t.root]) := hkids
  refine ⟨mem', f', hrun, h.relinked hre hkids' hnodes ?_ ?_, hkids', ?_,
    hnodes, fun b _ _ => valuesOf_content hre.content b⟩
  · intro b p hb hba hp hmem
    rcases List.mem_append.mp hmem with hmem | hmem
    · exact hba (Forest.kid_of_one hb ha hp hmem)
    · rw [List.mem_singleton.mp hmem] at hp
      exact Forest.kid_not_root hb hp hroot
  · intro r hr
    have hr' : r ∈ f.roots := hroots'.mem_iff.mpr (List.mem_cons_of_mem _ hr)
    have hne : r ≠ t.root := by
      intro heq
      exact (List.nodup_cons.mp (hroots'.nodup_iff.mp f.roots_nodup)).left
        (heq ▸ hr)
    show linksOf mem' r = _
    rw [hre.links r (fun hmem => (List.mem_append.mp hmem).elim (fun hmem =>
      Forest.kid_not_root ha hmem hr')
      (fun hmem => hne (List.mem_singleton.mp hmem)))]
    exact h.alone r hr'
  · have herase := hroots'.erase t.root
    rw [List.erase_cons_head] at herase
    exact herase.symm

theorem tree_of_kid (ha : a ∈ f.nodes) (hc : c ∈ f.kids a) :
    exists t, t.root = c ∧ RoseTree.Below f.kids t := by
  rcases List.mem_flatMap.mp ha with ⟨t, ht, hat⟩
  rcases (f.below t ht).child hat hc with ⟨u, hu, hbelow, _⟩
  exact ⟨u, hu, hbelow⟩

theorem unlink_represents {front back : List Nat} (h : Represents mem f)
    (ha : a ∈ f.nodes)
    (hkids : f.kids a = front ++ c :: back) :
    exists mem' f', unlink a c mem = some ((), mem') ∧ Represents mem' f' ∧
      Becomes mem mem' f' (Function.update f.kids a (front ++ back))
        (c :: f.roots) f.nodes none := by
  have hlist := h.listOf ha
  rw [hkids] at hlist
  rcases unlink_relinked hlist with ⟨mem', hrun, hre, halone⟩
  rcases tree_of_kid ha
    (hkids ▸ List.mem_append_right front List.mem_cons_self) with ⟨t, rfl, hbelow⟩
  rcases f.splice front back [t] [] (List.Perm.refl _) ha hkids
    (fun u hu => List.mem_singleton.mp hu ▸ hbelow) with
    ⟨f', hkids', hroots, hnodes, _⟩
  have hroots' : f'.roots.Perm (t.root :: f.roots) := hroots
  refine ⟨mem', f', hrun, h.relinked hre hkids' hnodes ?_ ?_, hkids', hroots',
    hnodes,
    fun b _ _ => valuesOf_content hre.content b⟩
  · intro b p hb hba hp hmem
    exact hba (Forest.kid_of_one hb ha hp (hkids ▸ hmem))
  · intro r hr
    rcases List.mem_cons.mp (hroots'.mem_iff.mp hr) with rfl | hr
    · exact halone
    · show linksOf mem' r = _
      rw [hre.links r (fun hmem => Forest.kid_not_root ha (hkids ▸ hmem) hr)]
      exact h.alone r hr

theorem exchange_represents {front back : List Nat} (h : Represents mem f)
    (ha : a ∈ f.nodes)
    (hkids : f.kids a = front ++ c :: back) (hx : Movable f a x) :
    exists mem' f', exchange a c x mem = some ((), mem') ∧ Represents mem' f' ∧
      Becomes mem mem' f' (Function.update f.kids a (front ++ x :: back))
        (c :: f.roots.erase x) f.nodes none := by
  have hroot := hx.root
  have hxa : x ∉ f.kids a := fun hmem => Forest.kid_not_root ha hmem hroot
  have hlist := h.listOf ha
  rw [hkids] at hlist hxa
  rcases exchange_relinked hlist (h.alone x hroot) hxa with
    ⟨mem', hrun, hre, halone⟩
  rcases hx with ⟨t, ht, rfl, hat⟩
  rcases trees_perm_cons ht with ⟨rest, hperm⟩
  rcases tree_of_kid ha
    (hkids ▸ List.mem_append_right front List.mem_cons_self) with ⟨u, rfl, hbelow⟩
  rcases f.splice front back [u] [t] hperm (mem_rest hperm ha hat) hkids
    (fun v hv => List.mem_singleton.mp hv ▸ hbelow) with
    ⟨f', hkids', hroots, hnodes, _⟩
  have hrest : (f.roots.erase t.root).Perm (rest.map RoseTree.root) := by
    have herase := (hperm.map RoseTree.root).erase t.root
    rw [List.map_cons, List.erase_cons_head] at herase
    exact herase
  have hroots' : f'.roots.Perm (u.root :: f.roots.erase t.root) :=
    hroots.trans (hrest.symm.cons u.root)
  refine ⟨mem', f', hrun, h.relinked hre hkids' hnodes ?_ ?_, hkids', hroots',
    hnodes,
    fun b _ _ => valuesOf_content hre.content b⟩
  · intro b p hb hba hp hmem
    rcases List.mem_append.mp hmem with hmem | hmem
    · exact hba (Forest.kid_of_one hb ha hp (hkids ▸ hmem))
    · rw [List.mem_singleton.mp hmem] at hp
      exact Forest.kid_not_root hb hp hroot
  · intro r hr
    rcases List.mem_cons.mp (hroots'.mem_iff.mp hr) with rfl | hr
    · exact halone
    · have hr' : r ∈ f.roots := List.mem_of_mem_erase hr
      have hne : r ≠ t.root := fun heq =>
        (List.Nodup.mem_erase_iff f.roots_nodup).mp hr |>.left heq
      show linksOf mem' r = _
      rw [hre.links r (fun hmem => (List.mem_append.mp hmem).elim
        (fun hmem => Forest.kid_not_root ha (hkids ▸ hmem) hr') (fun hmem =>
          hne (List.mem_singleton.mp hmem)))]
      exact h.alone r hr'

/-!
# Giving back
-/

theorem delete_represents (h : Represents mem f) (hx : x ∈ f.roots)
    (hfuel : f.nodes.length <= fuel) :
    exists mem' f' t, cJSONDelete fuel (some x) mem = some ((), mem') ∧
      Represents mem' f' ∧ t.root = x ∧
      RoseTree.Below f.kids t ∧ f.nodes.Perm (t.items ++ f'.nodes) ∧
      Becomes mem mem' f' f.kids (f.roots.erase x) f'.nodes none := by
  rcases Forest.tree_of_root hx with ⟨t, ht, rfl⟩
  rcases trees_perm_cons ht with ⟨rest, hperm⟩
  have hnodes : f.nodes.Perm (t.items ++ rest.flatMap RoseTree.items) := by
    rw [← List.flatMap_cons]
    exact hperm.flatMap_right RoseTree.items
  have hbelow : forall u, u ∈ rest -> RoseTree.Below f.kids u :=
    fun u hu => f.below u (hperm.mem_iff.mpr (List.mem_cons_of_mem t hu))
  have hnodup := List.nodup_append.mp (hnodes.nodup_iff.mp f.nodup)
  let f' : Forest := ⟨f.kids, rest, hbelow, hnodup.right.left⟩
  -- The blocks of the tree and those of the others.
  have hblocks : (blocksAll mem f.nodes).Perm
      (blocksAll mem t.items ++ blocksAll mem f'.nodes) := by
    have hflat := hnodes.flatMap_right (blocks mem)
    rw [List.flatMap_append] at hflat
    exact hflat
  have honce := List.nodup_append.mp (hblocks.nodup_iff.mp h.held.once)
  have hkept : forall p, p ∈ blocksAll mem f'.nodes ->
      without mem (blocksAll mem t.items) p = mem p := by
    intro p hp
    exact without_of_not_mem (fun hpt => honce.right.right p hpt p hp rfl)
  have hsame : forall b, b ∈ f'.nodes -> without mem (blocksAll mem t.items) b =
      mem b :=
    fun b hb => hkept b (mem_blocksAll hb)
  have hheldAll : Held mem f.kids (t :: rest) := h.held.perm hperm
  have hheldT : Held mem f.kids [t] := by
    apply hheldAll.sub (fun u hu => f.below u (List.mem_singleton.mp hu ▸ ht))
    rw [List.flatMap_cons, List.flatMap_cons, List.flatMap_nil, List.append_nil]
    exact List.sublist_append_left _ _
  have hheldRest : Held mem f.kids rest := by
    apply hheldAll.sub hbelow
    rw [List.flatMap_cons]
    exact List.sublist_append_right _ _
  have hsegment : Segment (linksOf mem) none ([t].map RoseTree.root) none :=
    ⟨h.alone t.root hx, trivial⟩
  have hitems : [t].flatMap RoseTree.items = t.items := by
    rw [List.flatMap_cons, List.flatMap_nil, List.append_nil]
  have hrun := deleteFrom_apply fuel mem none [t] hheldT hsegment (by
    rw [hitems]
    have hlength := hnodes.length_eq
    rw [List.length_append] at hlength
    omega)
  rw [hitems] at hrun
  have hvalues : forall b, b ∈ f'.nodes ->
      valuesOf (without mem (blocksAll mem t.items)) b = valuesOf mem b := by
    intro b hb
    exact valuesOf_congr (fun q hq => hkept q (List.mem_flatMap.mpr ⟨b, hb, hq⟩))
  refine ⟨without mem (blocksAll mem t.items), f', t, hrun,
    ⟨hheldRest.congr hkept, ?_, ?_, ?_⟩, rfl, f.below t ht, hnodes,
    rfl, ?_, List.Perm.refl _, fun b hb _ => hvalues b hb⟩
  · intro r hr
    show linksOf _ r = _
    rw [linksOf_congr (hsame r (Forest.root_mem_nodes hr))]
    exact h.alone r ((hperm.map RoseTree.root).mem_iff.mpr
      (List.mem_cons_of_mem _ hr))
  · intro b p hb hp
    rw [strings_congr (hsame b hb)] at hp
    have hpb : p ∈ blocksAll mem f'.nodes := strings_subset hb hp
    rw [textAt_congr (hkept p hpb)]
    exact h.texts b p (hnodes.mem_iff.mpr (List.mem_append_right _ hb)) hp
  · intro p hp
    rw [blocksAll_congr hsame]
    by_cases hpt : p ∈ blocksAll mem t.items
    · unfold without at hp
      rw [if_pos hpt] at hp
      cases hp
    · rw [without_of_not_mem hpt] at hp
      exact (List.mem_append.mp (hblocks.mem_iff.mp (h.all p hp))).resolve_left hpt
  · have herase := (hperm.map RoseTree.root).erase t.root
    rw [List.map_cons, List.erase_cons_head] at herase
    exact herase.symm

/-!
# Other texts
-/

def stringsOf (r : Record double) : List Nat :=
  r.valuestring.toList ++ r.string.toList

theorem strings_record {r : Record double} (hr : recordAt mem p = some r) :
    strings mem p = stringsOf r := by
  unfold strings
  rw [hr]
  rfl

/-- Other texts in one item: the old ones are given back, and the new ones were
not in use. -/
structure Retold (mem mem' : Memory double) (p : Nat) (r r' : Record double) :
    Prop where
  old : recordAt mem p = some r
  new : recordAt mem' p = some r'
  next : r'.next = r.next
  prev : r'.prev = r.prev
  child : r'.child = r.child
  type : r'.type &&& cJSONIsReference = r.type &&& cJSONIsReference
  nodup : (stringsOf r').Nodup
  fresh : forall q, q ∈ stringsOf r' -> q ∈ stringsOf r ∨ mem q = none
  texts : forall q, q ∈ stringsOf r' -> (textAt mem' q).isSome
  gone : forall q, q ∈ stringsOf r -> q ∉ stringsOf r' -> mem' q = none
  others : forall q, q ≠ p -> q ∉ stringsOf r -> q ∉ stringsOf r' -> mem' q = mem q

theorem isSome_of_text (h : (textAt mem q).isSome) : (mem q).isSome := by
  unfold textAt at h
  split at h
  · next hcell =>
      rw [hcell]
      rfl
  · cases h

theorem isSome_of_record {r : Record double} (h : recordAt mem q = some r) :
    (mem q).isSome := by
  rw [recordAt_eq_some h]
  rfl

theorem not_text_of_record {r : Record double} (h : recordAt mem q = some r) :
    textAt mem q = none := by
  unfold textAt
  rw [recordAt_eq_some h]

theorem Represents.retold_kept (h : Represents mem f) (hp : p ∈ f.nodes)
    {r r' : Record double}
    (hre : Retold mem mem' p r r') {b : Nat} (hb : b ∈ f.nodes) (hne : b ≠ p) :
    forall q, q ∈ blocks mem b -> mem' q = mem q := by
  intro q hq
  have hsymm : Std.Symm (Function.onFun List.Disjoint (blocks mem)) :=
    ⟨fun _ _ h _ hp hp' => h hp' hp⟩
  have hdisjoint := (List.nodup_flatMap.mp h.held.once).right.forall hb hp hne
  have hown : forall s, s ∈ blocks mem p -> q ≠ s :=
    fun s hs heq => hdisjoint hq (heq ▸ hs)
  have hstring : forall s, s ∈ stringsOf r -> q ≠ s := by
    intro s hs
    exact hown s (List.mem_cons_of_mem p ((strings_record hre.old).symm ▸ hs))
  apply hre.others q (hown p List.mem_cons_self) (fun hqr => hstring q hqr rfl)
  intro hqr
  rcases hre.fresh q hqr with hqr | hnone
  · exact hstring q hqr rfl
  · have hused := h.held.used q (List.mem_flatMap.mpr ⟨b, hb, hq⟩)
    rw [hnone] at hused
    cases hused

theorem Represents.retold (h : Represents mem f) (hp : p ∈ f.nodes)
    {r r' : Record double} (hre : Retold mem mem' p r r') :
    Represents mem' f := by
  rcases List.append_of_mem hp with ⟨front, back, hsplit⟩
  have hperm : f.nodes.Perm (p :: (front ++ back)) := by
    rw [hsplit]
    exact List.perm_middle
  have hnodup := List.nodup_cons.mp (hperm.nodup_iff.mp f.nodup)
  have hblocks : (blocksAll mem f.nodes).Perm
      (p :: (stringsOf r ++ blocksAll mem (front ++ back))) := by
    have hflat := hperm.flatMap_right (blocks mem)
    rw [List.flatMap_cons] at hflat
    unfold blocks at hflat
    rw [strings_record hre.old] at hflat
    exact hflat
  have honce := List.nodup_cons.mp (hblocks.nodup_iff.mp h.held.once)
  have honce' := List.nodup_append.mp honce.right
  have hkept : forall q, q ∈ blocksAll mem (front ++ back) -> mem' q = mem q := by
    intro q hq
    rcases List.mem_flatMap.mp hq with ⟨b, hb, hqb⟩
    exact h.retold_kept hp hre (hperm.mem_iff.mpr (List.mem_cons_of_mem p hb))
      (fun heq => hnodup.left (heq ▸ hb)) q hqb
  have hrest : forall b, b ∈ front ++ back -> mem' b = mem b := fun b hb =>
    hkept b (mem_blocksAll hb)
  have hlinks : forall b, b ∈ f.nodes -> linksOf mem' b = linksOf mem b ∧
      childOf mem' b = childOf mem b := by
    intro b hb
    rcases List.mem_cons.mp (hperm.mem_iff.mp hb) with rfl | hb
    · unfold linksOf childOf
      rw [hre.old, hre.new]
      refine ⟨?_, congrArg some hre.child⟩
      show some (r'.next, r'.prev) = some (r.next, r.prev)
      rw [hre.next, hre.prev]
    · exact ⟨linksOf_congr (hrest b hb), childOf_congr (hrest b hb)⟩
  have hstrings : forall b, b ∈ front ++ back -> strings mem' b =
      strings mem b := fun b hb => strings_congr (hrest b hb)
  have hblocks' : (blocksAll mem' f.nodes).Perm
      (p :: (stringsOf r' ++ blocksAll mem (front ++ back))) := by
    have hflat := hperm.flatMap_right (blocks mem')
    rw [List.flatMap_cons] at hflat
    unfold blocks at hflat
    rw [strings_record hre.new] at hflat
    rw [← blocksAll_congr hrest]
    exact hflat
  have hnew : forall q, q ∈ stringsOf r' -> q ≠ p ∧
      q ∉ blocksAll mem (front ++ back) := by
    intro q hq
    constructor
    · intro heq
      have htext := hre.texts q hq
      rw [heq, not_text_of_record hre.new] at htext
      cases htext
    · intro hmem
      rcases hre.fresh q hq with hqr | hnone
      · exact honce'.right.right q hqr q hmem rfl
      · have hused :=
          h.held.used q (hblocks.mem_iff.mpr
          (List.mem_cons_of_mem p (List.mem_append_right _ hmem)))
        rw [hnone] at hused
        cases hused
  refine ⟨⟨f.below, ?_, ?_, ?_, ?_, ?_⟩, ?_, ?_, ?_⟩
  · intro b hb
    rw [(hlinks b hb).right]
    exact h.held.first b hb
  · intro b hb
    exact (h.held.segment b hb).congr (fun q hq =>
      (hlinks q (Forest.kid_mem_nodes hb hq)).left)
  · intro b s hb hs
    rcases List.mem_cons.mp (hperm.mem_iff.mp hb) with rfl | hb'
    · rw [hre.new] at hs
      cases hs
      rw [hre.type]
      exact h.held.owner b r hb hre.old
    · rw [recordAt_congr (hrest b hb')] at hs
      exact h.held.owner b s hb hs
  · apply hblocks'.nodup_iff.mpr
    apply List.nodup_cons.mpr
    constructor
    · intro hmem
      rcases List.mem_append.mp hmem with hmem | hmem
      · exact (hnew p hmem).left rfl
      · exact honce.left (List.mem_append_right _ hmem)
    · apply List.nodup_append.mpr
      refine ⟨hre.nodup, honce'.right.left, ?_⟩
      intro q hq s hs heq
      exact (hnew q hq).right (heq ▸ hs)
  · intro q hq
    rcases List.mem_cons.mp (hblocks'.mem_iff.mp hq) with rfl | hq
    · exact isSome_of_record hre.new
    · rcases List.mem_append.mp hq with hq | hq
      · exact isSome_of_text (hre.texts q hq)
      · rw [hkept q hq]
        exact h.held.used q (hblocks.mem_iff.mpr
          (List.mem_cons_of_mem p (List.mem_append_right _ hq)))
  · intro b hb
    show linksOf mem' b = _
    rw [(hlinks b (Forest.root_mem_nodes hb)).left]
    exact h.alone b hb
  · intro b q hb hq
    rcases List.mem_cons.mp (hperm.mem_iff.mp hb) with rfl | hb'
    · rw [strings_record hre.new] at hq
      exact hre.texts q hq
    · rw [hstrings b hb'] at hq
      have hqb : q ∈ blocksAll mem (front ++ back) := strings_subset hb' hq
      rw [textAt_congr (hkept q hqb)]
      exact h.texts b q hb hq
  · intro q hq
    apply hblocks'.mem_iff.mpr
    by_cases hqp : q = p
    · rw [hqp]
      exact List.mem_cons_self
    · apply List.mem_cons_of_mem
      by_cases hqr' : q ∈ stringsOf r'
      · exact List.mem_append_left _ hqr'
      · by_cases hqr : q ∈ stringsOf r
        · rw [hre.gone q hqr hqr'] at hq
          cases hq
        · rw [hre.others q hqp hqr hqr'] at hq
          have hmem :=
            (List.mem_cons.mp (hblocks.mem_iff.mp (h.all q hq))).resolve_left hqp
          exact List.mem_append_right _ ((List.mem_append.mp hmem).resolve_left hqr)

/-!
# New items
-/

def Forest.grow (f : Forest) (hp : p ∉ f.nodes) : Forest where
  kids := Function.update f.kids p []
  trees := .node p [] :: f.trees
  below := by
    intro t ht
    rcases List.mem_cons.mp ht with rfl | ht
    · refine .node ?_ (fun _ h => (nomatch h))
      rw [Function.update_self]
      rfl
    · exact (f.below t ht).update (fun hpt =>
        hp (List.mem_flatMap.mpr ⟨t, ht, hpt⟩)) []
  nodup := by
    rw [List.flatMap_cons]
    exact List.nodup_cons.mpr ⟨hp, f.nodup⟩

theorem malloc_represents (h : Represents mem f) (hp : mem p = none)
    {r : Record double} (hlinks : r.next = none ∧ r.prev = none)
    (hchild : r.child = none) (htype : r.type &&& cJSONIsReference = 0)
    (hstrings : stringsOf r = []) :
    exists mem' f', malloc (some p) (.item r) mem = some (some p, mem') ∧
      recordAt mem' p = some r ∧
      (forall q, q ≠ p -> mem' q = mem q) ∧ Represents mem' f' ∧
      Becomes mem mem' f' (Function.update f.kids p []) (p :: f.roots)
        (p :: f.nodes) (some p) := by
  have hnode : p ∉ f.nodes := by
    intro hmem
    have hused := h.held.used p (mem_blocksAll hmem)
    rw [hp] at hused
    cases hused
  have hnew : p ∉ blocksAll mem f.nodes := by
    intro hmem
    have hused := h.held.used p hmem
    rw [hp] at hused
    cases hused
  let mem' : Memory double := Function.update mem p (some (.item r))
  have hother : forall q, q ≠ p -> mem' q = mem q := fun q hq =>
    Function.update_of_ne hq _ _
  have hself : recordAt mem' p = some r := recordAt_item r
  have hne : forall b, b ∈ f.nodes -> b ≠ p := fun b hb heq => hnode (heq ▸ hb)
  have hsame : forall b, b ∈ f.nodes -> mem' b = mem b :=
    fun b hb => hother b (hne b hb)
  have hblocks : blocksAll mem' (p :: f.nodes) = p :: blocksAll mem f.nodes := by
    have hcons : blocksAll mem' (p :: f.nodes) = p :: strings mem' p ++
        blocksAll mem' f.nodes := List.flatMap_cons
    rw [hcons, strings_record hself, hstrings, blocksAll_congr hsame]
    rfl
  have hkid : forall b q, b ∈ f.nodes -> q ∈ f.kids b -> mem' q = mem q :=
    fun b q hb hq => hsame q (Forest.kid_mem_nodes hb hq)
  refine ⟨mem', f.grow hnode, ?_, hself, hother,
    ⟨⟨(f.grow hnode).below, ?_, ?_, ?_, ?_, ?_⟩, ?_, ?_, ?_⟩,
    rfl, List.Perm.refl _, List.Perm.refl _, ?_⟩
  · show (if (mem p).isSome then none else some (some p, mem')) = _
    rw [hp]
    rfl
  · intro b hb
    show childOf mem' b = some (Function.update f.kids p [] b).head?
    rcases List.mem_cons.mp hb with rfl | hb
    · rw [Function.update_self]
      unfold childOf
      rw [hself]
      exact congrArg some hchild
    · rw [Function.update_of_ne (hne b hb), childOf_congr (hsame b hb)]
      exact h.held.first b hb
  · intro b hb
    show Segment (linksOf mem') none (Function.update f.kids p [] b) none
    rcases List.mem_cons.mp hb with rfl | hb
    · rw [Function.update_self]
      trivial
    · rw [Function.update_of_ne (hne b hb)]
      exact (h.held.segment b hb).congr (fun q hq => linksOf_congr (hkid b q hb hq))
  · intro b s hb hs
    rcases List.mem_cons.mp hb with rfl | hb
    · rw [hself] at hs
      cases hs
      exact htype
    · rw [recordAt_congr (hsame b hb)] at hs
      exact h.held.owner b s hb hs
  · show (blocksAll mem' (p :: f.nodes)).Nodup
    rw [hblocks]
    exact List.nodup_cons.mpr ⟨hnew, h.held.once⟩
  · intro q hq
    have hq' : q ∈ p :: blocksAll mem f.nodes := hblocks ▸ hq
    rcases List.mem_cons.mp hq' with rfl | hq'
    · exact isSome_of_record hself
    · rw [hother q (fun heq => hnew (heq ▸ hq'))]
      exact h.held.used q hq'
  · intro b hb
    rcases List.mem_cons.mp (show b ∈ p :: f.roots from hb) with rfl | hb
    · unfold Alone linksOf
      rw [hself]
      show some (r.next, r.prev) = _
      rw [hlinks.left, hlinks.right]
    · show linksOf mem' b = _
      rw [linksOf_congr (hsame b (Forest.root_mem_nodes hb))]
      exact h.alone b hb
  · intro b q hb hq
    rcases List.mem_cons.mp (show b ∈ p :: f.nodes from hb) with rfl | hb
    · rw [strings_record hself, hstrings] at hq
      cases hq
    · rw [strings_congr (hsame b hb)] at hq
      have hqb : q ∈ blocksAll mem f.nodes := strings_subset hb hq
      rw [textAt_congr (hother q (fun heq => hnew (heq ▸ hqb)))]
      exact h.texts b q hb hq
  · intro q hq
    show q ∈ blocksAll mem' (p :: f.nodes)
    rw [hblocks]
    by_cases hqp : q = p
    · rw [hqp]
      exact List.mem_cons_self
    · rw [hother q hqp] at hq
      exact List.mem_cons_of_mem p (h.all q hq)
  · intro b hb hbp
    have hb' : b ∈ f.nodes :=
      (List.mem_cons.mp (show b ∈ p :: f.nodes from hb)).resolve_left
        (fun heq => hbp (congrArg some heq.symm))
    apply valuesOf_congr
    intro q hq
    exact hother q (fun heq => hnew (heq ▸ List.mem_flatMap.mpr ⟨b, hb', hq⟩))

end Heap
end CJson
end Lepd
