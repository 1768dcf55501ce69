import Lepd.CJson.HeapParser

/-!
# What is parsed into memory

What is parsed below an item is linked to it at once, and nothing else in memory
changes. So the tree shows at the end what the text says, and where parsing
fails all that has been made of it is found below the root.
-/

namespace Lepd
namespace CJson
namespace Heap

open Foundation
open Foundation.Builder (act)
open Foundation.Program (Agrees Stable Settles Gives Fails)

variable {double : Type} {mem mem' mem'' : Memory double} {f f' f'' : Forest}
  {c p q x : Nat} {fuel : Nat}
  {name : Option (List UInt8)} {item : Item double} {ts us : List (RoseTree Nat)}
  {child : Option (List UInt8) × Item double} {children :
    List (Option (List UInt8) × Item double)}

/-!
# Building below an item
-/

/-- Something is made of an item and below it, and the others are as they were. -/
structure Builds (mem : Memory double) (f : Forest) (c : Nat)
    (mem' : Memory double) (f' : Forest) : Prop where
  represents : Represents mem' f'
  roots : f'.roots.Perm f.roots
  nodes : f.nodes ⊆ f'.nodes
  kids : forall b, b ∈ f.nodes -> b ≠ c -> f'.kids b = f.kids b
  values : forall b, b ∈ f.nodes -> b ≠ c -> valuesOf mem' b = valuesOf mem b

theorem Builds.refl (h : Represents mem f) (c : Nat) : Builds mem f c mem f :=
  ⟨h, List.Perm.refl _, List.Subset.refl _, fun _ _ _ => rfl, fun _ _ _ => rfl⟩

theorem Builds.trans (h : Builds mem f c mem' f')
    (h' : Builds mem' f' x mem'' f'') (hx : x = c ∨ x ∉ f.nodes) :
    Builds mem f c mem'' f'' := by
  have hne : forall b, b ∈ f.nodes -> b ≠ c -> b ≠ x := by
    intro b hb hbc heq
    rcases hx with hx | hx
    · exact hbc (heq.trans hx)
    · exact hx (heq ▸ hb)
  refine ⟨h'.represents, h'.roots.trans h.roots,
    List.Subset.trans h.nodes h'.nodes, ?_, ?_⟩
  · intro b hb hbc
    rw [h'.kids b (h.nodes hb) (hne b hb hbc), h.kids b hb hbc]
  · intro b hb hbc
    rw [h'.values b (h.nodes hb) (hne b hb hbc), h.values b hb hbc]

structure Blank (mem : Memory double) (f : Forest) (c : Nat)
    (name : Option (List UInt8)) : Prop where
  kids : f.kids c = []
  values : exists type valueint valuedouble, valuesOf mem c =
    some (type, valueint, valuedouble, none, name)

structure Hangs (f : Forest) (old : List Nat) (c : Nat)
    (ts : List (RoseTree Nat)) : Prop where
  roots : ts.map RoseTree.root = f.kids c
  below : forall t, t ∈ ts -> RoseTree.Below f.kids t
  nodes : forall t b, t ∈ ts -> b ∈ t.items -> b ∈ f.nodes
  new : forall t b, t ∈ ts -> b ∈ t.items -> b ∉ old

theorem Hangs.nil {old : List Nat} (h : f.kids c = []) : Hangs f old c [] :=
  ⟨h.symm, fun _ ht => absurd ht List.not_mem_nil, fun _ _ ht =>
    absurd ht List.not_mem_nil,
    fun _ _ ht => absurd ht List.not_mem_nil⟩

def Built (mem : Memory double) (f : Forest) (c : Nat)
    (child : Option (List UInt8) × Item double) (mem' : Memory double) : Prop :=
  exists f' ts, Builds mem f c mem' f' ∧ Hangs f' f.nodes c ts ∧
    shown mem' (.node c ts) = some child

/-- Whatever is made of the item. -/
def Left (mem : Memory double) (f : Forest) (c : Nat) (mem' : Memory double) :
    Prop :=
  exists f', Builds mem f c mem' f'

theorem Left.refl (h : Represents mem f) (c : Nat) : Left mem f c mem :=
  ⟨f, Builds.refl h c⟩

theorem Left.after (h : Builds mem f c mem' f') (hleft : Left mem' f' x mem'')
    (hx : x = c ∨ x ∉ f.nodes) : Left mem f c mem'' := by
  rcases hleft with ⟨f'', h''⟩
  exact ⟨f'', h.trans h'' hx⟩

theorem Built.after (h : Builds mem f c mem' f)
    (hbuilt : Built mem' f c child mem'') : Built mem f c child mem'' := by
  rcases hbuilt with ⟨f'', ts, h'', hhangs, hshown⟩
  exact ⟨f'', ts, h.trans h'' (Or.inl rfl), hhangs, hshown⟩

theorem leaf_built {type : Nat} {valueint : Int} {valuedouble : double}
    {valuestring : Option (List UInt8)} (h : Builds mem f c mem' f)
    (hkids : f.kids c = [])
    (hvalues : valuesOf mem' c = some (type, valueint, valuedouble, valuestring,
    name))
    (hitem : itemOf type valueint valuedouble valuestring [] = some item) :
    Built mem f c (name, item) mem' :=
  ⟨f, [], h, Hangs.nil hkids, shown_eq hvalues rfl hitem⟩

/-!
# Stores
-/

theorem pointer_none (h : Represents mem f) (hc : c ∈ f.nodes)
    {r : Record double} (hr : recordAt mem c = some r) {o : Option Nat}
    (ho : o.toList ⊆ stringsOf r) (hnone : o.bind (textAt mem) = none) :
    o = none := by
  cases o with
  | none => rfl
  | some q =>
      have htext := h.texts c q hc (by
        rw [strings_record hr]
        exact ho List.mem_cons_self)
      have hq : textAt mem q = none := hnone
      rw [hq] at htext
      cases htext

theorem Blank.record (hblank : Blank mem f c name) (h : Represents mem f)
    (hc : c ∈ f.nodes) :
    exists r, recordAt mem c = some r ∧ r.valuestring = none ∧
      r.string.bind (textAt mem) = name ∧ r.child = none ∧
      r.type &&& cJSONIsReference = 0 := by
  rcases recordAt_of_child (h.held.first c hc) with ⟨r, hr, hchild⟩
  rcases hblank.values with ⟨type, valueint, valuedouble, hvalues⟩
  rw [hblank.kids] at hchild
  rw [valuesOf_record hr] at hvalues
  have heq := Option.some.inj hvalues
  simp only [Prod.mk.injEq] at heq
  rcases heq with ⟨_, _, _, hvaluestring, hname⟩
  exact ⟨r, hr, pointer_none h hc hr (List.subset_append_left _ _) hvaluestring,
    hname, hchild, h.held.owner c r hc hr⟩

theorem strings_nodup (h : Represents mem f) (hc : c ∈ f.nodes)
    {r : Record double} (hr : recordAt mem c = some r) :
    (c :: stringsOf r).Nodup := by
  have hnodup := (List.nodup_flatMap.mp h.held.once).left c hc
  unfold blocks at hnodup
  rw [strings_record hr] at hnodup
  exact hnodup

theorem store_builds (h : Represents mem f) (hc : c ∈ f.nodes)
    {r : Record double} (hr : recordAt mem c = some r)
    {g : Record double -> Record double} (hstrings : stringsOf (g r) = stringsOf r)
    (hlinks : (g r).next = r.next ∧ (g r).prev = r.prev ∧ (g r).child = r.child)
    (htype : (g r).type &&& cJSONIsReference = 0) :
    exists mem', storeItem c g mem = some ((), mem') ∧ Builds mem f c mem' f ∧
      valuesOf mem' c = some ((g r).type, (g r).valueint, (g r).valuedouble,
        (g r).valuestring.bind (textAt mem),
        (g r).string.bind (textAt mem)) := by
  have htexts : forall q, q ∈ stringsOf r -> (textAt mem q).isSome := by
    intro q hq
    apply h.texts c q hc
    rw [strings_record hr]
    exact hq
  rcases List.nodup_cons.mp (strings_nodup h hc hr) with ⟨hown, hnodup⟩
  have hre := store_retold hr htexts hnodup hstrings hlinks
    (htype.trans (h.held.owner c r hc hr).symm)
  refine ⟨_, storeItem_apply hr g, ⟨h.retold hc hre, List.Perm.refl _,
    List.Subset.refl _, fun _ _ _ => rfl, ?_⟩, ?_⟩
  · intro b hb hbc
    exact valuesOf_congr (h.retold_kept hc hre hb hbc)
  · have hkept : forall o : Option Nat, o.toList ⊆ stringsOf (g r) ->
        o.bind (textAt (Function.update mem c (some (.item (g r))))) =
          o.bind (textAt mem) := by
      intro o ho
      cases o with
      | none => rfl
      | some q =>
          have hq : q ∈ stringsOf r := hstrings ▸ ho List.mem_cons_self
          have hne : q ≠ c := fun heq => hown (heq ▸ hq)
          exact textAt_congr (Function.update_of_ne hne _ _)
    rw [valuesOf_record (recordAt_item (g r)),
      hkept _ (List.subset_append_left _ _), hkept _ (List.subset_append_right _ _)]

theorem storeString_builds (h : Represents mem f) (hc : c ∈ f.nodes)
    (hblank : Blank mem f c name) (hq : mem q = none)
    (text : List UInt8) : exists mem', storeString c q text mem =
    some ((), mem') ∧ Builds mem f c mem' f ∧
      exists valueint valuedouble, valuesOf mem' c =
        some (cJSONString, valueint, valuedouble, some text, name) := by
  rcases hblank.record h hc with ⟨r, hr, hvaluestring, hname, _, howner⟩
  have hqc : q ≠ c := by
    intro heq
    rw [heq, recordAt_eq_some hr] at hq
    cases hq
  have hold : stringsOf r = r.string.toList := by
    unfold stringsOf
    rw [hvaluestring]
    rfl
  have htexts : forall s, s ∈ stringsOf r -> (textAt mem s).isSome := by
    intro s hs
    apply h.texts c s hc
    rw [strings_record hr]
    exact hs
  have hfree : forall s, some q = some s -> mem s = none := by
    intro s hs
    cases hs
    exact hq
  let r' : Record double := { r with valuestring := some q, type := cJSONString }
  let mem' : Memory double := Function.update (placed mem (some q) text) c
    (some (.item r'))
  have hr₁ : recordAt (placed mem (some q) text) c = some r := by
    rw [recordAt_congr (placed_of_ne (fun heq => hqc (Option.some.inj heq)) text)]
    exact hr
  have htype : cJSONString &&& cJSONIsReference = r.type &&& cJSONIsReference := by
    rw [howner]
    rfl
  have hstrings : stringsOf r' = (some q).toList ++ stringsOf r := by
    rw [hold]
    rfl
  have hre : Retold mem mem' c r r' :=
    text_retold hr htexts (List.nodup_cons.mp (strings_nodup h hc hr)).right
      hfree hstrings ⟨rfl, rfl, rfl⟩ htype text
  have hvaluestring' : textAt mem' q = some text := by
    rw [textAt_congr (Function.update_of_ne hqc _ _), textAt_placed rfl]
  have hstring : r.string.bind (textAt mem') = name := by
    rw [← hname]
    cases hs : r.string with
    | none => rfl
    | some s =>
        have hmem : s ∈ stringsOf r := by
          rw [hold]
          exact Option.mem_toList.mpr hs
        have hused := isSome_of_text (htexts s hmem)
        have hsc : s ≠ c := fun heq =>
          (List.nodup_cons.mp (strings_nodup h hc hr)).left (heq ▸ hmem)
        have hsq : some q ≠ some s := by
          intro heq
          rw [hfree s heq] at hused
          cases hused
        exact textAt_congr ((Function.update_of_ne hsc _ _).trans
          (placed_of_ne hsq text))
  refine ⟨mem', ?_, ⟨h.retold hc hre, List.Perm.refl _, List.Subset.refl _,
    fun _ _ _ => rfl,
    fun b hb hbc => valuesOf_congr (h.retold_kept hc hre hb hbc)⟩, r.valueint,
      r.valuedouble, ?_⟩
  · unfold storeString
    rw [Program.bind_apply, malloc_apply hq]
    exact storeItem_apply hr₁ _
  · rw [valuesOf_record hre.new]
    show some (cJSONString, r.valueint, r.valuedouble, textAt mem' q,
      r.string.bind (textAt mem')) = _
    rw [hvaluestring', hstring]

/-!
# Links
-/

structure Linked (mem : Memory double) (f : Forest) (c x : Nat)
    (mem' : Memory double) (f' : Forest) : Prop where
  builds : Builds mem f c mem' f'
  kids : f'.kids c = f.kids c ++ [x]
  values : valuesOf mem' c = valuesOf mem c
  new : x ∉ f.nodes
  node : x ∈ f'.nodes
  blank : Blank mem' f' x none

theorem addItemToArray_first (h : Represents mem f) (hc : c ∈ f.nodes)
    (hkids : f.kids c = []) :
    cJSONAddItemToArray fuel c (some x) mem =
      storeItem c (fun r => { r with child := some x }) mem := by
  rcases recordAt_of_child (h.held.first c hc) with ⟨r, hr, hchild⟩
  rw [hkids] at hchild
  have hnone : r.child = none := hchild
  unfold cJSONAddItemToArray
  rw [Program.bind_apply, readItem_apply hr]
  simp only [Option.bind_some, hnone]

theorem addItemToArray_last {front : List Nat} {last : Nat}
    (h : Represents mem f) (hc : c ∈ f.nodes)
    (hkids : f.kids c = front ++ [last]) (hfuel : f.nodes.length <= fuel) :
    cJSONAddItemToArray fuel c (some x) mem = suffixObject last x mem := by
  rcases recordAt_of_child (h.held.first c hc) with ⟨r, hr, hchild⟩
  have hsegment := h.held.segment c hc
  have hlength := Nat.le_trans (Forest.kids_length hc) hfuel
  rw [hkids] at hchild hsegment hlength
  rcases lastFrom_apply hsegment hlength with ⟨first, hfirst, hlast⟩
  rw [hfirst] at hchild
  unfold cJSONAddItemToArray
  rw [Program.bind_apply, readItem_apply hr]
  simp only [Option.bind_some, hchild]
  rw [Program.bind_apply, hlast]
  rfl

section Allocate

variable [CDouble double] {alloc : Allocator double}

theorem new_linked (h : Represents mem f) (hc : c ∈ f.nodes) (hx : mem x = none) :
    exists mem₁ mem' f', newItem 0 (some x) mem = some (some x, mem₁) ∧
      Linked mem f c x mem' f' ∧
      (f.kids c = [] -> storeItem c (fun r => { r with child := some x }) mem₁ =
        some ((), mem')) ∧
      (forall front last, f.kids c = front ++ [last] ->
        suffixObject last x mem₁ = some ((), mem')) := by
  rcases newItem_created h (show 0 &&& cJSONIsReference = 0 from rfl) hx with
    ⟨mem₁, f₁, hrun, hrep, hbecomes, hvalues⟩
  have hnew : x ∉ f.nodes := by
    intro hmem
    have hused := h.held.used x (mem_blocksAll hmem)
    rw [hx] at hused
    cases hused
  have hne : forall b, b ∈ f.nodes -> b ≠ x := fun b hb heq => hnew (heq ▸ hb)
  have hnodes : forall b, b ∈ f₁.nodes <-> b = x ∨ b ∈ f.nodes := by
    intro b
    rw [hbecomes.nodes.mem_iff, List.mem_cons]
  have hkids : forall b, b ∈ f.nodes -> f₁.kids b = f.kids b := by
    intro b hb
    rw [hbecomes.kids]
    exact Function.update_of_ne (hne b hb) _ _
  have hc₁ : c ∈ f₁.nodes := (hnodes c).mpr (Or.inr hc)
  have hroot : x ∈ f₁.roots := hbecomes.roots.mem_iff.mpr List.mem_cons_self
  have hmovable : Movable f₁ c x := by
    rcases Forest.tree_of_root hroot with ⟨t, ht, htx⟩
    refine ⟨t, ht, htx, ?_⟩
    cases t with
    | node y us =>
        have hy : y = x := htx
        have hus : us = [] := by
          have hroots := (f₁.below _ ht).children.left
          rw [hy, hbecomes.kids, Function.update_self] at hroots
          exact List.map_eq_nil_iff.mp hroots
        rw [hus, hy, RoseTree.items_node]
        intro hmem
        rcases List.mem_cons.mp hmem with heq | hmem
        · exact hne c hc heq
        · cases hmem
  rcases addItemToArray_represents hrep hc₁ hmovable (Nat.le_refl _) with
    ⟨mem', f', hadd, hrep', hbecomes'⟩
  have hkids' : forall b, b ≠ c -> f'.kids b = f₁.kids b := by
    intro b hb
    rw [hbecomes'.kids]
    exact Function.update_of_ne hb _ _
  have hnodes' : forall b, b ∈ f'.nodes <-> b ∈ f₁.nodes :=
    fun b => hbecomes'.nodes.mem_iff
  have hvalues' : forall b, b ∈ f.nodes -> valuesOf mem' b = valuesOf mem b := by
    intro b hb
    have hb₁ : b ∈ f₁.nodes := (hnodes b).mpr (Or.inr hb)
    rw [hbecomes'.values b ((hnodes' b).mpr hb₁) (Option.some_ne_none _).symm]
    exact hbecomes.values b hb₁ (fun heq => hne b hb (Option.some.inj heq).symm)
  have hroots' : f'.roots.Perm f.roots := by
    have herase := hbecomes.roots.erase x
    rw [List.erase_cons_head] at herase
    exact hbecomes'.roots.trans herase
  refine ⟨mem₁, mem', f', hrun,
    ⟨⟨hrep', hroots', ?_, ?_, fun b hb _ => hvalues' b hb⟩, ?_, hvalues' c hc,
    hnew, ?_, ?_, ?_⟩, ?_, ?_⟩
  · intro b hb
    exact (hnodes' b).mpr ((hnodes b).mpr (Or.inr hb))
  · intro b hb hbc
    rw [hkids' b hbc, hkids b hb]
  · rw [hbecomes'.kids, Function.update_self, hkids c hc]
  · exact (hnodes' x).mpr ((hnodes x).mpr (Or.inl rfl))
  · rw [hkids' x (fun heq => hne c hc heq.symm), hbecomes.kids,
      Function.update_self]
  · refine ⟨0, 0, CDouble.ofInt 0, ?_⟩
    rw [hbecomes'.values x ((hnodes' x).mpr ((hnodes x).mpr (Or.inl rfl)))
      (Option.some_ne_none _).symm]
    exact hvalues
  · intro hnil
    rw [← addItemToArray_first hrep hc₁ ((hkids c hc).trans hnil)]
    exact hadd
  · intro front last hlast
    rw [← addItemToArray_last hrep hc₁ ((hkids c hc).trans hlast) (Nat.le_refl _)]
    exact hadd

end Allocate

/-!
# Items of a container
-/

/-- The items so far are below the container. -/
def Filled (mem : Memory double) (f : Forest) (c : Nat)
    (children : List (Option (List UInt8) × Item double))
    (mem' : Memory double) (f' : Forest) : Prop :=
  Builds mem f c mem' f' ∧ exists ts, Hangs f' f.nodes c ts ∧ shownAll mem' ts =
    some children

theorem Filled.extend {mem₁ mem₂ mem₃ : Memory double} {f₁ f₂ : Forest}
    (hc : c ∈ f.nodes) (h : Filled mem f c children mem₁ f₁)
    (hlinked : Linked mem₁ f₁ c x mem₂ f₂) (hbuilt : Built mem₂ f₂ x child mem₃) :
    exists f₃, Filled mem f c (children ++ [child]) mem₃ f₃ ∧ valuesOf mem₃ c =
      valuesOf mem₁ c ∧
      f₃.kids c = f₁.kids c ++ [x] := by
  rcases h with ⟨hbuilds, ts, hts, hshown⟩
  rcases hbuilt with ⟨f₃, us, hbuilds₃, hus, hshown₃⟩
  have hc₁ : c ∈ f₁.nodes := hbuilds.nodes hc
  have hc₂ : c ∈ f₂.nodes := hlinked.builds.nodes hc₁
  have hxc : c ≠ x := fun heq => hlinked.new (heq ▸ hc₁)
  have hxf : x ∉ f.nodes := fun hx => hlinked.new (hbuilds.nodes hx)
  -- The trees of before are as they were.
  have hsame : forall t b, t ∈ ts -> b ∈ t.items -> f₃.kids b = f₁.kids b ∧
      valuesOf mem₃ b = valuesOf mem₁ b := by
    intro t b ht hb
    have hb₁ := hts.nodes t b ht hb
    have hbc : b ≠ c := fun heq => hts.new t b ht hb (heq ▸ hc)
    have hbx : b ≠ x := fun heq => hlinked.new (heq ▸ hb₁)
    have hb₂ := hlinked.builds.nodes hb₁
    exact ⟨(hbuilds₃.kids b hb₂ hbx).trans (hlinked.builds.kids b hb₁ hbc),
      (hbuilds₃.values b hb₂ hbx).trans (hlinked.builds.values b hb₁ hbc)⟩
  have hkids : f₃.kids c = f₁.kids c ++ [x] :=
    (hbuilds₃.kids c hc₂ hxc).trans hlinked.kids
  refine ⟨f₃, ⟨(hbuilds.trans hlinked.builds (Or.inl rfl)).trans hbuilds₃
    (Or.inr hxf), ts ++ [.node x us], ⟨?_, ?_, ?_, ?_⟩, ?_⟩,
    (hbuilds₃.values c hc₂ hxc).trans hlinked.values, hkids⟩
  · rw [List.map_append, hts.roots, hkids]
    rfl
  · intro t ht
    rcases List.mem_append.mp ht with ht | ht
    · exact (hts.below t ht).congr (fun b hb => (hsame t b ht hb).left)
    · rw [List.mem_singleton.mp ht]
      exact .node hus.roots hus.below
  · intro t b ht hb
    rcases List.mem_append.mp ht with ht | ht
    · exact hbuilds₃.nodes (hlinked.builds.nodes (hts.nodes t b ht hb))
    · rw [List.mem_singleton.mp ht, RoseTree.items_node] at hb
      rcases List.mem_cons.mp hb with rfl | hb
      · exact hbuilds₃.nodes hlinked.node
      · rcases List.mem_flatMap.mp hb with ⟨u, hu, hbu⟩
        exact hus.nodes u b hu hbu
  · intro t b ht hb
    rcases List.mem_append.mp ht with ht | ht
    · exact hts.new t b ht hb
    · rw [List.mem_singleton.mp ht, RoseTree.items_node] at hb
      rcases List.mem_cons.mp hb with rfl | hb
      · exact hxf
      · rcases List.mem_flatMap.mp hb with ⟨u, hu, hbu⟩
        exact fun hbf => hus.new u b hu hbu
          (hlinked.builds.nodes (hbuilds.nodes hbf))
  · apply shownAll_append
    · rw [← hshown]
      exact shownAll_congr (fun t ht =>
        shown_congr (fun b hb => (hsame t b ht hb).right))
    · unfold shownAll
      rw [hshown₃]
      rfl

theorem Filled.built {type : Nat} {valueint : Int} {valuedouble : double}
    (h : Filled mem f c children mem' f')
    (hvalues : valuesOf mem' c = some (type, valueint, valuedouble, none, name))
    (hitem : itemOf type valueint valuedouble none children = some item) :
    Built mem f c (name, item) mem' := by
  rcases h with ⟨hbuilds, ts, hts, hshown⟩
  exact ⟨f', ts, hbuilds, hts, shown_eq hvalues hshown hitem⟩

/-!
# Following the parser
-/

section Parsers

variable [CDouble double] {alloc : Allocator double}

def Parses {value : Type} (alloc : Allocator double)
    (m : Nat -> Build double Unit) (p : Parse value) (name : Option (List UInt8))
    (child : value -> Option (List UInt8) × Item double) : Prop :=
  forall (mem : Memory double) (f : Forest) (c : Nat), Represents mem f ->
    c ∈ f.nodes -> Blank mem f c name ->
    Builder.Follows alloc.Generous (m c) p mem (fun a _ mem' =>
      Built mem f c (child a) mem') (Left mem f c)

omit [CDouble double] in
theorem not_generous (h : Represents mem f) (hnone : alloc.answer mem = none) :
    ¬ alloc.Generous := by
  intro hgenerous
  have hbounded : Bounded mem := Trees.bounded ⟨f, h, List.Perm.refl _⟩
  rcases hgenerous mem hbounded with ⟨p, hp⟩
  rw [hnone] at hp
  cases hp

theorem cJSONNewItem_apply (mem : Memory double) :
    alloc.cJSONNewItem mem = newItem 0 (alloc.answer mem) mem := rfl

omit [CDouble double] in
theorem store_follows (h : Represents mem f) (hc : c ∈ f.nodes)
    (hblank : Blank mem f c name) {g : Record double -> Record double}
    (hlinks : forall r, (g r).next = r.next ∧ (g r).prev = r.prev ∧
    (g r).child = r.child)
    (htexts : forall r, (g r).valuestring = r.valuestring ∧ (g r).string = r.string)
    {type : Nat} (hkind : forall r, (g r).type = type)
    (htype : type &&& cJSONIsReference = 0)
    (hitem : forall r, itemOf (g r).type (g r).valueint (g r).valuedouble none
    [] = some item) :
    Builder.Follows alloc.Generous (act (storeItem c g) : Build double Unit)
      (pure item : Parse (Item double)) mem
      (fun item _ mem' => Built mem f c (name, item) mem') (Left mem f c) := by
  rcases hblank.record h hc with ⟨r, hr, hvaluestring, hname, _, _⟩
  have hstrings : stringsOf (g r) = stringsOf r := by
    unfold stringsOf
    rw [(htexts r).left, (htexts r).right]
  rcases store_builds h hc hr hstrings (hlinks r)
    ((congrArg (fun n => n &&& cJSONIsReference) (hkind r)).trans htype) with
    ⟨mem', hrun, hbuilds, hvalues⟩
  rw [(htexts r).left, (htexts r).right, hvaluestring, hname] at hvalues
  exact Builder.Follows.last hrun (leaf_built hbuilds hblank.kids hvalues (hitem r))

theorem ok_of_bind {value other : Type} {p : Parse value}
    {f : value -> Parse other} {b : other} {cur rest : List UInt8}
    (h : (p >>= f) cur = .ok b rest) : exists a mid, p cur = .ok a mid ∧
    f a mid = .ok b rest := by
  rw [Scan.bind_apply] at h
  cases hp : p cur with
  | ok a mid =>
      rw [hp] at h
      exact ⟨a, mid, rfl, h⟩
  | null rest =>
      rw [hp] at h
      cases h
  | fault reason =>
      rw [hp] at h
      cases h

theorem parseNumber_number {cur rest : List UInt8} {item : Item double}
    (h : CJson.parseNumber cur = .ok item rest) :
    exists valuedouble valueint, item = .number valuedouble valueint := by
  unfold CJson.parseNumber at h
  rcases ok_of_bind h with ⟨negative, cur₁, _, h⟩
  rcases ok_of_bind h with ⟨n, cur₂, _, h⟩
  rcases ok_of_bind h with ⟨fraction, cur₃, _, h⟩
  rcases ok_of_bind h with ⟨exponent, cur₄, _, h⟩
  cases h
  exact ⟨_, _, rfl⟩

theorem parseNumber_parses (name : Option (List UInt8)) :
    Parses alloc parseNumber (CJson.parseNumber : Parse (Item double)) name
      (fun item => (name, item)) := by
  intro mem f c h hc hblank
  apply Builder.Follows.finish _ (Left.refl h c)
  intro cur item rest hitem
  rcases parseNumber_number hitem with ⟨valuedouble, valueint, rfl⟩
  exact store_follows h hc hblank (fun _ => ⟨rfl, rfl, rfl⟩)
    (fun _ => ⟨rfl, rfl⟩) (fun _ => rfl) rfl (fun _ => rfl)

theorem countPass_ne_null {rest : List UInt8} (cur : List UInt8) (len : Nat) :
    countPass len cur ≠ .null rest := by
  induction len, cur using countPass.induct with
  | case1 len =>
      intro h
      cases h
  | case2 len c cur hend =>
      unfold countPass
      rw [if_pos hend]
      intro h
      cases h
  | case3 len hend =>
      intro h
      cases h
  | case4 len d cur hend ih =>
      exact ih
  | case5 len c cur hend hc ih =>
      unfold countPass
      rw [if_neg hend, if_neg hc]
      exact ih

/-- The first pass finds nothing wrong that the second one does not find. -/
theorem stringLength_ahead (stack : Stack) : Builder.Ahead stringLength
    (parseStringAt stack) := by
  intro cur
  unfold stringLength parseStringAt CJson.parseString
  cases cur with
  | nil => exact Or.inr (Or.inr ⟨_, _, rfl, rfl⟩)
  | cons d cur =>
      by_cases hd : d = quote
      · subst hd
        cases hpass : countPass 0 cur with
        | ok len rest =>
            refine Or.inl ⟨len, ?_⟩
            simp [CJson.peek, lookahead, hpass]
        | null rest => exact absurd hpass (countPass_ne_null cur 0)
        | fault reason =>
            refine Or.inr (Or.inr ⟨reason, reason, ?_, ?_⟩)
            · simp [CJson.peek, lookahead, hpass]
            · simp [CJson.peek, lookahead, hpass]
      · refine Or.inr (Or.inl ⟨d :: cur, ?_, ?_⟩)
        · simp [CJson.peek, hd]
        · simp [CJson.peek, hd]

omit [CDouble double] in
theorem parseString_follows (stack : Stack) (h : Represents mem f)
    (hc : c ∈ f.nodes) (hblank : Blank mem f c name) :
    Builder.Follows alloc.Generous (parseString alloc stack c)
      (parseStringAt stack) mem (fun text _ mem' => Builds mem f c mem' f ∧
      exists valueint valuedouble, valuesOf mem' c =
        some (cJSONString, valueint, valuedouble, some text, name))
        (Left mem f c) := by
  apply Builder.Follows.ahead (stringLength_ahead stack) _ (Left.refl h c)
  intro _
  apply Builder.Follows.act (alloc.after_pure ())
  cases hanswer : alloc.answer mem with
  | none => exact Builder.Follows.full (not_generous h hanswer) (Left.refl h c)
  | some q =>
      apply Builder.Follows.finish _ (Left.refl h c)
      intro cur text rest _
      rcases storeString_builds h hc hblank (alloc.fresh mem q hanswer)
        text with ⟨mem', hrun, hbuilds, hvalues⟩
      exact Builder.Follows.last hrun ⟨hbuilds, hvalues⟩

/-!
# Following the loops
-/

section Items

variable {value : Type} {m : Nat -> Build double Unit} {p : Parse value}
  {child : value -> Option (List UInt8) × Item double}

omit [CDouble double] in
theorem closeItems_follows (closing : UInt8) {items : List value}
    {good : List value -> Unit -> Memory double -> Prop}
    {bad : Memory double -> Prop} (hgood : good items () mem) (hbad : bad mem) :
    Builder.Follows alloc.Generous (closeItems closing)
      (CJson.closeItems closing items) mem good bad := by
  apply Builder.Follows.read _ hbad
  intro d
  apply Builder.Follows.ite
  · intro _
    exact Builder.Follows.fail hbad
  · intro _
    exact Builder.Follows.return (Builder.Follows.scan (fun _ => hgood) hbad)

def Loop (mem : Memory double) (f : Forest) (c type : Nat)
    (name : Option (List UInt8))
    (children : List (Option (List UInt8) × Item double))
    (mem' : Memory double) : Prop :=
  exists f', Filled mem f c children mem' f' ∧
    exists valueint valuedouble, valuesOf mem' c =
      some (type, valueint, valuedouble, none, name)

def LoopAt (mem : Memory double) (f : Forest) (c type : Nat)
    (name : Option (List UInt8))
    (children : List (Option (List UInt8) × Item double)) (last : Nat)
    (mem' : Memory double) : Prop :=
  exists f' front, Filled mem f c children mem' f' ∧ f'.kids c = front ++ [last] ∧
    exists valueint valuedouble, valuesOf mem' c =
      some (type, valueint, valuedouble, none, name)

omit [CDouble double] in
theorem LoopAt.loop {type last : Nat}
    (h : LoopAt mem f c type name children last mem') :
    Loop mem f c type name children mem' := by
  rcases h with ⟨f', _, hfilled, _, hvalues⟩
  exact ⟨f', hfilled, hvalues⟩

omit [CDouble double] in
theorem linked_follows {mem₁ mem₂ : Memory double} {f₁ f₂ : Forest} {type : Nat}
    {valueint : Int} {valuedouble : double}
    (hparse : Parses alloc m p none child) (hc : c ∈ f.nodes)
    (hfilled : Filled mem f c children mem₁ f₁)
    (hvalues : valuesOf mem₁ c = some (type, valueint, valuedouble, none, name))
    (hlinked : Linked mem₁ f₁ c x mem₂ f₂) :
    Builder.Follows alloc.Generous (m x) p mem₂ (fun a _ mem' =>
      LoopAt mem f c type name (children ++ [child a]) x mem') (Left mem f c) := by
  apply (hparse mem₂ f₂ x hlinked.builds.represents hlinked.node hlinked.blank).mono
  · intro a _ mem₃ hbuilt
    rcases hfilled.extend hc hlinked hbuilt with ⟨f₃, hfilled₃, hvalues₃, hkids₃⟩
    exact ⟨f₃, f₁.kids c, hfilled₃, hkids₃, valueint, valuedouble,
      hvalues₃.trans hvalues⟩
  · intro mem₃ hleft
    exact hleft.after (hfilled.left.trans hlinked.builds (Or.inl rfl))
      (Or.inr (fun hx => hlinked.new (hfilled.left.nodes hx)))

theorem itemsLoop_follows {type : Nat} (hparse : Parses alloc m p none child)
    (hc : c ∈ f.nodes) (closing : UInt8) (n : Nat) :
    forall (items : List value) (last : Nat) (mem₁ : Memory double),
      LoopAt mem f c type name (items.map child) last mem₁ ->
      Builder.Follows alloc.Generous (itemsLoop alloc closing m n last)
        (CJson.itemsLoop closing p n items) mem₁
        (fun items _ mem' => Loop mem f c type name (items.map child) mem')
          (Left mem f c) := by
  induction n with
  | zero =>
      intro items last mem₁ _
      exact Builder.Follows.undefined _
  | succ n ih =>
      intro items last mem₁ hloop
      rcases hloop with ⟨f₁, front, hfilled, hlast, valueint, valuedouble, hvalues⟩
      have hbuilds := hfilled.left
      have hc₁ := hbuilds.nodes hc
      have hbad : Left mem f c mem₁ := ⟨f₁, hbuilds⟩
      have hgood : Loop mem f c type name (items.map child) mem₁ :=
        ⟨f₁, hfilled, valueint, valuedouble, hvalues⟩
      apply Builder.Follows.read _ hbad
      intro d
      apply Builder.Follows.ite
      · intro _
        apply Builder.Follows.read _ hbad
        intro _
        apply Builder.Follows.read _ hbad
        intro _
        apply Builder.Follows.read _ hbad
        intro e
        apply Builder.Follows.ite
        · intro _
          apply Builder.Follows.read _ hbad
          intro _
          exact closeItems_follows closing hgood hbad
        · intro _
          cases hanswer : alloc.answer mem₁ with
          | none =>
              have hnew : alloc.cJSONNewItem mem₁ = some (none, mem₁) := by
                rw [cJSONNewItem_apply, hanswer]
                rfl
              apply Builder.Follows.act hnew
              exact Builder.Follows.full_bind
                (not_generous hbuilds.represents hanswer) hbad
          | some x =>
              rcases new_linked hbuilds.represents hc₁
                (alloc.fresh mem₁ x hanswer) with
                ⟨mem₂, mem₃, f₃, hrun, hlinked, _, hsuffix⟩
              have hnew : alloc.cJSONNewItem mem₁ = some (some x, mem₂) := by
                rw [cJSONNewItem_apply, hanswer]
                exact hrun
              apply Builder.Follows.act hnew
              have hnext : Builder.Follows alloc.Generous
                  (nextItem m last (some x)) p mem₂
                  (fun a b t => b = x ∧
                    LoopAt mem f c type name (items.map child ++ [child a]) x t)
                    (Left mem f c) := by
                apply Builder.Follows.act (hsuffix front last hlast)
                apply Builder.Follows.answer
                apply (linked_follows hparse hc hfilled hvalues hlinked).mono
                · intro a _ t ht
                  exact ⟨rfl, ht⟩
                · exact fun _ => id
              apply Builder.Follows.bind hnext
              rintro a b t ⟨rfl, ht⟩
              apply ih
              rw [List.map_append]
              exact ht
      · intro _
        exact closeItems_follows closing hgood hbad

theorem parseItems_follows (hparse : Parses alloc m p none child)
    (h : Represents mem f) (hc : c ∈ f.nodes)
    (hblank : Blank mem f c name) (opening closing : UInt8) (type : Nat)
    (htype : type &&& cJSONIsReference = 0) :
    Builder.Follows alloc.Generous (parseItems alloc opening closing type m c)
      (CJson.parseItems opening closing p) mem
      (fun items _ mem' => Loop mem f c type name (items.map child) mem')
        (Left mem f c) := by
  apply Builder.Follows.read _ (Left.refl h c)
  intro d
  apply Builder.Follows.ite
  · intro _
    exact Builder.Follows.fail (Left.refl h c)
  · intro _
    rcases hblank.record h hc with ⟨r, hr, hvaluestring, hname, hchild, _⟩
    rcases store_builds (g := fun r => { r with type := type }) h hc hr rfl
      ⟨rfl, rfl, rfl⟩ htype with ⟨mem₁, hrun, hbuilds, hvalues⟩
    have hvalues₁ : valuesOf mem₁ c = some (type, r.valueint, r.valuedouble,
      none, name) := by
      rw [hvalues]
      show some (type, r.valueint, r.valuedouble,
        r.valuestring.bind (textAt mem), r.string.bind (textAt mem)) = _
      rw [hvaluestring, hname]
      rfl
    have hbad : Left mem f c mem₁ := ⟨f, hbuilds⟩
    have hfilled : Filled mem f c [] mem₁ f :=
      ⟨hbuilds, [], Hangs.nil hblank.kids, rfl⟩
    apply Builder.Follows.act hrun
    apply Builder.Follows.read _ hbad
    intro _
    apply Builder.Follows.read _ hbad
    intro _
    apply Builder.Follows.read _ hbad
    intro e
    apply Builder.Follows.ite
    · intro _
      exact Builder.Follows.return (Builder.Follows.scan (fun _ =>
        ⟨f, hfilled, r.valueint, r.valuedouble, hvalues₁⟩) hbad)
    · intro _
      cases hanswer : alloc.answer mem₁ with
      | none =>
          have hnew : alloc.cJSONNewItem mem₁ = some (none, mem₁) := by
            rw [cJSONNewItem_apply, hanswer]
            rfl
          rcases recordAt_of_child (hbuilds.represents.held.first c hc) with
            ⟨s, hs, hnone⟩
          rw [hblank.kids] at hnone
          have hstore : storeItem c (fun s => { s with child := none }) mem₁ =
            some ((), mem₁) := by
            have hsame : ({ s with child := none } : Record double) = s := by
              have hchild : s.child = none := hnone
              rw [← hchild]
            rw [storeItem_apply hs]
            show some ((), Function.update mem₁ c
              (some (.item { s with child := none }))) = _
            rw [hsame, ← recordAt_eq_some hs, Function.update_eq_self]
          apply Builder.Follows.act hnew
          apply Builder.Follows.act hstore
          exact Builder.Follows.full (not_generous hbuilds.represents hanswer) hbad
      | some x =>
          rcases new_linked hbuilds.represents hc
            (alloc.fresh mem₁ x hanswer) with
            ⟨mem₂, mem₃, f₃, hrun₂, hlinked, hfirst, _⟩
          have hnew : alloc.cJSONNewItem mem₁ = some (some x, mem₂) := by
            rw [cJSONNewItem_apply, hanswer]
            exact hrun₂
          apply Builder.Follows.act hnew
          apply Builder.Follows.act (hfirst hblank.kids)
          apply Builder.Follows.bind
            (linked_follows hparse hc hfilled hvalues₁ hlinked)
          intro a _ t ht
          exact Builder.Follows.length (f := fun n =>
            itemsLoop alloc closing m n x) (g := fun n =>
            CJson.itemsLoop closing p n [a])
            (fun n => itemsLoop_follows hparse hc closing n [a] x t ht)

end Items

section Values

variable {m : Nat -> Build double Unit} {p : Parse (Item double)}

omit [CDouble double] in
theorem parseElement_parses
    (hvalue : Parses alloc m p none (fun item => (none, item))) :
    Parses alloc (parseElement m) (CJson.parseElement p) none
      (fun item => (none, item)) := by
  intro mem f c h hc hblank
  apply Builder.Follows.bind (hvalue mem f c h hc hblank)
  intro item _ mem' hbuilt
  apply Builder.Follows.return
  apply Builder.Follows.scan (fun _ => hbuilt)
  rcases hbuilt with ⟨f', _, hbuilds, _⟩
  exact ⟨f', hbuilds⟩

omit [CDouble double] in
theorem parseMember_parses (stack : Stack)
    (hvalue : forall name, Parses alloc m p name (fun item => (name, item))) :
    Parses alloc (parseMember alloc stack m) (CJson.parseMember stack p) none
      (fun member => (some member.1, member.2)) := by
  intro mem f c h hc hblank
  apply Builder.Follows.bind (parseString_follows stack h hc hblank)
  rintro text _ mem₁ ⟨hbuilds, valueint, valuedouble, hvalues⟩
  have h₁ := hbuilds.represents
  have hbad₁ : Left mem f c mem₁ := ⟨f, hbuilds⟩
  -- The text becomes the name.
  rcases recordAt_of_child (h₁.held.first c hc) with ⟨r, hr, _⟩
  rw [valuesOf_record hr] at hvalues
  have heq := Option.some.inj hvalues
  simp only [Prod.mk.injEq] at heq
  rcases heq with ⟨_, _, _, hvaluestring, hstring⟩
  have hnone : r.string = none := pointer_none h₁ hc hr
    (List.subset_append_right _ _) hstring
  have hstrings :
      stringsOf { r with string := r.valuestring, valuestring := none } =
    stringsOf r := by
    show [] ++ r.valuestring.toList = r.valuestring.toList ++ r.string.toList
    rw [hnone]
    exact (List.append_nil _).symm
  rcases store_builds (g := fun r =>
    { r with string := r.valuestring, valuestring := none }) h₁ hc hr hstrings
    ⟨rfl, rfl, rfl⟩
    (h₁.held.owner c r hc hr) with ⟨mem₂, hrun, hbuilds₂, hvalues₂⟩
  have hall : Builds mem f c mem₂ f := hbuilds.trans hbuilds₂ (Or.inl rfl)
  have hbad₂ : Left mem f c mem₂ := ⟨f, hall⟩
  have hnamed : Blank mem₂ f c (some text) := by
    refine ⟨hblank.kids, r.type, r.valueint, r.valuedouble, ?_⟩
    rw [hvalues₂]
    show some (r.type, r.valueint, r.valuedouble, none,
      r.valuestring.bind (textAt mem₁)) = _
    rw [hvaluestring]
  apply Builder.Follows.read _ hbad₁
  intro _
  apply Builder.Follows.act hrun
  apply Builder.Follows.read _ hbad₂
  intro d
  apply Builder.Follows.ite
  · intro _
    exact Builder.Follows.fail hbad₂
  · intro _
    apply Builder.Follows.read _ hbad₂
    intro _
    apply Builder.Follows.read _ hbad₂
    intro _
    have hfollows : Builder.Follows alloc.Generous (m c) p mem₂
        (fun item _ mem' => Built mem f c (some text, item) mem') (Left mem f c) :=
      (hvalue (some text) mem₂ f c hbuilds₂.represents hc hnamed).mono
        (fun _ _ _ hbuilt => hbuilt.after hall)
        (fun _ hleft => hleft.after hall (Or.inl rfl))
    apply Builder.Follows.bind hfollows
    intro item _ mem₃ hbuilt
    apply Builder.Follows.return
    apply Builder.Follows.scan (fun _ => hbuilt)
    rcases hbuilt with ⟨f', _, hbuilds₃, _⟩
    exact ⟨f', hbuilds₃⟩

theorem parseArray_parses (hvalue : forall name,
    Parses alloc m p name (fun item => (name, item))) (name : Option (List UInt8)) :
    Parses alloc (parseArray alloc m) (CJson.parseArray p) name
      (fun item => (name, item)) := by
  intro mem f c h hc hblank
  apply Builder.Follows.return
  apply (parseItems_follows (parseElement_parses (hvalue none)) h hc hblank
    lbracket rbracket cJSONArray rfl).mono
  · rintro items _ mem' ⟨f', hfilled, valueint, valuedouble, hvalues⟩
    apply hfilled.built hvalues
    show some (Item.array ((items.map (fun item => (none, item))).map Prod.snd)) = _
    rw [List.map_map]
    exact congrArg (fun l => some (Item.array l)) (List.map_id items)
  · exact fun _ => id

theorem parseObject_parses (stack : Stack)
    (hvalue : forall name, Parses alloc m p name (fun item => (name, item)))
    (name : Option (List UInt8)) : Parses alloc (parseObject alloc stack m)
    (CJson.parseObject stack p) name (fun item => (name, item)) := by
  intro mem f c h hc hblank
  apply Builder.Follows.return
  apply (parseItems_follows (parseMember_parses stack hvalue) h hc hblank lbrace
    rbrace cJSONObject rfl).mono
  · rintro members _ mem' ⟨f', hfilled, valueint, valuedouble, hvalues⟩
    apply hfilled.built hvalues
    show (namedAll (members.map (fun member => (some member.1, member.2)))).map
      Item.object = _
    rw [namedAll_map]
    rfl
  · exact fun _ => id

end Values

theorem parseValue_parses (stack : Stack) (depth : Nat) :
    forall name, Parses alloc (parseValue alloc stack depth)
    (CJson.parseValue stack depth : Parse (Item double)) name
    (fun item => (name, item)) := by
  induction depth with
  | zero =>
      intro name mem f c _ _ _
      exact Builder.Follows.undefined _
  | succ depth ih =>
      intro name mem f c h hc hblank
      have hbad : Left mem f c mem := Left.refl h c
      apply Builder.Follows.read _ hbad
      intro _
      apply Builder.Follows.ite
      · intro _
        exact store_follows h hc hblank (fun _ => ⟨rfl, rfl, rfl⟩)
          (fun _ => ⟨rfl, rfl⟩) (fun _ => rfl) rfl (fun _ => rfl)
      · intro _
        apply Builder.Follows.read _ hbad
        intro _
        apply Builder.Follows.ite
        · intro _
          exact store_follows h hc hblank (fun _ => ⟨rfl, rfl, rfl⟩)
            (fun _ => ⟨rfl, rfl⟩) (fun _ => rfl) rfl (fun _ => rfl)
        · intro _
          apply Builder.Follows.read _ hbad
          intro _
          apply Builder.Follows.ite
          · intro _
            exact store_follows h hc hblank (fun _ => ⟨rfl, rfl, rfl⟩)
              (fun _ => ⟨rfl, rfl⟩) (fun _ => rfl) rfl (fun _ => rfl)
          · intro _
            apply Builder.Follows.read _ hbad
            intro _
            apply Builder.Follows.ite
            · intro _
              apply Builder.Follows.return
              apply (parseString_follows stack h hc hblank).mono
              · rintro text _ mem' ⟨hbuilds, valueint, valuedouble, hvalues⟩
                exact leaf_built hbuilds hblank.kids hvalues rfl
              · exact fun _ => id
            · intro _
              apply Builder.Follows.ite
              · intro _
                exact parseNumber_parses name mem f c h hc hblank
              · intro _
                apply Builder.Follows.ite
                · intro _
                  exact parseArray_parses ih name mem f c h hc hblank
                · intro _
                  apply Builder.Follows.ite
                  · intro _
                    exact parseObject_parses stack ih name mem f c h hc hblank
                  · intro _
                    exact Builder.Follows.fail hbad

end Parsers

/-!
# Roots
-/

theorem Builds.trees (hts : f.trees.Perm (.node p [] :: ts))
    (h : Builds mem f p mem' f') (hroots : us.map RoseTree.root = f'.kids p)
    (hbelow : forall u, u ∈ us -> RoseTree.Below f'.kids u) :
    Trees mem' (.node p us :: ts) ∧ SameValues mem mem' ts := by
  have hnodup := items_nodup hts
  rw [List.flatMap_cons, RoseTree.items_node] at hnodup
  have hne : forall t b, t ∈ ts -> b ∈ t.items -> b ≠ p := by
    intro t b ht hb heq
    apply (List.nodup_cons.mp hnodup).left
    exact List.mem_append_right _ (List.mem_flatMap.mpr ⟨t, ht, heq ▸ hb⟩)
  have hmem : forall t b, t ∈ ts -> b ∈ t.items -> b ∈ f.nodes :=
    fun t b ht hb => mem_nodes_of hts (List.mem_cons_of_mem _ ht) hb
  constructor
  · have hold : f.roots.Perm (p :: ts.map RoseTree.root) := roots_perm_of hts
    refine ⟨f', h.represents, trees_perm_of ?_ (h.roots.trans hold)⟩
    intro t ht
    rcases List.mem_cons.mp ht with rfl | ht
    · exact .node hroots hbelow
    · exact (below_of hts (List.mem_cons_of_mem _ ht)).congr (fun b hb =>
        h.kids b (hmem t b ht hb) (hne t b ht hb))
  · intro t b ht hb
    exact h.values b (hmem t b ht hb) (hne t b ht hb)

theorem Left.trees (hts : f.trees.Perm (.node p [] :: ts)) (h : Left mem f p mem') :
    exists us, Trees mem' (.node p us :: ts) ∧ SameValues mem mem' ts := by
  rcases h with ⟨f', hbuilds⟩
  have hroot : p ∈ f'.roots :=
    (hbuilds.roots.trans (roots_perm_of hts)).mem_iff.mpr List.mem_cons_self
  rcases Forest.tree_of_root hroot with ⟨t, ht, htp⟩
  cases t with
  | node y us =>
      have hy : y = p := htp
      rw [hy] at ht
      have hbelow := (f'.below _ ht).children
      exact ⟨us, hbuilds.trees hts hbelow.left hbelow.right⟩

/-!
# Refused allocations
-/

section Refusals

variable {alloc : Allocator double}

open Classical in
noncomputable def Allocator.anyFree (double : Type) : Allocator double where
  answer mem := if h : exists p, mem p = none then some h.choose else none
  fresh := by
    intro mem p hp
    split at hp
    · next h =>
        cases hp
        exact h.choose_spec
    · cases hp

noncomputable def Allocator.filled (alloc : Allocator double) :
  Allocator double where
  answer mem := (alloc.answer mem).or ((Allocator.anyFree double).answer mem)
  fresh := by
    intro mem p hp
    rcases Option.or_eq_some_iff.mp hp with hp | ⟨_, hp⟩
    · exact alloc.fresh mem p hp
    · exact (Allocator.anyFree double).fresh mem p hp

/-- The other one gives the same blocks, and may give one where this one refuses. -/
def Allocator.Extends (alloc alloc' : Allocator double) : Prop :=
  forall mem p, alloc.answer mem = some p -> alloc'.answer mem = some p

/--
An allocation of the call was refused: with one that gives blocks where this one
refuses, and answers as this one does where it gives them, the call does
something else.
-/
def Refused {value : Type} (call : Allocator double -> Nat -> Routine double value)
    (alloc : Allocator double) (mem : Memory double) : Prop :=
  exists alloc' r, alloc.Extends alloc' ∧ Settles (call alloc') mem r ∧
    ¬ Settles (call alloc) mem r

end Refusals

section Stream

variable [CDouble double] {alloc : Allocator double}

variable (alloc) in
/--
How a text is parsed. There is a new tree that shows what the text says; or
there is none, since the text says nothing or since there was no memory for it,
and all that was allocated is given back; or the parser leaves the text.
-/
theorem parse_trees (h : Trees mem ts) (stack : Stack) (text : List UInt8) :
    (exists item rest t mem', CJson.cJSONParseStream stack text = .ok item rest ∧
        Gives (fun fuel => cJSONParseStream alloc fuel stack text) mem
          (some t.root, rest) mem' ∧
        Trees mem' (t :: ts) ∧ SameValues mem mem' ts ∧ shown mem' t =
          some (none, item)) ∨
      (exists rest mem',
        ((CJson.cJSONParseStream stack : Parse (Item double)) text =
        .null rest ∨ ¬ alloc.Generous) ∧
        Gives (fun fuel => cJSONParseStream alloc fuel stack text) mem
          (none, rest) mem' ∧
        Trees mem' ts ∧ SameValues mem mem' ts) ∨
      exists reason, (CJson.cJSONParseStream stack : Parse (Item double)) text =
        .fault reason ∧
        Fails (fun fuel => cJSONParseStream alloc fuel stack text) mem := by
  cases hanswer : alloc.answer mem with
  | none =>
      refine Or.inr (Or.inl ⟨text, mem, Or.inr ?_, ?_, h, SameValues.refl mem ts⟩)
      · rcases h with ⟨f, hrep, _⟩
        exact not_generous hrep hanswer
      · have hnew : alloc.cJSONNewItem mem = some (none, mem) := by
          rw [cJSONNewItem_apply, hanswer]
          rfl
        exact Settles.bind (Settles.of hnew) (Settles.of rfl)
  | some p =>
      have hp := alloc.fresh mem p hanswer
      rcases h with ⟨f, hrep, hts⟩
      rcases newItem_created hrep (show 0 &&& cJSONIsReference = 0 from rfl)
        hp with ⟨mem₁, f₁, hrun, hrep₁, hbecomes, hvalues⟩
      rcases created_trees hrep hts hp hrep₁ hbecomes with
        ⟨⟨f₂, hrep₂, hts₂⟩, hsame⟩
      have hnew : alloc.cJSONNewItem mem = some (some p, mem₁) := by
        rw [cJSONNewItem_apply, hanswer]
        exact hrun
      have hblank : Blank mem₁ f₂ p none := by
        refine ⟨?_, 0, 0, CDouble.ofInt 0, hvalues⟩
        exact (below_of hts₂ List.mem_cons_self).children.left.symm
      have hmem : p ∈ f₂.nodes := mem_nodes_of hts₂ List.mem_cons_self
        (RoseTree.root_mem_items (.node p []))
      have hfollows : Builder.Follows alloc.Generous (parseText alloc stack p)
          (CJson.cJSONParseStream stack) mem₁
          (fun item _ mem' => Built mem₁ f₂ p (none, item) mem')
            (Left mem₁ f₂ p) := by
        apply Builder.Follows.read _ (Left.refl hrep₂ p)
        intro _
        exact Builder.Follows.length (f := fun n => parseValue alloc stack n p)
          (g := fun n => CJson.parseValue stack n)
          (fun n => parseValue_parses stack n none mem₁ f₂ p hrep₂ hmem hblank)
      have hmatches := hfollows text
      have hundone : forall {rest mem₂}, parseText alloc stack p text mem₁ =
          some ((none, rest), mem₂) -> Left mem₁ f₂ p mem₂ ->
          exists mem', Gives (fun fuel =>
            cJSONParseStream alloc fuel stack text) mem (none, rest) mem' ∧
            Trees mem' ts ∧
            SameValues mem mem' ts := by
        intro rest mem₂ hparse hleft
        rcases hleft.trees hts₂ with ⟨us, htrees, hsame₂⟩
        rcases delete_trees htrees with ⟨mem', hdelete, htrees', hsame'⟩
        refine ⟨mem', ?_, htrees', hsame.trans (hsame₂.trans hsame')⟩
        apply Settles.bind (Settles.of hnew)
        apply Settles.bind (Settles.of hparse)
        exact Settles.bind hdelete (Settles.of rfl)
      generalize hr : parseText alloc stack p text mem₁ = r, ho :
        (CJson.cJSONParseStream stack : Parse (Item double)) text = o at hmatches
      cases hmatches with
      | ok hbuilt =>
          rcases hbuilt with ⟨f', us, hbuilds, hhangs, hshown⟩
          rcases hbuilds.trees hts₂ hhangs.roots hhangs.below with ⟨htrees, hsame₂⟩
          refine Or.inl ⟨_, _, .node p us, _, rfl, ?_, htrees,
            hsame.trans hsame₂, hshown⟩
          apply Settles.bind (Settles.of hnew)
          apply Settles.bind (Settles.of hr)
          exact Settles.of rfl
      | null hleft =>
          rcases hundone hr hleft with ⟨mem', hgives, htrees, hsame'⟩
          exact Or.inr (Or.inl ⟨_, mem', Or.inl rfl, hgives, htrees, hsame'⟩)
      | fault =>
          refine Or.inr (Or.inr ⟨_, rfl, ?_⟩)
          apply Settles.bind (Settles.of hnew)
          exact Settles.bind_none (Settles.of hr)
      | full hfull hleft =>
          rcases hundone hr hleft with ⟨mem', hgives, htrees, hsame'⟩
          exact Or.inr (Or.inl ⟨_, mem', Or.inr hfull, hgives, htrees, hsame'⟩)

theorem cJSONParseStream_stable (stack : Stack) (text : List UInt8) :
    Stable (fun fuel => cJSONParseStream alloc fuel stack text) := by
  intro fuel
  apply (Agrees.refl alloc.cJSONNewItem).bind
  intro root
  cases root with
  | none => exact Agrees.refl _
  | some c =>
      apply (Agrees.refl (parseText alloc stack c text)).bind
      intro r
      exact Agrees.ite (Agrees.refl _)
        ((cJSONDelete_stable (some c) fuel).bind (fun _ => Agrees.refl _))

omit [CDouble double] in
theorem Trees.used (h : Trees mem ts) (p : Nat) :
    (mem p).isSome <-> p ∈ blocksAll mem (ts.flatMap RoseTree.items) := by
  rcases h with ⟨f, hrep, hts⟩
  have hperm : (blocksAll mem f.nodes).Perm
      (blocksAll mem (ts.flatMap RoseTree.items)) :=
    (nodes_perm_of hts).flatMap_right (blocks mem)
  rw [← hperm.mem_iff]
  exact ⟨hrep.all p, hrep.held.used p⟩

end Stream

section Free

end Free

end Heap
end CJson
end Lepd
