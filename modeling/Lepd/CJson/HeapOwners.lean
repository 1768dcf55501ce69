import Lepd.CJson.HeapLists
import Lepd.Foundation.Grafts
import Mathlib.Data.List.Flatten
import Mathlib.Data.List.Pairwise

/-!
# Who owns the items in memory

The items in use are in trees, and each block belongs to one item. This is what
the functions keep, and it is what makes it right to give back a whole tree.
-/

namespace Lepd
namespace CJson
namespace Heap

open Foundation

variable {double : Type} {mem mem' : Memory double}

/-- Trees of items, with the lists of children that they are made of. -/
structure Forest where
  kids : Nat -> List Nat
  trees : List (RoseTree Nat)
  below : forall t, t ∈ trees -> RoseTree.Below kids t
  nodup : (trees.flatMap RoseTree.items).Nodup

namespace Forest

def nodes (f : Forest) : List Nat :=
  f.trees.flatMap RoseTree.items

def roots (f : Forest) : List Nat :=
  f.trees.map RoseTree.root

variable {f : Forest} {a b c p x : Nat}

theorem nodes_perm (f : Forest) :
    f.nodes.Perm (f.roots ++ f.nodes.flatMap f.kids) :=
  RoseTree.items_perm_all f.below

theorem places_nodup (f : Forest) : (f.roots ++ f.nodes.flatMap f.kids).Nodup :=
  f.nodes_perm.nodup_iff.mp f.nodup

theorem root_mem_nodes (h : x ∈ f.roots) : x ∈ f.nodes :=
  f.nodes_perm.mem_iff.mpr (List.mem_append_left _ h)

theorem kid_mem_nodes (ha : a ∈ f.nodes) (hp : p ∈ f.kids a) : p ∈ f.nodes :=
  f.nodes_perm.mem_iff.mpr (List.mem_append_right _
    (List.mem_flatMap.mpr ⟨a, ha, hp⟩))

theorem kids_nodup (ha : a ∈ f.nodes) : (f.kids a).Nodup :=
  (List.nodup_flatMap.mp (List.nodup_append.mp f.places_nodup).right.left).left a ha

theorem kid_not_root (ha : a ∈ f.nodes) (hp : p ∈ f.kids a) : p ∉ f.roots := by
  intro hroot
  exact (List.nodup_append.mp f.places_nodup).right.right p hroot p
    (List.mem_flatMap.mpr ⟨a, ha, hp⟩) rfl

theorem roots_nodup (f : Forest) : f.roots.Nodup :=
  (List.nodup_append.mp f.places_nodup).left

theorem kid_of_one (ha : a ∈ f.nodes) (hb : b ∈ f.nodes) (hp : p ∈ f.kids a)
    (hp' : p ∈ f.kids b) : a = b := by
  by_contra hne
  have hflat := (List.nodup_append.mp f.places_nodup).right.left
  have hpair := (List.nodup_flatMap.mp hflat).right
  have hsymm : Std.Symm (Function.onFun List.Disjoint f.kids) :=
    ⟨fun _ _ h _ hp hp' => h hp' hp⟩
  exact hpair.forall ha hb hne hp hp'

theorem kids_length (ha : a ∈ f.nodes) : (f.kids a).length <= f.nodes.length :=
  (List.subperm_of_subset (kids_nodup ha)
    (fun _ hp => kid_mem_nodes ha hp)).length_le

theorem tree_of_root (hx : x ∈ f.roots) : exists t, t ∈ f.trees ∧ t.root = x :=
  List.mem_map.mp hx

/-- The forest with another part of one list of children: the old part becomes
roots, and the new part was. -/
theorem splice {rest : List (RoseTree Nat)} (f : Forest) (front back : List Nat)
    (old new : List (RoseTree Nat)) (htrees : f.trees.Perm (new ++ rest))
    (ha : a ∈ rest.flatMap RoseTree.items)
    (hkids : f.kids a = front ++ (old.map RoseTree.root ++ back))
    (hold : forall t, t ∈ old -> RoseTree.Below f.kids t) :
    exists f' : Forest, f'.kids = Function.update f.kids a
      (front ++ (new.map RoseTree.root ++ back)) ∧
      f'.roots.Perm (old.map RoseTree.root ++ rest.map RoseTree.root) ∧
        f'.nodes.Perm f.nodes ∧ old ⊆ f'.trees := by
  have hperm : f.nodes.Perm (new.flatMap RoseTree.items ++
    rest.flatMap RoseTree.items) := by
    rw [← List.flatMap_append]
    exact htrees.flatMap_right RoseTree.items
  have hnodup := hperm.nodup_iff.mp f.nodup
  rcases List.mem_flatMap.mp ha with ⟨t, ht, hat⟩
  rcases List.append_of_mem ht with ⟨ls, rs, rfl⟩
  rw [List.flatMap_append, List.flatMap_cons] at hnodup hperm
  have hmem : forall u, u ∈ new ++ (ls ++ t :: rs) -> u ∈ f.trees :=
    fun u hu => htrees.mem_iff.mpr hu
  have hrest := List.nodup_append.mp hnodup
  have hright := List.nodup_append.mp hrest.right.left
  have htree := List.nodup_append.mp hright.right.left
  have hnew : forall n, n ∈ new -> RoseTree.Below f.kids n ∧ a ∉ n.items := by
    intro n hn
    refine ⟨f.below n (hmem n (List.mem_append_left _ hn)), ?_⟩
    intro han
    exact hrest.right.right a (List.mem_flatMap.mpr ⟨n, hn, han⟩) a
      (List.mem_append_right _ (List.mem_append_left _ hat)) rfl
  have hbelow :=
    f.below t
      (hmem t (List.mem_append_right _
    (List.mem_append_right _ List.mem_cons_self)))
  rcases RoseTree.splice hkids hold hnew hbelow htree.left hat with
    ⟨t', hroot, ht', hat', hsplice⟩
  have hall :
      (old.flatMap RoseTree.items ++
    (ls.flatMap RoseTree.items ++ (t'.items ++ rs.flatMap RoseTree.items))).Perm
    f.nodes := by
    refine List.Perm.trans ?_ hperm.symm
    rw [List.perm_iff_count] at hsplice ⊢
    intro y
    have hy := hsplice y
    simp only [List.count_append] at hy ⊢
    omega
  have hnodup' : (t'.items ++ old.flatMap RoseTree.items).Nodup := by
    apply List.perm_append_comm.nodup_iff.mpr
    have h := hall.nodup_iff.mpr f.nodup
    rw [List.nodup_append] at h ⊢
    refine ⟨h.left,
      (List.nodup_append.mp
      (List.nodup_append.mp h.right.left).right.left).left, ?_⟩
    intro y hy z hz
    exact h.right.right y hy z (List.mem_append_right _ (List.mem_append_left _ hz))
  have haway : forall u, u ∈ ls ∨ u ∈ rs -> a ∉ u.items := by
    intro u hu hau
    rcases hu with hu | hu
    · exact hright.right.right a (List.mem_flatMap.mpr ⟨u, hu, hau⟩) a
        (List.mem_append_left _ hat) rfl
    · exact htree.right.right a hat a (List.mem_flatMap.mpr ⟨u, hu, hau⟩) rfl
  refine ⟨⟨Function.update f.kids a (front ++ (new.map RoseTree.root ++ back)),
    old ++ (ls ++ t' :: rs), ?_, ?_⟩, rfl, ?_, ?_,
    fun u hu => List.mem_append_left _ hu⟩
  · intro u hu
    rcases List.mem_append.mp hu with hu | hu
    · apply (hold u hu).update
      intro hau
      exact (List.nodup_append.mp hnodup').right.right a hat' a
        (List.mem_flatMap.mpr ⟨u, hu, hau⟩) rfl
    · rcases List.mem_append.mp hu with hu | hu
      · exact (f.below u
          (hmem u (List.mem_append_right _ (List.mem_append_left _ hu)))).update
          (haway u (Or.inl hu)) _
      · rcases List.mem_cons.mp hu with rfl | hu
        · exact ht'
        · exact (f.below u
            (hmem u (List.mem_append_right _
            (List.mem_append_right _ (List.mem_cons_of_mem t hu))))).update
            (haway u (Or.inr hu)) _
  · rw [List.flatMap_append, List.flatMap_append, List.flatMap_cons]
    exact hall.nodup_iff.mpr f.nodup
  · show ((old ++ (ls ++ t' :: rs)).map RoseTree.root).Perm _
    rw [List.map_append, List.map_append, List.map_append, List.map_cons,
      List.map_cons, hroot]
  · show ((old ++ (ls ++ t' :: rs)).flatMap RoseTree.items).Perm _
    rw [List.flatMap_append, List.flatMap_append, List.flatMap_cons]
    exact hall

end Forest

/-!
# Blocks
-/

/-- The texts of an item. -/
def strings (mem : Memory double) (p : Nat) : List Nat :=
  match recordAt mem p with
  | none => []
  | some r => r.valuestring.toList ++ r.string.toList

/-- What has to be given back with an item. -/
def blocks (mem : Memory double) (p : Nat) : List Nat :=
  p :: strings mem p

/-- The blocks of items. -/
def blocksAll (mem : Memory double) (nodes : List Nat) : List Nat :=
  nodes.flatMap (blocks mem)

theorem recordAt_content {p : Nat} (h : content mem' p = content mem p)
    {r : Record double} (hr : recordAt mem p = some r) :
    exists r', recordAt mem' p = some r' ∧ r'.type = r.type ∧ r'.valuestring =
      r.valuestring ∧ r'.string = r.string := by
  unfold content at h
  rw [recordAt_eq_some hr] at h
  cases hcell : mem' p with
  | none =>
      rw [hcell] at h
      cases h
  | some cell =>
      rw [hcell] at h
      cases cell with
      | text chars => cases h
      | item r' =>
          refine ⟨r', ?_, ?_⟩
          · unfold recordAt
            rw [hcell]
          · have heq := Cell.item.inj (Option.some.inj h)
            rw [Record.mk.injEq] at heq
            exact ⟨heq.right.right.right.left, heq.right.right.right.right.left,
              heq.right.right.right.right.right.right.right⟩

theorem strings_content {p : Nat} (h : content mem' p = content mem p) :
    strings mem' p = strings mem p := by
  unfold strings
  cases hr : recordAt mem p with
  | some r =>
      rcases recordAt_content h hr with ⟨r', hr', _, hvaluestring, hstring⟩
      rw [hr']
      show r'.valuestring.toList ++ r'.string.toList = r.valuestring.toList ++
        r.string.toList
      rw [hvaluestring, hstring]
  | none =>
      cases hr' : recordAt mem' p with
      | none => rfl
      | some r' =>
          rcases recordAt_content h.symm hr' with ⟨r, hsome, _⟩
          rw [hr] at hsome
          cases hsome

theorem textAt_content {p : Nat} (h : content mem' p = content mem p) :
    textAt mem' p = textAt mem p := by
  unfold content at h
  unfold textAt
  cases hcell : mem p with
  | none =>
      rw [hcell] at h
      cases hcell' : mem' p with
      | none => rfl
      | some cell =>
          rw [hcell'] at h
          cases cell <;> cases h
  | some cell =>
      rw [hcell] at h
      cases hcell' : mem' p with
      | none =>
          rw [hcell'] at h
          cases cell <;> cases h
      | some cell' =>
          rw [hcell'] at h
          cases cell with
          | item r =>
              cases cell' with
              | item r' => rfl
              | text chars' => cases h
          | text chars =>
              cases cell' with
              | item r' => cases h
              | text chars' =>
                  cases h
                  rfl

theorem isSome_content {p : Nat} (h : content mem' p = content mem p) :
    (mem' p).isSome = (mem p).isSome := by
  have hall : forall m : Memory double, (m p).isSome = (content m p).isSome := by
    intro m
    unfold content
    cases m p with
    | none => rfl
    | some cell => cases cell <;> rfl
  rw [hall mem', hall mem, h]

theorem blocksAll_content (h : content mem' = content mem) (nodes : List Nat) :
    blocksAll mem' nodes = blocksAll mem nodes := by
  unfold blocksAll blocks
  apply List.flatMap_congr
  intro p _
  rw [strings_content (congrFun h p)]

def valuesOf (mem : Memory double) (p : Nat) :
    Option (Nat × Int × double × Option (List UInt8) × Option (List UInt8)) :=
  (recordAt mem p).map (fun r =>
    (r.type, r.valueint, r.valuedouble, r.valuestring.bind (textAt mem),
    r.string.bind (textAt mem)))

theorem valuesOf_content (h : content mem' = content mem) (p : Nat) :
    valuesOf mem' p = valuesOf mem p := by
  have htext : textAt mem' = textAt mem :=
    funext (fun q => textAt_content (congrFun h q))
  have hcell := congrFun h p
  unfold content at hcell
  unfold valuesOf recordAt
  rw [htext]
  cases hm : mem p with
  | none =>
      rw [hm] at hcell
      cases hm' : mem' p with
      | none => rfl
      | some cell' =>
          rw [hm'] at hcell
          cases cell' <;> cases hcell
  | some cell =>
      rw [hm] at hcell
      cases hm' : mem' p with
      | none =>
          rw [hm'] at hcell
          cases cell <;> cases hcell
      | some cell' =>
          rw [hm'] at hcell
          cases cell with
          | item r =>
              cases cell' with
              | item r' =>
                  have heq := Cell.item.inj (Option.some.inj hcell)
                  rw [Record.mk.injEq] at heq
                  rcases heq with ⟨_, _, _, htype, hvaluestring, hvalueint,
                    hvaluedouble, hstring⟩
                  simp only [Option.map_some, htype, hvaluestring, hvalueint,
                    hvaluedouble, hstring]
              | text chars' => cases hcell
          | text chars =>
              cases cell' with
              | item r' => cases hcell
              | text chars' => rfl

theorem valuesOf_congr {p : Nat} (h : forall q, q ∈ blocks mem p ->
    mem' q = mem q) : valuesOf mem' p = valuesOf mem p := by
  have hp : recordAt mem' p = recordAt mem p := by
    unfold recordAt
    rw [h p List.mem_cons_self]
  unfold valuesOf
  rw [hp]
  cases hr : recordAt mem p with
  | none => rfl
  | some r =>
      have hstring : forall o : Option Nat, o.toList ⊆ strings mem p ->
          o.bind (textAt mem') = o.bind (textAt mem) := by
        intro o ho
        cases o with
        | none => rfl
        | some q =>
            show textAt mem' q = textAt mem q
            unfold textAt
            rw [h q (List.mem_cons_of_mem p (ho List.mem_cons_self))]
      have hstrings : strings mem p = r.valuestring.toList ++ r.string.toList := by
        unfold strings
        rw [hr]
      rw [Option.map_some, Option.map_some,
        hstring r.valuestring (hstrings ▸ List.subset_append_left _ _),
        hstring r.string (hstrings ▸ List.subset_append_right _ _)]

/-!
# Giving back
-/

def without (mem : Memory double) (ps : List Nat) : Memory double :=
  fun p => if p ∈ ps then none else mem p

theorem without_nil (mem : Memory double) : without mem [] = mem := by
  funext p
  exact if_neg List.not_mem_nil

theorem without_without (mem : Memory double) (ps qs : List Nat) :
    without (without mem ps) qs = without mem (ps ++ qs) := by
  funext p
  unfold without
  by_cases hp : p ∈ ps
  · by_cases hq : p ∈ qs
    · rw [if_pos hq, if_pos (List.mem_append_left qs hp)]
    · rw [if_neg hq, if_pos hp, if_pos (List.mem_append_left qs hp)]
  · by_cases hq : p ∈ qs
    · rw [if_pos hq, if_pos (List.mem_append_right ps hq)]
    · rw [if_neg hq, if_neg hp, if_neg (fun h => (List.mem_append.mp h).elim hp hq)]

theorem without_of_not_mem {p : Nat} {ps : List Nat} (h : p ∉ ps) :
    without mem ps p = mem p :=
  if_neg h

theorem without_perm {ps qs : List Nat} (h : ps.Perm qs) :
    without mem ps = without mem qs := by
  funext p
  unfold without
  simp only [h.mem_iff]

theorem free_apply {p : Nat} (h : (mem p).isSome) :
    free p mem = some ((), without mem [p]) := by
  unfold free
  rw [if_pos h]
  congr 2
  funext q
  unfold without
  by_cases hq : q = p
  · rw [hq, Function.update_self, if_pos (List.mem_singleton.mpr rfl)]
  · rw [Function.update_of_ne hq, if_neg (fun h => hq (List.mem_singleton.mp h))]

theorem freeAll_apply {o : Option Nat}
    (h : forall p, p ∈ o.toList -> (mem p).isSome) :
    freeAll o mem = some ((), without mem o.toList) := by
  cases o with
  | none =>
      show some ((), mem) = some ((), without mem [])
      rw [without_nil]
  | some p => exact free_apply (h p List.mem_cons_self)

structure Held (mem : Memory double) (kids : Nat -> List Nat)
    (ts : List (RoseTree Nat)) : Prop where
  below : forall t, t ∈ ts -> RoseTree.Below kids t
  first : forall a, a ∈ ts.flatMap RoseTree.items ->
    childOf mem a = some (kids a).head?
  segment : forall a, a ∈ ts.flatMap RoseTree.items ->
    Segment (linksOf mem) none (kids a) none
  owner : forall a r, a ∈ ts.flatMap RoseTree.items -> recordAt mem a =
    some r -> r.type &&& cJSONIsReference = 0
  once : (blocksAll mem (ts.flatMap RoseTree.items)).Nodup
  used : forall p, p ∈ blocksAll mem (ts.flatMap RoseTree.items) -> (mem p).isSome

theorem mem_blocksAll {nodes : List Nat} {a : Nat} (h : a ∈ nodes) :
    a ∈ blocksAll mem nodes :=
  List.mem_flatMap.mpr ⟨a, h, List.mem_cons_self⟩

theorem strings_subset {nodes : List Nat} {a : Nat} (h : a ∈ nodes) :
    strings mem a ⊆ blocksAll mem nodes :=
  fun _ hp => List.mem_flatMap.mpr ⟨a, h, List.mem_cons_of_mem a hp⟩

theorem recordAt_congr {p : Nat} (h : mem' p = mem p) :
    recordAt mem' p = recordAt mem p := by
  unfold recordAt
  rw [h]

theorem textAt_congr {p : Nat} (h : mem' p = mem p) :
    textAt mem' p = textAt mem p := by
  unfold textAt
  rw [h]

theorem strings_congr {p : Nat} (h : mem' p = mem p) :
    strings mem' p = strings mem p := by
  unfold strings
  rw [recordAt_congr h]

theorem linksOf_congr {p : Nat} (h : mem' p = mem p) :
    linksOf mem' p = linksOf mem p := by
  unfold linksOf
  rw [recordAt_congr h]

theorem childOf_congr {p : Nat} (h : mem' p = mem p) :
    childOf mem' p = childOf mem p := by
  unfold childOf
  rw [recordAt_congr h]

theorem blocksAll_congr {nodes : List Nat}
    (h : forall a, a ∈ nodes -> mem' a = mem a) :
    blocksAll mem' nodes = blocksAll mem nodes := by
  unfold blocksAll blocks
  apply List.flatMap_congr
  intro a ha
  rw [strings_congr (h a ha)]

theorem kid_mem_items {kids : Nat -> List Nat} {ts : List (RoseTree Nat)}
    (h : forall t, t ∈ ts -> RoseTree.Below kids t)
    {a p : Nat} (ha : a ∈ ts.flatMap RoseTree.items) (hp : p ∈ kids a) :
    p ∈ ts.flatMap RoseTree.items :=
  (RoseTree.items_perm_all h).mem_iff.mpr
    (List.mem_append_right _ (List.mem_flatMap.mpr ⟨a, ha, hp⟩))

theorem Held.congr {kids : Nat -> List Nat} {ts : List (RoseTree Nat)}
    (h : Held mem kids ts)
    (hsame : forall p, p ∈ blocksAll mem (ts.flatMap RoseTree.items) ->
    mem' p = mem p) : Held mem' kids ts := by
  have hnodes : forall a, a ∈ ts.flatMap RoseTree.items -> mem' a = mem a :=
    fun a ha => hsame a (mem_blocksAll ha)
  refine ⟨h.below, ?_, ?_, ?_, ?_, ?_⟩
  · intro a ha
    rw [childOf_congr (hnodes a ha), h.first a ha]
  · intro a ha
    apply (h.segment a ha).congr
    intro p hp
    exact linksOf_congr (hnodes p (kid_mem_items h.below ha hp))
  · intro a r ha hr
    rw [recordAt_congr (hnodes a ha)] at hr
    exact h.owner a r ha hr
  · rw [blocksAll_congr hnodes]
    exact h.once
  · intro p hp
    rw [blocksAll_congr hnodes] at hp
    rw [hsame p hp]
    exact h.used p hp

theorem Held.sub {kids : Nat -> List Nat} {ts us : List (RoseTree Nat)}
    (h : Held mem kids ts)
    (hbelow : forall t, t ∈ us -> RoseTree.Below kids t)
    (hsub : (us.flatMap RoseTree.items).Sublist (ts.flatMap RoseTree.items)) :
    Held mem kids us where
  below := hbelow
  first a ha := h.first a (hsub.subset ha)
  segment a ha := h.segment a (hsub.subset ha)
  owner a r ha := h.owner a r (hsub.subset ha)
  once := h.once.sublist (hsub.flatMap (blocks mem))
  used p hp := h.used p ((hsub.flatMap (blocks mem)).subset hp)

theorem Held.perm {kids : Nat -> List Nat} {ts us : List (RoseTree Nat)}
    (h : Held mem kids ts) (hperm : ts.Perm us) :
    Held mem kids us := by
  have hitems := hperm.flatMap_right RoseTree.items
  have hblocks := hitems.flatMap_right (blocks mem)
  exact {
    below := fun t ht => h.below t (hperm.mem_iff.mpr ht)
    first := fun a ha => h.first a (hitems.mem_iff.mpr ha)
    segment := fun a ha => h.segment a (hitems.mem_iff.mpr ha)
    owner := fun a r ha => h.owner a r (hitems.mem_iff.mpr ha)
    once := hblocks.nodup_iff.mp h.once
    used := fun p hp => h.used p (hblocks.mem_iff.mpr hp) }

/-- The texts of an item and the item itself are given back, and what is done
then finds the rest of memory. -/
theorem giveBack_apply {r : Record double} {c : Nat}
    (howner : r.type &&& cJSONIsReference = 0)
    (honce : (c :: (r.valuestring.toList ++ r.string.toList)).Nodup)
    (hused : forall p, p ∈ c :: (r.valuestring.toList ++ r.string.toList) ->
    (mem p).isSome) (rest : Routine double Unit) :
    (do
      if r.type &&& cJSONIsReference = 0 then freeAll r.valuestring
      freeAll r.string
      free c
      rest : Routine double Unit) mem =
        rest (without mem (r.valuestring.toList ++ r.string.toList ++ [c])) := by
  rcases List.nodup_cons.mp honce with ⟨hc, hstrings⟩
  have hdisjoint := (List.nodup_append.mp hstrings).right.right
  have hvaluestring : freeAll r.valuestring mem =
      some ((), without mem r.valuestring.toList) :=
    freeAll_apply (fun p hp =>
      hused p (List.mem_cons_of_mem c (List.mem_append_left _ hp)))
  have hstring : freeAll r.string (without mem r.valuestring.toList) =
      some ((), without mem (r.valuestring.toList ++ r.string.toList)) := by
    rw [← without_without]
    apply freeAll_apply
    intro p hp
    rw [without_of_not_mem (fun hp' => hdisjoint p hp' p hp rfl)]
    exact hused p (List.mem_cons_of_mem c (List.mem_append_right _ hp))
  have hitem : free c (without mem (r.valuestring.toList ++ r.string.toList)) =
      some ((), without mem (r.valuestring.toList ++ r.string.toList ++ [c])) := by
    rw [← without_without mem _ [c]]
    apply free_apply
    rw [without_of_not_mem hc]
    exact hused c List.mem_cons_self
  show (if r.type &&& cJSONIsReference = 0 then (_ : Routine double Unit)
    else _) mem = _
  rw [if_pos howner, Program.bind_apply, hvaluestring]
  show (freeAll r.string >>= _) (without mem r.valuestring.toList) = _
  rw [Program.bind_apply, hstring]
  show (free c >>= _) (without mem (r.valuestring.toList ++ r.string.toList)) = _
  rw [Program.bind_apply, hitem]
  rfl

theorem deleteFrom_none {fuel : Nat} :
    deleteFrom fuel none mem = some ((), without mem []) := by
  rw [without_nil]
  cases fuel <;> rfl

/-- The first tree of a list: its root, the trees below it, and the trees behind
it. -/
theorem Held.cons {kids : Nat -> List Nat} {c : Nat}
    {us ts : List (RoseTree Nat)} (h : Held mem kids (.node c us :: ts)) :
    exists r, (recordAt mem c = some r ∧
      r.child = (us.map RoseTree.root).head? ∧ r.type &&& cJSONIsReference = 0) ∧
      us.map RoseTree.root = kids c ∧ Held mem kids us ∧ Held mem kids ts ∧
      blocksAll mem ((RoseTree.node c us :: ts).flatMap RoseTree.items) =
        c :: (r.valuestring.toList ++ r.string.toList) ++
          (blocksAll mem (us.flatMap RoseTree.items) ++
            blocksAll mem (ts.flatMap RoseTree.items)) := by
  have hitems : (RoseTree.node c us :: ts).flatMap RoseTree.items =
      c :: (us.flatMap RoseTree.items ++ ts.flatMap RoseTree.items) := by
    rw [List.flatMap_cons, RoseTree.items_node]
    rfl
  have hc : c ∈ (RoseTree.node c us :: ts).flatMap RoseTree.items := by
    rw [hitems]
    exact List.mem_cons_self
  have hnode := (h.below _ List.mem_cons_self).children
  rcases recordAt_of_child (h.first c hc) with ⟨r, hr, hchild⟩
  refine ⟨r, ⟨hr, ?_, h.owner c r hc hr⟩, hnode.left, h.sub hnode.right ?_,
    h.sub (fun t ht => h.below t (List.mem_cons_of_mem _ ht)) ?_, ?_⟩
  · rw [hchild, hnode.left]
  · rw [hitems]
    exact (List.sublist_append_left _ _).cons c
  · rw [hitems]
    exact (List.sublist_append_right _ _).cons c
  · unfold blocksAll
    rw [hitems, List.flatMap_cons, List.flatMap_append]
    unfold blocks strings
    rw [hr]

/-- `cJSON_Delete` gives back all blocks of a list of trees, each once, and no
other block. -/
theorem deleteFrom_apply {kids : Nat -> List Nat} (fuel : Nat) :
    forall (mem : Memory double) (prev : Option Nat)
    (ts : List (RoseTree Nat)), Held mem kids ts -> Segment (linksOf mem) prev
    (ts.map RoseTree.root) none ->
      (ts.flatMap RoseTree.items).length <= fuel ->
        deleteFrom fuel (ts.map RoseTree.root).head? mem =
          some ((), without mem (blocksAll mem (ts.flatMap RoseTree.items))) := by
  induction fuel with
  | zero =>
      intro mem prev ts hheld hsegment hfuel
      cases ts with
      | nil => exact deleteFrom_none
      | cons t ts =>
          have hmem : t.root ∈ (t :: ts).flatMap RoseTree.items :=
            List.mem_flatMap.mpr ⟨t, List.mem_cons_self, RoseTree.root_mem_items t⟩
          rw [List.length_eq_zero_iff.mp (Nat.le_zero.mp hfuel)] at hmem
          cases hmem
  | succ fuel ih =>
      intro mem prev ts hheld hsegment hfuel
      cases ts with
      | nil => exact deleteFrom_none
      | cons t ts =>
          cases t with
          | node c us =>
              rcases hheld.cons with
                ⟨r, ⟨hr, hchild, howner⟩, hroots, hheldUs, hheldTs, hblocks⟩
              have hnext : r.next = (ts.map RoseTree.root).head? := by
                rcases recordAt_of_links hsegment.left with ⟨r', hr', hnext, _⟩
                have hr'' : recordAt mem c = some r' := hr'
                rw [hr] at hr''
                cases hr''
                exact hnext.trans Option.or_none
              have hsegmentUs : Segment (linksOf mem) none
                  (us.map RoseTree.root) none := by
                rw [hroots]
                exact hheld.segment c
                  (List.mem_flatMap.mpr ⟨_, List.mem_cons_self,
                  RoseTree.root_mem_items _⟩)
              have hlength :
                  ((RoseTree.node c us :: ts).flatMap RoseTree.items).length =
                  (us.flatMap RoseTree.items).length + 1 +
                    (ts.flatMap RoseTree.items).length := by
                rw [List.flatMap_cons, List.length_append, RoseTree.items_node,
                  List.length_cons]
              have honce := hheld.once
              rw [hblocks] at honce
              rcases List.nodup_append.mp honce with ⟨hown, hothers, hapart⟩
              have hapart' := (List.nodup_append.mp hothers).right.right
              -- First the children.
              have hchildren := ih mem none us hheldUs hsegmentUs (by omega)
              let mem₁ := without mem (blocksAll mem (us.flatMap RoseTree.items))
              have hkept₁ : forall p, p ∈ c ::
                  (r.valuestring.toList ++ r.string.toList) -> (mem₁ p).isSome := by
                intro p hp
                have hp' : p ∈ blocksAll mem
                    ((RoseTree.node c us :: ts).flatMap RoseTree.items) := by
                  rw [hblocks]
                  exact List.mem_append_left _ hp
                show (without mem _ p).isSome
                rw [without_of_not_mem (fun hpu =>
                  hapart p hp p (List.mem_append_left _ hpu) rfl)]
                exact hheld.used p hp'
              -- Then the item, and at last the items behind it.
              let mem₂ :=
                without mem₁ (r.valuestring.toList ++ r.string.toList ++ [c])
              have hgone : forall p, p ∈ r.valuestring.toList ++
                  r.string.toList ++ [c] <->
                  p ∈ c :: (r.valuestring.toList ++ r.string.toList) := by
                intro p
                rw [List.mem_append, List.mem_singleton, List.mem_cons, or_comm]
              have hkept₂ : forall p,
                  p ∈ blocksAll mem (ts.flatMap RoseTree.items) ->
                  mem₂ p = mem p := by
                intro p hp
                show without mem₁ _ p = _
                rw [without_of_not_mem (fun hpc =>
                  hapart p ((hgone p).mp hpc) p (List.mem_append_right _ hp) rfl)]
                exact without_of_not_mem (fun hpu => hapart' p hpu p hp rfl)
              have hnodes₂ : forall a, a ∈ ts.flatMap RoseTree.items ->
                  mem₂ a = mem a :=
                fun a ha => hkept₂ a (mem_blocksAll ha)
              have hsegment₂ : Segment (linksOf mem₂) (some c)
                  (ts.map RoseTree.root) none := by
                apply hsegment.right.congr
                intro p hp
                rcases List.mem_map.mp hp with ⟨t, ht, rfl⟩
                exact linksOf_congr
                  (hnodes₂ _ (List.mem_flatMap.mpr
                  ⟨t, ht, RoseTree.root_mem_items t⟩))
              have hrest := ih mem₂ (some c) ts (hheldTs.congr hkept₂) hsegment₂
                (by omega)
              rw [blocksAll_congr hnodes₂] at hrest
              show deleteFrom (fuel + 1) (some c) mem = _
              rw [deleteFrom, Program.bind_apply, readItem_apply hr]
              show (if r.type &&& cJSONIsReference = 0 then
                (_ : Routine double Unit) else _) mem = _
              rw [if_pos howner, hchild, Program.bind_apply, hchildren]
              show (do
                if r.type &&& cJSONIsReference = 0 then freeAll r.valuestring
                freeAll r.string
                free c
                deleteFrom fuel r.next : Routine double Unit) mem₁ = _
              rw [giveBack_apply howner hown hkept₁, hnext]
              show deleteFrom fuel _ mem₂ = _
              rw [hrest, hblocks]
              show some ((), without (without (without _ _) _) _) = _
              rw [without_without, without_without]
              congr 2
              apply without_perm
              rw [List.perm_iff_count]
              intro p
              simp only [List.count_append, List.count_cons, List.count_nil]
              omega

end Heap
end CJson
end Lepd
