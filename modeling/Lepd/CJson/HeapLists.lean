import Lepd.CJson.Heap

/-!
# Lists of items in memory

The children of an item are a doubly linked list. The functions for arrays and
objects change nothing but the links of one list, and what they make of it is
told by the list before.
-/

namespace Lepd
namespace CJson
namespace Heap

open Foundation
open JsonRpc (cJSONStrcasecmp)

variable {double : Type}

/-!
# Three views of memory
-/

def linksOf (mem : Memory double) : Links Nat :=
  fun p => (recordAt mem p).map (fun r => (r.next, r.prev))

def childOf (mem : Memory double) (p : Nat) : Option (Option Nat) :=
  (recordAt mem p).map Record.child

/-- A block without its links. -/
def content (mem : Memory double) (p : Nat) : Option (Cell double) :=
  match mem p with
  | some (.item r) =>
      some (.item { r with next := none, prev := none, child := none })
  | cell => cell

variable {mem mem' : Memory double} {p c a x : Nat} {l : List Nat} {fuel : Nat}

theorem recordAt_of_links {pair : Option Nat × Option Nat}
    (h : linksOf mem p = some pair) :
    exists r, recordAt mem p = some r ∧ r.next = pair.1 ∧ r.prev = pair.2 := by
  rcases Option.map_eq_some_iff.mp h with ⟨r, hr, hpair⟩
  exact ⟨r, hr, congrArg Prod.fst hpair, congrArg Prod.snd hpair⟩

theorem recordAt_of_child {o : Option Nat} (h : childOf mem p = some o) :
    exists r, recordAt mem p = some r ∧ r.child = o :=
  Option.map_eq_some_iff.mp h

theorem readItem_apply {r : Record double} (h : recordAt mem p = some r) :
    readItem p mem = some (r, mem) := by
  unfold readItem
  rw [h]
  rfl

theorem recordAt_eq_some {r : Record double} (h : recordAt mem p = some r) :
    mem p = some (.item r) := by
  unfold recordAt at h
  split at h
  · next hmem =>
      cases h
      exact hmem
  · cases h

theorem recordAt_update {cell : Option (Cell double)} {q : Nat} (h : q ≠ p) :
    recordAt (Function.update mem p cell) q = recordAt mem q := by
  unfold recordAt
  rw [Function.update_of_ne h]

theorem recordAt_item (r : Record double) :
    recordAt (Function.update mem p (some (.item r))) p = some r := by
  unfold recordAt
  rw [Function.update_self]

theorem content_update {cell : Option (Cell double)} {q : Nat} (h : q ≠ p) :
    content (Function.update mem p cell) q = content mem q := by
  unfold content
  rw [Function.update_of_ne h]

theorem storeItem_apply {r : Record double} (h : recordAt mem p = some r)
    (f : Record double -> Record double) :
    storeItem p f mem = some ((), Function.update mem p (some (.item (f r)))) := by
  unfold storeItem
  rw [h]
  rfl

theorem content_store {r : Record double} (h : recordAt mem p = some r)
    {s : Record double}
    (hs : { s with next := none, prev := none, child := none } =
    { r with next := none, prev := none, child := none }) :
    content (Function.update mem p (some (.item s))) = content mem := by
  funext q
  by_cases hq : q = p
  · subst hq
    unfold content
    rw [Function.update_self, recordAt_eq_some h]
    exact congrArg (fun t => some (Cell.item t)) hs
  · exact content_update hq

theorem storeNext_apply {pair : Option Nat × Option Nat}
    (h : linksOf mem p = some pair) (v : Option Nat) :
    exists mem', storeItem p (fun r => { r with next := v }) mem = some ((), mem') ∧
      linksOf mem' = (linksOf mem).setNext p v ∧ childOf mem' = childOf mem ∧
        content mem' = content mem := by
  rcases recordAt_of_links h with ⟨r, hr, _, _⟩
  refine ⟨_, storeItem_apply hr _, ?_, ?_, content_store hr rfl⟩
  · funext q
    by_cases hq : q = p
    · subst hq
      rw [Links.setNext_self]
      unfold linksOf
      rw [recordAt_item, hr]
      rfl
    · rw [Links.setNext_ne hq]
      unfold linksOf
      rw [recordAt_update hq]
  · funext q
    unfold childOf
    by_cases hq : q = p
    · subst hq
      rw [recordAt_item, hr]
      rfl
    · rw [recordAt_update hq]

theorem storePrev_apply {pair : Option Nat × Option Nat}
    (h : linksOf mem p = some pair) (v : Option Nat) :
    exists mem', storeItem p (fun r => { r with prev := v }) mem = some ((), mem') ∧
      linksOf mem' = (linksOf mem).setPrev p v ∧ childOf mem' = childOf mem ∧
        content mem' = content mem := by
  rcases recordAt_of_links h with ⟨r, hr, _, _⟩
  refine ⟨_, storeItem_apply hr _, ?_, ?_, content_store hr rfl⟩
  · funext q
    by_cases hq : q = p
    · subst hq
      rw [Links.setPrev_self]
      unfold linksOf
      rw [recordAt_item, hr]
      rfl
    · rw [Links.setPrev_ne hq]
      unfold linksOf
      rw [recordAt_update hq]
  · funext q
    unfold childOf
    by_cases hq : q = p
    · subst hq
      rw [recordAt_item, hr]
      rfl
    · rw [recordAt_update hq]

theorem storeChild_apply {o : Option Nat} (h : childOf mem p = some o)
    (v : Option Nat) :
    exists mem', storeItem p (fun r => { r with child := v }) mem =
      some ((), mem') ∧
      linksOf mem' = linksOf mem ∧ childOf mem' =
        Function.update (childOf mem) p (some v) ∧
      content mem' = content mem := by
  rcases recordAt_of_child h with ⟨r, hr, _⟩
  refine ⟨_, storeItem_apply hr _, ?_, ?_, content_store hr rfl⟩
  · funext q
    unfold linksOf
    by_cases hq : q = p
    · subst hq
      rw [recordAt_item, hr]
      rfl
    · rw [recordAt_update hq]
  · funext q
    by_cases hq : q = p
    · subst hq
      rw [Function.update_self]
      unfold childOf
      rw [recordAt_item]
      rfl
    · rw [Function.update_of_ne hq]
      unfold childOf
      rw [recordAt_update hq]

/-!
# Walking along a list
-/

theorem sizeFrom_apply {prev : Option Nat}
    (h : Segment (linksOf mem) prev l none) (i : Nat) : l.length <= fuel ->
    sizeFrom fuel l.head? i mem = some (i + l.length, mem) := by
  induction l generalizing fuel prev i with
  | nil =>
      intro _
      cases fuel <;> rfl
  | cons c l ih =>
      intro hfuel
      cases fuel with
      | zero => exact absurd hfuel (Nat.not_succ_le_zero _)
      | succ fuel =>
          rcases recordAt_of_links h.left with ⟨r, hr, hnext, _⟩
          rw [Option.or_none] at hnext
          rw [List.head?_cons, sizeFrom, Program.bind_apply, readItem_apply hr]
          show sizeFrom fuel r.next (i + 1) mem = _
          rw [hnext, ih h.right (i + 1) (Nat.le_of_succ_le_succ hfuel),
            List.length_cons, Nat.add_assoc, Nat.add_comm 1]

theorem itemFrom_apply {prev : Option Nat}
    (h : Segment (linksOf mem) prev l none) (which : Nat) : l.length <= fuel ->
    itemFrom fuel l.head? which mem = some (l[which]?, mem) := by
  induction l generalizing fuel prev which with
  | nil =>
      intro _
      cases fuel <;> rfl
  | cons c l ih =>
      intro hfuel
      cases fuel with
      | zero => exact absurd hfuel (Nat.not_succ_le_zero _)
      | succ fuel =>
          cases which with
          | zero => rfl
          | succ which =>
              rcases recordAt_of_links h.left with ⟨r, hr, hnext, _⟩
              rw [Option.or_none] at hnext
              rw [List.head?_cons, itemFrom, Program.bind_apply, readItem_apply hr]
              show itemFrom fuel r.next which mem = _
              rw [hnext, ih h.right which (Nat.le_of_succ_le_succ hfuel),
                List.getElem?_cons_succ]

theorem lastFrom_apply {prev : Option Nat} {front : List Nat} : forall {c : Nat},
    Segment (linksOf mem) prev (front ++ [c]) none -> (front ++ [c]).length <=
      fuel ->
      exists first, (front ++ [c]).head? = some first ∧
        lastFrom fuel first mem = some (c, mem) := by
  induction front generalizing fuel prev with
  | nil =>
      intro c h hfuel
      cases fuel with
      | zero => exact absurd hfuel (Nat.not_succ_le_zero _)
      | succ fuel =>
          rcases recordAt_of_links h.left with ⟨r, hr, hnext, _⟩
          have hnone : r.next = none := hnext
          refine ⟨c, rfl, ?_⟩
          rw [lastFrom, Program.bind_apply, readItem_apply hr]
          simp only [Option.bind_some, hnone]
          rfl
  | cons b front ih =>
      intro c h hfuel
      cases fuel with
      | zero => exact absurd hfuel (Nat.not_succ_le_zero _)
      | succ fuel =>
          rcases recordAt_of_links h.left with ⟨r, hr, hnext, _⟩
          rcases ih h.right (Nat.le_of_succ_le_succ hfuel) with
            ⟨first, hfirst, hlast⟩
          have hsome : r.next = some first := by
            have hhead : (front.append [c]).head? = some first := hfirst
            rw [hnext, hhead]
            rfl
          refine ⟨b, rfl, ?_⟩
          rw [lastFrom, Program.bind_apply, readItem_apply hr]
          simp only [Option.bind_some, hsome]
          exact hlast

/-- The item has a name that is the one looked for, but for the case of letters. -/
def Named (mem : Memory double) (string : List UInt8) (p : Nat) : Bool :=
  match recordAt mem p with
  | none => false
  | some r =>
      match r.string with
      | none => false
      | some q =>
          match textAt mem q with
          | none => false
          | some name => decide (cJSONStrcasecmp name string = 0)

def NameKept (mem : Memory double) (p : Nat) : Prop :=
  forall r q, recordAt mem p = some r -> r.string = some q -> (textAt mem q).isSome

theorem hasName_apply {r : Record double} (hr : recordAt mem p = some r)
    (hkept : NameKept mem p) (string : List UInt8) :
    hasName string r mem = some (Named mem string p, mem) := by
  unfold hasName Named
  rw [hr]
  cases hq : r.string with
  | none =>
      simp only [hq]
      rfl
  | some q =>
      rcases Option.isSome_iff_exists.mp (hkept r q hr hq) with ⟨name, hname⟩
      simp only [hq, hname]
      show (readText q >>= _) mem = _
      rw [Program.bind_apply]
      unfold readText
      rw [hname]
      rfl

theorem namedFrom_apply {prev : Option Nat} (string : List UInt8)
    (h : Segment (linksOf mem) prev l none) (i : Nat)
    (hkept : forall p, p ∈ l -> NameKept mem p) : l.length <= fuel ->
      namedFrom string fuel l.head? i mem =
        some ((l.find? (Named mem string), i + l.findIdx (Named mem string)),
          mem) := by
  induction l generalizing fuel prev i with
  | nil =>
      intro _
      cases fuel <;> rfl
  | cons c l ih =>
      intro hfuel
      cases fuel with
      | zero => exact absurd hfuel (Nat.not_succ_le_zero _)
      | succ fuel =>
          rcases recordAt_of_links h.left with ⟨r, hr, hnext, _⟩
          rw [Option.or_none] at hnext
          rw [List.head?_cons, namedFrom, Program.bind_apply, readItem_apply hr]
          show (hasName string r >>= _) mem = _
          rw [Program.bind_apply, hasName_apply hr (hkept c List.mem_cons_self)]
          show (if Named mem string c = true then
            (_ : Routine double (Option Nat × Nat)) else _) mem = _
          cases hnamed : Named mem string c with
          | true =>
              rw [if_pos rfl, List.find?_cons_of_pos hnamed, List.findIdx_cons,
                hnamed]
              rfl
          | false =>
              have hrest := ih h.right (i + 1) (fun p hp =>
                hkept p (List.mem_cons_of_mem c hp))
                (Nat.le_of_succ_le_succ hfuel)
              rw [if_neg (by decide),
                List.find?_cons_of_neg (by rw [hnamed]; decide),
                List.findIdx_cons, hnamed, hnext,
                hrest, Nat.add_assoc, Nat.add_comm 1]
              rfl

/-!
# Another list of children
-/

/-- The children of `a` are `l`, and no link has changed but those of `touched`. -/
structure Relinked (mem mem' : Memory double) (a : Nat) (touched l : List Nat) :
    Prop where
  content : content mem' = content mem
  children : childOf mem' = Function.update (childOf mem) a (some l.head?)
  links : forall p, p ∉ touched -> linksOf mem' p = linksOf mem p
  segment : Segment (linksOf mem') none l none

structure ListOf (mem : Memory double) (a : Nat) (l : List Nat) : Prop where
  first : childOf mem a = some l.head?
  segment : Segment (linksOf mem) none l none
  nodup : l.Nodup

def Alone (mem : Memory double) (x : Nat) : Prop :=
  linksOf mem x = some (none, none)

theorem addItemToArray_relinked (hl : ListOf mem a l) (hx : Alone mem x)
    (hxl : x ∉ l) (hfuel : l.length <= fuel) :
    exists mem', cJSONAddItemToArray fuel a (some x) mem = some ((), mem') ∧
      Relinked mem mem' a (l ++ [x]) (l ++ [x]) := by
  rcases recordAt_of_child hl.first with ⟨r, hr, hchild⟩
  have hrun : cJSONAddItemToArray fuel a (some x) mem =
      (match r.child with
        | none => storeItem a (fun r => { r with child := some x })
        | some c => do
            let last <- lastFrom fuel c
            suffixObject last x : Routine double Unit) mem := by
    unfold cJSONAddItemToArray
    rw [Program.bind_apply, readItem_apply hr]
    rfl
  rw [hrun, hchild]
  rcases List.eq_nil_or_concat' l with rfl | ⟨front, c, rfl⟩
  · rcases storeChild_apply hl.first (some x) with
      ⟨mem', hstore, hlinks, hchildren, hcontent⟩
    refine ⟨mem', hstore, hcontent, hchildren, fun p _ => congrFun hlinks p, ?_,
      trivial⟩
    rw [hlinks]
    exact hx
  · rcases lastFrom_apply hl.segment hfuel with ⟨first, hfirst, hlast⟩
    have hc : c ∉ front := fun hc =>
      (List.nodup_append.mp hl.nodup).right.right c hc c List.mem_cons_self rfl
    have hxc : x ≠ c := fun heq =>
      hxl (List.mem_append_right front (List.mem_singleton.mpr heq))
    have hxf : x ∉ front := fun hmem => hxl (List.mem_append_left [c] hmem)
    rcases storeNext_apply hl.segment.middle (some x) with
      ⟨mem₁, hstore₁, hlinks₁, hchildren₁, hcontent₁⟩
    have hx₁ : linksOf mem₁ x = some (none, none) := by
      rw [hlinks₁, Links.setNext_ne hxc]
      exact hx
    rcases storePrev_apply hx₁ (some c) with
      ⟨mem₂, hstore₂, hlinks₂, hchildren₂, hcontent₂⟩
    rw [hfirst]
    refine ⟨mem₂, ?_, hcontent₂.trans hcontent₁, ?_, ?_, ?_⟩
    · show (lastFrom fuel first >>= _) mem = _
      rw [Program.bind_apply, hlast]
      show (storeItem c _ >>= _) mem = _
      rw [Program.bind_apply, hstore₁]
      exact hstore₂
    · have hhead : ((front ++ [c]) ++ [x]).head? = (front ++ [c]).head? := by
        cases front <;> rfl
      rw [hchildren₂, hchildren₁, hhead]
      exact (Function.update_eq_self_iff.mpr hl.first.symm).symm
    · intro p hp
      have hpx : p ≠ x := fun heq =>
        hp (List.mem_append_right _ (List.mem_singleton.mpr heq))
      have hpc : p ≠ c := fun heq =>
        hp (List.mem_append_left _ (List.mem_append_right _
        (List.mem_singleton.mpr heq)))
      rw [hlinks₂, Links.setPrev_ne hpx, hlinks₁, Links.setNext_ne hpc]
    · rw [hlinks₂]
      apply Segment.append
      · have hsegment : Segment (linksOf mem₁) none (front ++ [c]) (some x) := by
          rw [hlinks₁]
          exact hl.segment.setNext hc (some x)
        apply hsegment.congr
        intro p hp
        exact Links.setPrev_ne (show p ≠ x from fun heq => hxl (heq ▸ hp)) _
      · refine ⟨?_, trivial⟩
        rw [Links.setPrev_self, hx₁, List.getLast?_concat]
        rfl

theorem linkNext_apply {o : Option Nat}
    (h : forall p, o = some p -> exists pair, linksOf mem p = some pair)
    (v : Option Nat) : exists mem', linkNext o v mem = some ((), mem') ∧
    linksOf mem' = (linksOf mem).endNext o v ∧
      childOf mem' = childOf mem ∧ content mem' = content mem := by
  cases o with
  | none => exact ⟨mem, rfl, rfl, rfl, rfl⟩
  | some p =>
      rcases h p rfl with ⟨pair, hpair⟩
      exact storeNext_apply hpair v

theorem linkPrev_apply {o : Option Nat}
    (h : forall p, o = some p -> exists pair, linksOf mem p = some pair)
    (v : Option Nat) : exists mem', linkPrev o v mem = some ((), mem') ∧
    linksOf mem' = (linksOf mem).endPrev o v ∧
      childOf mem' = childOf mem ∧ content mem' = content mem := by
  cases o with
  | none => exact ⟨mem, rfl, rfl, rfl, rfl⟩
  | some p =>
      rcases h p rfl with ⟨pair, hpair⟩
      exact storePrev_apply hpair v

theorem isolate_apply {pair : Option Nat × Option Nat}
    (h : linksOf mem c = some pair) :
    exists mem', isolate c mem = some ((), mem') ∧ linksOf mem' =
      ((linksOf mem).setNext c none).setPrev c none ∧
      childOf mem' = childOf mem ∧ content mem' = content mem := by
  rcases storeNext_apply h none with ⟨mem₁, hstore₁, hlinks₁, hchildren₁, hcontent₁⟩
  have h₁ : linksOf mem₁ c = some (none, pair.2) := by
    rw [hlinks₁, Links.setNext_self, h]
    rfl
  rcases storePrev_apply h₁ none with
    ⟨mem₂, hstore₂, hlinks₂, hchildren₂, hcontent₂⟩
  refine ⟨mem₂, ?_, ?_, hchildren₂.trans hchildren₁, hcontent₂.trans hcontent₁⟩
  · unfold isolate
    rw [Program.bind_apply, hstore₁]
    exact hstore₂
  · rw [hlinks₂, hlinks₁]

section Middle

variable {front back : List Nat} (hl : ListOf mem a (front ++ c :: back))

include hl

theorem linkFirst_nil (hfront : front = [])
    (hmem : childOf mem' a = childOf mem a) (v : Option Nat) :
    exists mem'', linkFirst a c v mem' = some (true, mem'') ∧ linksOf mem'' =
      linksOf mem' ∧
      childOf mem'' = Function.update (childOf mem') a (some v) ∧
        content mem'' = content mem' := by
  have hfirst : childOf mem' a = some (some c) := by
    rw [hmem, hl.first, hfront]
    rfl
  rcases recordAt_of_child hfirst with ⟨r, hr, hchild⟩
  rcases storeChild_apply hfirst v with ⟨mem'', hstore, hrest⟩
  refine ⟨mem'', ?_, hrest⟩
  unfold linkFirst
  rw [Program.bind_apply, readItem_apply hr]
  show (if r.child = some c then (_ : Routine double Bool) else _) mem' = _
  rw [if_pos hchild, Program.bind_apply, hstore]
  rfl

theorem linkFirst_cons (hfront : front ≠ [])
    (hmem : childOf mem' a = childOf mem a) (v : Option Nat) :
    linkFirst a c v mem' = some (false, mem') := by
  rcases List.exists_cons_of_ne_nil hfront with ⟨b, front, rfl⟩
  have hfirst : childOf mem' a = some (some b) := by
    rw [hmem, hl.first]
    rfl
  have hne : b ≠ c := by
    have hb := (List.nodup_cons.mp hl.nodup).left
    exact fun heq => hb (List.mem_append_right _ (heq ▸ List.mem_cons_self))
  rcases recordAt_of_child hfirst with ⟨r, hr, hchild⟩
  unfold linkFirst
  rw [Program.bind_apply, readItem_apply hr]
  show (if r.child = some c then (_ : Routine double Bool) else _) mem' = _
  rw [if_neg (by rw [hchild]; exact fun h => hne (Option.some.inj h))]
  rfl

theorem middle_nodup : front.Nodup ∧ back.Nodup ∧ c ∉ front ∧ c ∉ back ∧
    List.Disjoint front back := by
  have h := List.nodup_append.mp hl.nodup
  have hback := List.nodup_cons.mp h.right.left
  refine ⟨h.left, hback.right, ?_, hback.left, ?_⟩
  · intro hc
    exact h.right.right c hc c List.mem_cons_self rfl
  · intro p hp hp'
    exact h.right.right p hp p (List.mem_cons_of_mem c hp') rfl

theorem last_linked : forall p, front.getLast? = some p -> exists pair,
    linksOf mem p = some pair := by
  intro p hp
  exact hl.segment.mem (List.mem_append_left _ (List.mem_of_getLast? hp))

theorem head_linked : forall p, back.head? = some p -> exists pair,
    linksOf mem p = some pair := by
  intro p hp
  exact hl.segment.mem (List.mem_append_right _
    (List.mem_cons_of_mem c (List.mem_of_head? hp)))

theorem unlink_relinked : exists mem', unlink a c mem = some ((), mem') ∧
    Relinked mem mem' a (front ++ c :: back) (front ++ back) ∧ Alone mem' c := by
  rcases middle_nodup hl with ⟨hfront, hback, hcf, hcb, hdisjoint⟩
  have hc : linksOf mem c = some (back.head?, front.getLast?) := by
    rw [hl.segment.middle, Option.or_none, Option.or_none]
  -- The neighbours are linked to each other.
  rcases linkNext_apply (last_linked hl) back.head? with
    ⟨mem₁, hstore₁, hlinks₁, hchildren₁, hcontent₁⟩
  have hc₁ : linksOf mem₁ c = some (back.head?, front.getLast?) := by
    rw [hlinks₁, Links.endNext_ne hcf, hc]
  have hlinked₁ : forall p, back.head? = some p -> exists pair, linksOf mem₁ p =
      some pair := by
    intro p hp
    rcases head_linked hl p hp with ⟨pair, hpair⟩
    refine ⟨pair, ?_⟩
    rw [hlinks₁, Links.endNext_ne (fun hpf =>
      hdisjoint hpf (List.mem_of_head? hp)), hpair]
  rcases linkPrev_apply hlinked₁ front.getLast? with
    ⟨mem₂, hstore₂, hlinks₂, hchildren₂, hcontent₂⟩
  have hc₂ : linksOf mem₂ c = some (back.head?, front.getLast?) := by
    rw [hlinks₂, Links.endPrev_ne hcb, hc₁]
  have hchildren₂' : childOf mem₂ = childOf mem := hchildren₂.trans hchildren₁
  -- The list may have another first item.
  have hfirst : exists b mem₃, linkFirst a c back.head? mem₂ = some (b, mem₃) ∧
      linksOf mem₃ = linksOf mem₂ ∧
      childOf mem₃ = Function.update (childOf mem) a
        (some (front ++ back).head?) ∧ content mem₃ = content mem₂ := by
    by_cases hnil : front = []
    · rcases linkFirst_nil hl hnil (congrFun hchildren₂' a) back.head? with
        ⟨mem₃, hstore, hlinks, hchildren, hcontent⟩
      refine ⟨true, mem₃, hstore, hlinks, ?_, hcontent⟩
      rw [hchildren, hchildren₂', hnil]
      rfl
    · refine ⟨false, mem₂, linkFirst_cons hl hnil (congrFun hchildren₂' a) _,
        rfl, ?_, rfl⟩
      rw [hchildren₂']
      symm
      apply Function.update_eq_self_iff.mpr
      rw [hl.first]
      rcases List.exists_cons_of_ne_nil hnil with ⟨b, rest, rfl⟩
      rfl
  rcases hfirst with ⟨b, mem₃, hstore₃, hlinks₃, hchildren₃, hcontent₃⟩
  have hc₃ : linksOf mem₃ c = some (back.head?, front.getLast?) := by
    rw [hlinks₃, hc₂]
  rcases isolate_apply hc₃ with ⟨mem₄, hstore₄, hlinks₄, hchildren₄, hcontent₄⟩
  have hlinks : forall p, p ≠ c -> linksOf mem₄ p =
      ((linksOf mem).endNext front.getLast? back.head?).endPrev back.head?
      front.getLast? p := by
    intro p hp
    rw [hlinks₄, Links.setPrev_ne hp, Links.setNext_ne hp, hlinks₃, hlinks₂,
      hlinks₁]
  refine ⟨mem₄, ?_, ⟨?_, ?_, ?_, ?_⟩, ?_⟩
  · rcases recordAt_of_links hc with ⟨r, hr, hnext, hprev⟩
    rcases recordAt_of_links hc₁ with ⟨r₁, hr₁, hnext₁, hprev₁⟩
    rcases recordAt_of_links hc₂ with ⟨r₂, hr₂, hnext₂, _⟩
    unfold unlink
    rw [Program.bind_apply, readItem_apply hr]
    show (linkNext r.prev r.next >>= _) mem = _
    rw [hnext, hprev, Program.bind_apply, hstore₁]
    show (readItem c >>= _) mem₁ = _
    rw [Program.bind_apply, readItem_apply hr₁]
    show (linkPrev r₁.next r₁.prev >>= _) mem₁ = _
    rw [hnext₁, hprev₁, Program.bind_apply, hstore₂]
    show (readItem c >>= _) mem₂ = _
    rw [Program.bind_apply, readItem_apply hr₂]
    show (linkFirst a c r₂.next >>= _) mem₂ = _
    rw [hnext₂, Program.bind_apply, hstore₃]
    exact hstore₄
  · rw [hcontent₄, hcontent₃, hcontent₂, hcontent₁]
  · rw [hchildren₄, hchildren₃]
  · intro p hp
    have hpf : p ∉ front := fun h => hp (List.mem_append_left _ h)
    have hpb : p ∉ back := fun h =>
      hp (List.mem_append_right _ (List.mem_cons_of_mem c h))
    have hpc : p ≠ c := fun h =>
      hp (List.mem_append_right _ (h ▸ List.mem_cons_self))
    rw [hlinks p hpc, Links.endPrev_ne hpb, Links.endNext_ne hpf]
  · apply Segment.append
    · have hhead : Segment ((linksOf mem).endNext front.getLast? back.head?)
          none front back.head? :=
        hl.segment.head.endNext hfront back.head?
      rw [Option.or_none]
      apply hhead.congr
      intro p hp
      rw [hlinks p (fun h => hcf (h ▸ hp)),
        Links.endPrev_ne (fun h => hdisjoint hp h)]
    · have hsegment : Segment (linksOf mem) (some c) back none :=
        hl.segment.tail.right
      have hends : Segment ((linksOf mem).endNext front.getLast? back.head?)
          (some c) back none :=
        hsegment.congr (fun p hp => Links.endNext_ne (fun h => hdisjoint h hp) _)
      have htail := hends.endPrev hback front.getLast?
      rw [Option.or_none]
      apply htail.congr
      intro p hp
      exact hlinks p (fun h => hcb (h ▸ hp))
  · show linksOf mem₄ c = _
    rw [hlinks₄, Links.setPrev_self, Links.setNext_self, hc₃]
    rfl

/-- The last store of the replacement: the list starts with the new item, or it
is linked from the one before it. -/
theorem linkNewFirst_apply {links : Links Nat} (hlinks : linksOf mem' = links)
    (hmem : childOf mem' a = childOf mem a)
    (hx : exists next, links x = some (next, front.getLast?))
    (hlast : forall p, front.getLast? = some p -> exists pair, links p =
    some pair) :
    exists mem'', (linkFirst a c (some x) >>= fun first => if first = false then
      linkBehind x else pure ()) mem' =
        some ((), mem'') ∧
      linksOf mem'' = links.endNext front.getLast? (some x) ∧
      childOf mem'' = Function.update (childOf mem') a
        (some (front ++ x :: back).head?) ∧ content mem'' = content mem' := by
  by_cases hnil : front = []
  · rcases linkFirst_nil hl hnil hmem (some x) with
      ⟨mem₁, hstore, hlinks₁, hchildren, hcontent⟩
    refine ⟨mem₁, ?_, ?_, ?_, hcontent⟩
    · rw [Program.bind_apply, hstore]
      rfl
    · rw [hlinks₁, hlinks, hnil]
      rfl
    · rw [hchildren, hnil]
      rfl
  · rcases List.eq_nil_or_concat' front with hnil' | ⟨before, p, hfront⟩
    · exact absurd hnil' hnil
    · have hp : front.getLast? = some p := by
        rw [hfront, List.getLast?_concat]
      rcases hx with ⟨next, hx⟩
      rw [← hlinks] at hx
      rcases recordAt_of_links hx with ⟨n, hn, _, hprev⟩
      rcases hlast p hp with ⟨pair, hpair⟩
      rw [← hlinks] at hpair
      rcases storeNext_apply hpair (some x) with
        ⟨mem₁, hstore, hlinks₁, hchildren, hcontent⟩
      refine ⟨mem₁, ?_, ?_, ?_, hcontent⟩
      · rw [Program.bind_apply, linkFirst_cons hl hnil hmem]
        show linkBehind x mem' = _
        unfold linkBehind
        rw [Program.bind_apply, readItem_apply hn]
        show (match n.prev with
          | none => StateT.lift none
          | some p =>
              storeItem p (fun s => { s with next := some x }) :
              Routine double Unit) mem' = _
        rw [hprev, hp]
        exact hstore
      · rw [hlinks₁, hlinks, hp]
        rfl
      · rw [hchildren]
        symm
        apply Function.update_eq_self_iff.mpr
        rw [hmem, hl.first]
        rcases List.exists_cons_of_ne_nil hnil with ⟨b, rest, rfl⟩
        rfl

theorem exchange_relinked (hx : Alone mem x) (hxl : x ∉ front ++ c :: back) :
    exists mem', exchange a c x mem = some ((), mem') ∧
    Relinked mem mem' a (front ++ c :: back ++ [x]) (front ++ x :: back) ∧
      Alone mem' c := by
  rcases middle_nodup hl with ⟨hfront, hback, hcf, hcb, hdisjoint⟩
  have hxf : x ∉ front := fun h => hxl (List.mem_append_left _ h)
  have hxb : x ∉ back := fun h =>
    hxl (List.mem_append_right _ (List.mem_cons_of_mem c h))
  have hxc : x ≠ c := fun h =>
    hxl (List.mem_append_right _ (h ▸ List.mem_cons_self))
  have hc : linksOf mem c = some (back.head?, front.getLast?) := by
    rw [hl.segment.middle, Option.or_none, Option.or_none]
  -- The new item is linked to the neighbours.
  rcases storeNext_apply hx back.head? with
    ⟨mem₁, hstore₁, hlinks₁, hchildren₁, hcontent₁⟩
  have hx₁ : linksOf mem₁ x = some (back.head?, none) := by
    rw [hlinks₁, Links.setNext_self, hx]
    rfl
  rcases storePrev_apply hx₁ front.getLast? with
    ⟨mem₂, hstore₂, hlinks₂, hchildren₂, hcontent₂⟩
  have hx₂ : linksOf mem₂ x = some (back.head?, front.getLast?) := by
    rw [hlinks₂, Links.setPrev_self, hx₁]
    rfl
  have hold₂ : forall p, p ≠ x -> linksOf mem₂ p = linksOf mem p := by
    intro p hp
    rw [hlinks₂, Links.setPrev_ne hp, hlinks₁, Links.setNext_ne hp]
  have hne : forall {l : List Nat} {p : Nat}, x ∉ l -> p ∈ l -> p ≠ x :=
    fun hxl hp heq => hxl (heq ▸ hp)
  -- The neighbours are linked to the new item.
  have hlinked₂ : forall p, back.head? = some p -> exists pair, linksOf mem₂ p =
      some pair := by
    intro p hp
    rcases head_linked hl p hp with ⟨pair, hpair⟩
    exact ⟨pair, by rw [hold₂ p (hne hxb (List.mem_of_head? hp)), hpair]⟩
  rcases linkPrev_apply hlinked₂ (some x) with
    ⟨mem₃, hstore₃, hlinks₃, hchildren₃, hcontent₃⟩
  have hchildren₃' : childOf mem₃ = childOf mem := by
    rw [hchildren₃, hchildren₂, hchildren₁]
  have hx₃ : exists next, linksOf mem₃ x = some (next, front.getLast?) := by
    refine ⟨back.head?, ?_⟩
    rw [hlinks₃, Links.endPrev_ne hxb, hx₂]
  have hlast₃ : forall p, front.getLast? = some p -> exists pair,
      linksOf mem₃ p = some pair := by
    intro p hp
    have hpf := List.mem_of_getLast? hp
    rcases last_linked hl p hp with ⟨pair, hpair⟩
    refine ⟨pair, ?_⟩
    rw [hlinks₃, Links.endPrev_ne (fun h => hdisjoint hpf h),
      hold₂ p (hne hxf hpf), hpair]
  rcases linkNewFirst_apply hl rfl (congrFun hchildren₃' a) hx₃ hlast₃ with
    ⟨mem₄, hstore₄, hlinks₄, hchildren₄, hcontent₄⟩
  have hc₄ : linksOf mem₄ c = some (back.head?, front.getLast?) := by
    rw [hlinks₄, Links.endNext_ne hcf, hlinks₃, Links.endPrev_ne hcb,
      hold₂ c (Ne.symm hxc), hc]
  rcases isolate_apply hc₄ with ⟨mem₅, hstore₅, hlinks₅, hchildren₅, hcontent₅⟩
  have hlinks : forall p, p ≠ c -> linksOf mem₅ p =
      ((linksOf mem₂).endPrev back.head? (some x)).endNext front.getLast?
        (some x) p := by
    intro p hp
    rw [hlinks₅, Links.setPrev_ne hp, Links.setNext_ne hp, hlinks₄, hlinks₃]
  refine ⟨mem₅, ?_, ⟨?_, ?_, ?_, ?_⟩, ?_⟩
  · rcases recordAt_of_links hc with ⟨r, hr, hnext, hprev⟩
    rcases recordAt_of_links hx₂ with ⟨n, hn, hnnext, _⟩
    unfold exchange
    rw [Program.bind_apply, readItem_apply hr]
    show (storeItem x (fun s => { s with next := r.next }) >>= _) mem = _
    rw [hnext, Program.bind_apply, hstore₁]
    show (storeItem x (fun s => { s with prev := r.prev }) >>= _) mem₁ = _
    rw [hprev, Program.bind_apply, hstore₂]
    show (readItem x >>= _) mem₂ = _
    rw [Program.bind_apply, readItem_apply hn]
    show (linkPrev n.next (some x) >>= _) mem₂ = _
    rw [hnnext, Program.bind_apply, hstore₃]
    rcases Program.bind_eq_some hstore₄ with ⟨first, mem₃', hfirst, hrest⟩
    show (linkFirst a c (some x) >>= _) mem₃ = _
    rw [Program.bind_apply, hfirst]
    cases first with
    | true =>
        cases hrest
        exact hstore₅
    | false =>
        have hrest' : linkBehind x mem₃' = some ((), mem₄) := hrest
        show (linkBehind x >>= fun _ => isolate c) mem₃' = _
        rw [Program.bind_apply, hrest']
        exact hstore₅
  · rw [hcontent₅, hcontent₄, hcontent₃, hcontent₂, hcontent₁]
  · rw [hchildren₅, hchildren₄, hchildren₃']
  · intro p hp
    have hp' : p ∉ front ++ c :: back := fun h => hp (List.mem_append_left _ h)
    have hpx : p ≠ x := fun h =>
      hp (List.mem_append_right _ (List.mem_singleton.mpr h))
    have hpf : p ∉ front := fun h => hp' (List.mem_append_left _ h)
    have hpb : p ∉ back := fun h =>
      hp' (List.mem_append_right _ (List.mem_cons_of_mem c h))
    have hpc : p ≠ c := fun h =>
      hp' (List.mem_append_right _ (h ▸ List.mem_cons_self))
    rw [hlinks p hpc, Links.endNext_ne hpf, Links.endPrev_ne hpb, hold₂ p hpx]
  · apply Segment.append
    · have hsegment : Segment ((linksOf mem₂).endPrev back.head? (some x)) none
          front (some c) := by
        apply hl.segment.head.congr
        intro p hp
        rw [Links.endPrev_ne (fun h => hdisjoint hp h), hold₂ p (hne hxf hp)]
      apply (hsegment.endNext hfront (some x)).congr
      intro p hp
      exact hlinks p (fun h => hcf (h ▸ hp))
    · refine ⟨?_, ?_⟩
      · rw [hlinks x hxc, Links.endNext_ne hxf, Links.endPrev_ne hxb, hx₂,
          Option.or_none, Option.or_none]
      · have hsegment : Segment (linksOf mem₂) (some c) back none := by
          apply hl.segment.tail.right.congr
          intro p hp
          exact hold₂ p (hne hxb hp)
        apply (hsegment.endPrev hback (some x)).congr
        intro p hp
        rw [hlinks p (fun h => hcb (h ▸ hp)),
          Links.endNext_ne (fun h => hdisjoint h hp)]
  · show linksOf mem₅ c = _
    rw [hlinks₅, Links.setPrev_self, Links.setNext_self, hc₄]
    rfl

end Middle

end Heap
end CJson
end Lepd
