import Mathlib.Algebra.Order.Ring.Nat
import Mathlib.Data.List.Induction
import Mathlib.Data.List.Nodup
import Mathlib.Logic.Function.Basic

/-!
# Rings

A ring is a circular list of nodes that are linked in both directions, with one
node as its head. An access to an address without a node, or through a null
pointer, has no result.
-/

namespace Lepd
namespace Foundation

structure RingNode (item addr : Type) where
  item : item
  next : Option addr
  prev : Option addr

/-- The nodes that are allocated. -/
abbrev RingHeap (item addr : Type) : Type :=
  addr -> Option (RingNode item addr)

namespace RingHeap

variable {item addr : Type}

def nextOf (heap : RingHeap item addr) (a : addr) : Option addr :=
  (heap a).bind RingNode.next

def prevOf (heap : RingHeap item addr) (a : addr) : Option addr :=
  (heap a).bind RingNode.prev

def itemOf (heap : RingHeap item addr) (a : addr) : Option item :=
  (heap a).map RingNode.item

theorem exists_node {heap : RingHeap item addr} {a : addr}
    (ha : heap.itemOf a ≠ none) : exists node, heap a = some node := by
  cases hnode : heap a with
  | none =>
      rw [itemOf, hnode] at ha
      exact absurd rfl ha
  | some node =>
      exact ⟨node, rfl⟩

section Operations

variable [DecidableEq addr]

def setNext (heap : RingHeap item addr) (a : addr) (p : Option addr) :
    Option (RingHeap item addr) :=
  (heap a).map (fun node => Function.update heap a (some { node with next := p }))

def setPrev (heap : RingHeap item addr) (a : addr) (p : Option addr) :
    Option (RingHeap item addr) :=
  (heap a).map (fun node => Function.update heap a (some { node with prev := p }))

def modifyItem (heap : RingHeap item addr) (a : addr) (f : item -> item) :
    Option (RingHeap item addr) :=
  (heap a).map (fun node => Function.update heap a
    (some { node with item := f node.item }))

def insertAfter (heap : RingHeap item addr) (head new : addr) :
    Option (RingHeap item addr) := do
  let node <- heap head
  let heap <- setNext heap new node.next
  let heap <- setNext heap head (some new)
  let node <- heap new
  let first <- node.next
  let heap <- setPrev heap first (some new)
  setPrev heap new (some head)

/-- The nodes that the `prev` pointers lead through, from `p` up to the head,
within `fuel` steps. -/
def backward (heap : RingHeap item addr) (head : addr) : Nat -> Option addr ->
    Option (List addr)
  | 0, _ => none
  | fuel + 1, p => do
      let a <- p
      if a = head then return []
      let rest <- backward heap head fuel (heap.prevOf a)
      return a :: rest

/-!
# Pointers
-/

variable {heap : RingHeap item addr} {a : addr}

theorem nextOf_update (node : RingNode item addr) (b : addr) :
    nextOf (Function.update heap a (some node)) b = if b = a then node.next
      else heap.nextOf b := by
  unfold nextOf
  by_cases hb : b = a
  · rw [hb, Function.update_self, if_pos rfl]
    rfl
  · rw [Function.update_of_ne hb, if_neg hb]

theorem prevOf_update (node : RingNode item addr) (b : addr) :
    prevOf (Function.update heap a (some node)) b = if b = a then node.prev
      else heap.prevOf b := by
  unfold prevOf
  by_cases hb : b = a
  · rw [hb, Function.update_self, if_pos rfl]
    rfl
  · rw [Function.update_of_ne hb, if_neg hb]

theorem itemOf_update (node : RingNode item addr) (b : addr) :
    itemOf (Function.update heap a (some node)) b = if b = a then some node.item
      else heap.itemOf b := by
  unfold itemOf
  by_cases hb : b = a
  · rw [hb, Function.update_self, if_pos rfl]
    rfl
  · rw [Function.update_of_ne hb, if_neg hb]

theorem setNext_spec (p : Option addr) (ha : heap.itemOf a ≠ none) :
    exists heap', setNext heap a p = some heap' ∧
      (forall b, heap'.nextOf b = if b = a then p else heap.nextOf b) ∧
      (forall b, heap'.prevOf b = heap.prevOf b) ∧ forall b, heap'.itemOf b =
        heap.itemOf b := by
  rcases exists_node ha with ⟨node, hnode⟩
  refine ⟨Function.update heap a (some { node with next := p }), ?_,
    nextOf_update _, ?_, ?_⟩
  · rw [setNext, hnode]
    rfl
  · intro b
    rw [prevOf_update]
    by_cases hb : b = a
    · rw [if_pos hb, hb, prevOf, hnode]
      rfl
    · rw [if_neg hb]
  · intro b
    rw [itemOf_update]
    by_cases hb : b = a
    · rw [if_pos hb, hb, itemOf, hnode]
      rfl
    · rw [if_neg hb]

theorem setPrev_spec (p : Option addr) (ha : heap.itemOf a ≠ none) :
    exists heap', setPrev heap a p = some heap' ∧
      (forall b, heap'.prevOf b = if b = a then p else heap.prevOf b) ∧
      (forall b, heap'.nextOf b = heap.nextOf b) ∧ forall b, heap'.itemOf b =
        heap.itemOf b := by
  rcases exists_node ha with ⟨node, hnode⟩
  refine ⟨Function.update heap a (some { node with prev := p }), ?_,
    prevOf_update _, ?_, ?_⟩
  · rw [setPrev, hnode]
    rfl
  · intro b
    rw [nextOf_update]
    by_cases hb : b = a
    · rw [if_pos hb, hb, nextOf, hnode]
      rfl
    · rw [if_neg hb]
  · intro b
    rw [itemOf_update]
    by_cases hb : b = a
    · rw [if_pos hb, hb, itemOf, hnode]
      rfl
    · rw [if_neg hb]

theorem modifyItem_spec (f : item -> item) (ha : heap.itemOf a ≠ none) :
    exists heap', modifyItem heap a f = some heap' ∧
      (forall b, heap'.itemOf b = if b = a then (heap.itemOf a).map f
        else heap.itemOf b) ∧
      (forall b, heap'.nextOf b = heap.nextOf b) ∧ forall b, heap'.prevOf b =
        heap.prevOf b := by
  rcases exists_node ha with ⟨node, hnode⟩
  have hitem : heap.itemOf a = some node.item := by
    rw [itemOf, hnode]
    rfl
  refine ⟨Function.update heap a (some { node with item := f node.item }), ?_,
    ?_, ?_, ?_⟩
  · rw [modifyItem, hnode]
    rfl
  · intro b
    rw [itemOf_update, hitem]
    rfl
  · intro b
    rw [nextOf_update]
    by_cases hb : b = a
    · rw [if_pos hb, hb, nextOf, hnode]
      rfl
    · rw [if_neg hb]
  · intro b
    rw [prevOf_update]
    by_cases hb : b = a
    · rw [if_pos hb, hb, prevOf, hnode]
      rfl
    · rw [if_neg hb]

structure Inserted (heap heap' : RingHeap item addr) (head new first : addr) :
    Prop where
  next : forall b, heap'.nextOf b = if b = head then some new
    else if b = new then some first else heap.nextOf b
  prev : forall b, heap'.prevOf b = if b = new then some head
    else if b = first then some new else heap.prevOf b
  item : forall b, heap'.itemOf b = heap.itemOf b

theorem insertAfter_spec {head new first : addr}
    (hhead : heap.nextOf head = some first)
    (hfirst : heap.itemOf first ≠ none) (hnew : heap.itemOf new ≠ none)
    (hne : new ≠ head) :
    exists heap', insertAfter heap head new = some heap' ∧
      Inserted heap heap' head new first := by
  cases hnode : heap head with
  | none =>
      rw [nextOf, hnode] at hhead
      cases hhead
  | some node =>
      have hnext : node.next = some first := by
        rw [nextOf, hnode] at hhead
        exact hhead
      have hallocated : heap.itemOf head ≠ none := by
        rw [itemOf, hnode]
        exact Option.some_ne_none _
      rcases setNext_spec node.next hnew with ⟨heap1, hset1, hnext1, hprev1, hitem1⟩
      rcases setNext_spec (some new) (hitem1 head ▸ hallocated) with
        ⟨heap2, hset2, hnext2, hprev2, hitem2⟩
      have hnew2 : heap2.nextOf new = some first := by
        rw [hnext2, if_neg hne, hnext1, if_pos rfl, hnext]
      rcases setPrev_spec (some new) (hitem2 first ▸ hitem1 first ▸ hfirst) with
        ⟨heap3, hset3, hprev3, hnext3, hitem3⟩
      rcases setPrev_spec (some head)
        (hitem3 new ▸ hitem2 new ▸ hitem1 new ▸ hnew) with
        ⟨heap4, hset4, hprev4, hnext4, hitem4⟩
      rcases exists_node (hitem2 new ▸ hitem1 new ▸ hnew) with ⟨node', hnode'⟩
      have hnext' : node'.next = some first := by
        rw [nextOf, hnode'] at hnew2
        exact hnew2
      refine ⟨heap4, ?_, ?_⟩
      · unfold insertAfter
        simp only [hnode, hset1, hset2, hnode', hnext', hset3,
          Option.bind_eq_bind, Option.bind_some]
        exact hset4
      · constructor
        · intro b
          rw [hnext4, hnext3, hnext2, hnext1, hnext]
        · intro b
          rw [hprev4, hprev3, hprev2, hprev1]
        · intro b
          rw [hitem4, hitem3, hitem2, hitem1]

end Operations

/-!
# Circular lists
-/

def Linked (heap : RingHeap item addr) : List addr -> Prop
  | a :: b :: rest =>
      heap.nextOf a = some b ∧ heap.prevOf b = some a ∧ Linked heap (b :: rest)
  | _ => True

/-- The nodes of the ring behind its head, in the order of the `next` pointers. -/
structure Ring (heap : RingHeap item addr) (head : addr) (as : List addr) :
    Prop where
  linked : Linked heap (head :: (as ++ [head]))
  allocated : forall a, a ∈ head :: as -> heap.itemOf a ≠ none
  distinct : (head :: as).Nodup

section Ring

variable {heap heap' : RingHeap item addr} {head : addr} {as : List addr}

theorem Linked.congr : forall {as : List addr}, Linked heap as ->
    (forall a, a ∈ as.dropLast -> heap'.nextOf a = heap.nextOf a) ->
    (forall a, a ∈ as.tail -> heap'.prevOf a = heap.prevOf a) -> Linked heap' as
  | [], _, _, _ => trivial
  | [_], _, _, _ => trivial
  | a :: b :: rest, h, hnext, hprev => by
      rcases h with ⟨hab, hba, hrest⟩
      refine ⟨?_, ?_, Linked.congr hrest ?_ ?_⟩
      · rw [hnext a List.mem_cons_self]
        exact hab
      · rw [hprev b List.mem_cons_self]
        exact hba
      · intro c hc
        exact hnext c (List.mem_cons_of_mem a hc)
      · intro c hc
        exact hprev c (List.mem_cons_of_mem b hc)

theorem Ring.congr (h : Ring heap head as)
    (hnext : forall a, a ∈ head :: as -> heap'.nextOf a = heap.nextOf a)
    (hprev : forall a, a ∈ head :: as -> heap'.prevOf a = heap.prevOf a)
    (hitem : forall a, a ∈ head :: as -> heap'.itemOf a ≠ none) :
    Ring heap' head as where
  linked := by
    apply h.linked.congr
    · intro a ha
      rw [← List.cons_append, List.dropLast_concat] at ha
      exact hnext a ha
    · intro a ha
      apply hprev a
      rcases List.mem_append.mp ha with ha | ha
      · exact List.mem_cons_of_mem head ha
      · rw [List.mem_singleton.mp ha]
        exact List.mem_cons_self
  allocated := hitem
  distinct := h.distinct

theorem ring_single (hnext : heap.nextOf head = some head)
    (hprev : heap.prevOf head = some head)
    (hitem : heap.itemOf head ≠ none) : Ring heap head [] where
  linked := ⟨hnext, hprev, trivial⟩
  allocated := by
    intro a ha
    rw [List.mem_singleton.mp ha]
    exact hitem
  distinct := List.nodup_singleton head

theorem Linked.prevOf_eq {l rest : List addr} {a b : addr}
    (h : Linked heap (l ++ a :: b :: rest)) :
    heap.prevOf b = some a := by
  induction l with
  | nil =>
      exact h.right.left
  | cons c l ih =>
      cases l with
      | nil =>
          exact h.right.right.right.left
      | cons d l =>
          exact ih h.right.right

variable [DecidableEq addr]

theorem Ring.allocate {new : addr} (h : Ring heap head as)
    (hfresh : new ∉ head :: as) (node : RingNode item addr) :
    Ring (Function.update heap new (some node)) head as := by
  have hne : forall a, a ∈ head :: as -> a ≠ new :=
    fun a ha heq => hfresh (heq ▸ ha)
  apply h.congr
  · intro a ha
    rw [nextOf_update, if_neg (hne a ha)]
  · intro a ha
    rw [prevOf_update, if_neg (hne a ha)]
  · intro a ha
    rw [itemOf_update, if_neg (hne a ha)]
    exact h.allocated a ha

theorem Ring.modifyItem {a : addr} {f : item -> item} (h : Ring heap head as)
    (hnext : forall b, heap'.nextOf b = heap.nextOf b)
    (hprev : forall b, heap'.prevOf b = heap.prevOf b)
    (hitem : forall b, heap'.itemOf b = if b = a then (heap.itemOf a).map f
    else heap.itemOf b) :
    Ring heap' head as := by
  apply h.congr (fun b _ => hnext b) (fun b _ => hprev b)
  intro b hb
  rw [hitem]
  split
  next heq =>
    rw [Ne, Option.map_eq_none_iff, ← heq]
    exact h.allocated b hb
  next =>
    exact h.allocated b hb

theorem Ring.insertAfter {new : addr} (h : Ring heap head as)
    (hnew : heap.itemOf new ≠ none)
    (hfresh : new ∉ head :: as) :
    exists heap', insertAfter heap head new = some heap' ∧
      Ring heap' head (new :: as) ∧
      forall b, heap'.itemOf b = heap.itemOf b := by
  have hne : new ≠ head := fun heq => hfresh (heq ▸ List.mem_cons_self)
  cases as with
  | nil =>
      rcases h.linked with ⟨hnext, _, _⟩
      rcases insertAfter_spec hnext (h.allocated head List.mem_cons_self) hnew
        hne with ⟨heap', hinsert, hinserted⟩
      refine ⟨heap', hinsert, ⟨⟨?_, ?_, ?_, ?_, trivial⟩, ?_, ?_⟩, hinserted.item⟩
      · rw [hinserted.next, if_pos rfl]
      · rw [hinserted.prev, if_pos rfl]
      · rw [hinserted.next, if_neg hne, if_pos rfl]
      · rw [hinserted.prev, if_neg hne.symm, if_pos rfl]
      · intro a ha
        rw [hinserted.item]
        rcases List.mem_cons.mp ha with rfl | ha
        · exact h.allocated a List.mem_cons_self
        · rw [List.mem_singleton.mp ha]
          exact hnew
      · rw [List.nodup_cons]
        exact ⟨fun hmem => hne (List.mem_singleton.mp hmem).symm,
          List.nodup_singleton new⟩
  | cons first as =>
      rcases h.linked with ⟨hnext, _, _⟩
      have hrest : Linked heap (first :: (as ++ [head])) := h.linked.right.right
      have hdistinct := h.distinct
      rw [List.nodup_cons, List.nodup_cons] at hdistinct
      rcases hdistinct with ⟨hhead, hfirst, hnodup⟩
      have hmemFirst : first ∈ head :: first :: as :=
        List.mem_cons_of_mem head List.mem_cons_self
      have hnewFirst : first ≠ new := fun heq => hfresh (heq ▸ hmemFirst)
      rcases insertAfter_spec hnext (h.allocated first hmemFirst) hnew hne with
        ⟨heap', hinsert, hinserted⟩
      refine ⟨heap', hinsert, ⟨⟨?_, ?_, ?_, ?_, ?_⟩, ?_, ?_⟩, hinserted.item⟩
      · rw [hinserted.next, if_pos rfl]
      · rw [hinserted.prev, if_pos rfl]
      · rw [hinserted.next, if_neg hne, if_pos rfl]
      · rw [hinserted.prev, if_neg hnewFirst, if_pos rfl]
      · apply Linked.congr hrest
        · intro c hc
          have hmem : c ∈ first :: as := by
            have hlast : (first :: (as ++ [head])).dropLast = first :: as := by
              rw [← List.cons_append, List.dropLast_concat]
            rw [hlast] at hc
            exact hc
          have hcHead : c ≠ head := fun heq => hhead (heq ▸ hmem)
          have hcNew : c ≠ new := fun heq =>
            hfresh (heq ▸ List.mem_cons_of_mem head hmem)
          rw [hinserted.next, if_neg hcHead, if_neg hcNew]
        · intro c hc
          have hmem : c ∈ as ++ [head] := hc
          have hcFirst : c ≠ first := by
            rintro rfl
            rcases List.mem_append.mp hmem with hmem | hmem
            · exact hfirst hmem
            · exact hhead (List.mem_singleton.mp hmem ▸ List.mem_cons_self)
          have hcNew : c ≠ new := by
            rintro rfl
            rcases List.mem_append.mp hmem with hmem | hmem
            · exact hfresh (List.mem_cons_of_mem head
                (List.mem_cons_of_mem first hmem))
            · exact hne (List.mem_singleton.mp hmem)
          rw [hinserted.prev, if_neg hcNew, if_neg hcFirst]
      · intro a ha
        rw [hinserted.item]
        rcases List.mem_cons.mp ha with rfl | ha
        · exact h.allocated a List.mem_cons_self
        · rcases List.mem_cons.mp ha with rfl | ha
          · exact hnew
          · exact h.allocated a (List.mem_cons_of_mem head ha)
      · rw [List.nodup_cons, List.nodup_cons]
        refine ⟨?_, fun hmem => hfresh (List.mem_cons_of_mem head hmem), ?_⟩
        · intro hmem
          rcases List.mem_cons.mp hmem with heq | hmem
          · exact hne heq.symm
          · exact hhead hmem
        · exact (List.nodup_cons.mpr ⟨hfirst, hnodup⟩)

theorem backward_mono {fuel fuel' : Nat} (hfuel : fuel <= fuel') :
    forall {p : Option addr} {found : List addr},
    backward heap head fuel p = some found -> backward heap head fuel' p =
      some found := by
  induction fuel generalizing fuel' with
  | zero =>
      intro p found h
      cases h
  | succ fuel ih =>
      intro p found h
      cases fuel' with
      | zero =>
          cases hfuel
      | succ fuel' =>
          cases p with
          | none =>
              cases h
          | some a =>
              rw [backward, Option.bind_eq_bind, Option.bind_some] at h ⊢
              by_cases ha : a = head
              · rw [if_pos ha] at h ⊢
                exact h
              · rw [if_neg ha] at h ⊢
                rcases Option.bind_eq_some_iff.mp h with ⟨rest, hrest, hfound⟩
                rw [Option.bind_eq_bind, ih (Nat.le_of_succ_le_succ hfuel) hrest]
                exact hfound

/-- The `prev` pointers lead through the nodes in the order in which they were
put in. -/
theorem backward_linked {xs : List addr} : forall {b : addr} {rest : List addr},
    Linked heap (head :: xs ++ b :: rest) -> head ∉ xs ->
      backward heap head (xs.length + 1) (heap.prevOf b) = some xs.reverse := by
  induction xs using List.reverseRecOn with
  | nil =>
      intro b rest h _
      have hprev : heap.prevOf b = some head := h.right.left
      rw [hprev]
      exact if_pos rfl
  | append_singleton xs x ih =>
      intro b rest h hhead
      have hsplit : head :: (xs ++ [x]) ++ b :: rest = head :: xs ++ x ::
          (b :: rest) := by simp
      rw [hsplit] at h
      have hprev := h.prevOf_eq
      have hx : ¬ x = head := fun heq =>
        hhead (heq ▸ List.mem_append_right xs List.mem_cons_self)
      have hrest := ih h (fun hmem => hhead (List.mem_append_left [x] hmem))
      rw [hprev, List.length_append, List.length_singleton, backward,
        Option.bind_eq_bind, Option.bind_some,
        if_neg hx, Option.bind_eq_bind, hrest, List.reverse_append]
      rfl

theorem Ring.backward (h : Ring heap head as) :
    backward heap head (as.length + 1) (heap.prevOf head) = some as.reverse :=
  backward_linked h.linked (List.nodup_cons.mp h.distinct).left

end Ring

end RingHeap
end Foundation
end Lepd
