import Mathlib.Algebra.Order.Ring.Nat
import Mathlib.Data.List.Nodup
import Mathlib.Logic.Function.Basic

/-!
# Linked queues

A queue of cells in a heap. The queue has a pointer to its first and to its last
cell, and each cell points to the next one. An access to an address without a
cell has no result.
-/

namespace Lepd
namespace Foundation

structure Cell (item addr : Type) where
  item : item
  next : Option addr

/-- The cells that are allocated. -/
abbrev Heap (item addr : Type) : Type :=
  addr -> Option (Cell item addr)

/-- The two pointers of a queue. -/
structure LinkedQueue (addr : Type) where
  head : Option addr
  tail : Option addr

namespace LinkedQueue

variable {item addr : Type}

def empty : LinkedQueue addr :=
  { head := none, tail := none }

def push [DecidableEq addr] (heap : Heap item addr) (q : LinkedQueue addr)
    (a : addr) :
    Option (Heap item addr × LinkedQueue addr) := do
  let cell <- heap a
  let heap := Function.update heap a (some { cell with next := none })
  match q.tail with
  | none => return (heap, { head := some a, tail := some a })
  | some last => do
      let cell <- heap last
      return (Function.update heap last (some { cell with next := some a }),
        { q with tail := some a })

def pop (heap : Heap item addr) (q : LinkedQueue addr) :
    Option (Option addr × LinkedQueue addr) :=
  match q.head with
  | none => some (none, q)
  | some a => do
      let cell <- heap a
      return (some a,
        { head := cell.next, tail := if cell.next = none then none else q.tail })

/-!
# Representation
-/

def Chain (heap : Heap item addr) : Option addr -> List addr -> Prop
  | p, [] => p = none
  | p, a :: as =>
      p = some a ∧ exists cell, heap a = some cell ∧ Chain heap cell.next as

/-- The queue holds these cells, in order. -/
structure Represents (heap : Heap item addr) (q : LinkedQueue addr)
    (as : List addr) : Prop where
  chain : Chain heap q.head as
  last : q.tail = as.getLast?
  distinct : as.Nodup

theorem represents_empty (heap : Heap item addr) : Represents heap empty [] where
  chain := rfl
  last := rfl
  distinct := List.nodup_nil

theorem eq_empty {heap : Heap item addr} {q : LinkedQueue addr}
    (h : Represents heap q []) :
    q = empty := by
  rcases q with ⟨head, tail⟩
  rcases h with ⟨hhead, htail, _⟩
  cases hhead
  cases htail
  rfl

theorem Chain.congr {heap heap' : Heap item addr} {p : Option addr} {as : List addr}
    (h : Chain heap p as) (hsame : forall a, a ∈ as -> heap' a = heap a) :
    Chain heap' p as := by
  induction as generalizing p with
  | nil =>
      exact h
  | cons a as ih =>
      rcases h with ⟨hp, cell, hcell, hnext⟩
      refine ⟨hp, cell, ?_, ih hnext (fun b hb =>
        hsame b (List.mem_cons_of_mem a hb))⟩
      rw [hsame a List.mem_cons_self]
      exact hcell

theorem Chain.allocated {heap : Heap item addr} {p : Option addr} {as : List addr}
    (h : Chain heap p as) {a : addr} (ha : a ∈ as) :
    exists cell, heap a = some cell := by
  induction as generalizing p with
  | nil =>
      cases ha
  | cons b as ih =>
      rcases h with ⟨_, cell, hcell, hnext⟩
      rcases List.mem_cons.mp ha with rfl | hrest
      · exact ⟨cell, hcell⟩
      · exact ih hnext hrest

theorem Represents.congr {heap heap' : Heap item addr} {q : LinkedQueue addr}
    {as : List addr}
    (h : Represents heap q as) (hsame : forall a, a ∈ as -> heap' a = heap a) :
    Represents heap' q as where
  chain := h.chain.congr hsame
  last := h.last
  distinct := h.distinct

/-!
# The operations
-/

section Push

variable [DecidableEq addr] {heap : Heap item addr} {a : addr}

theorem Chain.snoc {p : Option addr} {as : List addr} {last : addr}
    {cell : Cell item addr}
    (h : Chain heap p (as ++ [last])) (hlast : heap last = some cell)
    (hdistinct : (as ++ [last]).Nodup) (ha : a ∉ as ++ [last])
    (hnew : exists new : Cell item addr, heap a = some new ∧ new.next = none) :
    Chain (Function.update heap last (some { cell with next := some a })) p
      (as ++ [last] ++ [a]) := by
  induction as generalizing p with
  | nil =>
      rcases hnew with ⟨new, hnew, hnext⟩
      have hne : a ≠ last := fun heq =>
        ha (by rw [heq]; exact List.mem_singleton_self last)
      refine ⟨h.left, _, Function.update_self last _ heap, rfl, new, ?_, hnext⟩
      rw [Function.update_of_ne hne]
      exact hnew
  | cons b as ih =>
      rcases h with ⟨hp, first, hfirst, hrest⟩
      rw [List.cons_append, List.nodup_cons] at hdistinct
      have hne : b ≠ last := by
        rintro rfl
        exact hdistinct.left (List.mem_append_right as (List.mem_singleton_self b))
      refine ⟨hp, first, ?_, ih hrest hdistinct.right (fun hmem =>
        ha (List.mem_cons_of_mem b hmem))⟩
      rw [Function.update_of_ne hne]
      exact hfirst

/-- What `push` does: one cell more at the end, and no other change in any cell
but its links. -/
theorem push_spec {q : LinkedQueue addr} {as : List addr} {cell : Cell item addr}
    (h : Represents heap q as) (hcell : heap a = some cell) (ha : a ∉ as) :
    exists heap' q', push heap q a = some (heap', q') ∧
      Represents heap' q' (as ++ [a]) ∧
      (forall b, (heap' b).map Cell.item = (heap b).map Cell.item) ∧
      (forall b, b ≠ a -> b ∉ as -> heap' b = heap b) := by
  let cleared := Function.update heap a (some { cell with next := none })
  have hself : cleared a = some { cell with next := none } :=
    Function.update_self a _ heap
  have hkeep : forall b, b ≠ a -> cleared b = heap b := fun b hb =>
    Function.update_of_ne hb _ heap
  have hitems : forall b, (cleared b).map Cell.item = (heap b).map Cell.item := by
    intro b
    by_cases hb : b = a
    · rw [hb, hself, hcell]
      rfl
    · rw [hkeep b hb]
  cases List.eq_nil_or_concat as with
  | inl hnil =>
      subst hnil
      have htail : q.tail = none := h.last
      refine ⟨cleared, { head := some a, tail := some a }, ?_, ?_, hitems,
        fun b hb _ => hkeep b hb⟩
      · simp only [push, hcell, htail, Option.pure_def, Option.bind_eq_bind,
          Option.bind_some]
        rfl
      · exact ⟨⟨rfl, _, hself, rfl⟩, rfl, List.nodup_singleton a⟩
  | inr hsnoc =>
      rcases hsnoc with ⟨front, last, rfl⟩
      rw [List.concat_eq_append] at h ha
      have htail : q.tail = some last := by
        rw [h.last, List.getLast?_concat]
      have hlastmem : last ∈ front ++ [last] :=
        List.mem_append_right front (List.mem_singleton_self last)
      have hne : last ≠ a := fun heq => ha (heq ▸ hlastmem)
      rcases h.chain.allocated hlastmem with ⟨lastCell, hlast⟩
      have hlast' : cleared last = some lastCell := (hkeep last hne).trans hlast
      have hchain : Chain cleared q.head (front ++ [last]) :=
        h.chain.congr (fun b hb => hkeep b (fun heq => ha (heq ▸ hb)))
      have hpush : push heap q a =
          some (Function.update cleared last
            (some { lastCell with next := some a }),
            { q with tail := some a }) := by
        simp only [push, hcell, htail, Option.pure_def, Option.bind_eq_bind,
          Option.bind_some]
        rw [show Function.update heap a (some { cell with next := none }) last =
          some lastCell from hlast']
        rfl
      refine ⟨_, _, hpush, ⟨?_, ?_, ?_⟩, ?_, ?_⟩
      · rw [List.concat_eq_append]
        exact hchain.snoc hlast' h.distinct ha ⟨_, hself, rfl⟩
      · rw [List.getLast?_concat]
      · rw [List.concat_eq_append]
        exact List.nodup_append.mpr ⟨h.distinct, List.nodup_singleton a,
          fun b hb c hc => by
            rw [List.mem_singleton.mp hc]
            exact fun heq => ha (heq ▸ hb)⟩
      · intro b
        by_cases hb : b = last
        · rw [hb, Function.update_self, hlast]
          rfl
        · rw [Function.update_of_ne hb]
          exact hitems b
      · intro b hb hmem
        rw [List.concat_eq_append] at hmem
        have hother : b ≠ last := by
          rintro rfl
          exact hmem hlastmem
        rw [Function.update_of_ne hother]
        exact hkeep b hb

end Push

theorem pop_empty {heap : Heap item addr} {q : LinkedQueue addr}
    (h : Represents heap q []) :
    pop heap q = some (none, q) := by
  have hhead : q.head = none := h.chain
  rw [pop, hhead]

theorem pop_first {heap : Heap item addr} {q : LinkedQueue addr} {a : addr}
    {as : List addr}
    (h : Represents heap q (a :: as)) :
    exists q', pop heap q = some (some a, q') ∧ Represents heap q' as := by
  rcases h.chain with ⟨hhead, cell, hcell, hnext⟩
  refine ⟨{ head := cell.next,
            tail := if cell.next = none then none else q.tail }, ?_, hnext, ?_,
    (List.nodup_cons.mp h.distinct).right⟩
  · simp only [pop, hhead, hcell, Option.pure_def, Option.bind_eq_bind,
      Option.bind_some]
  · cases as with
    | nil =>
        have hnone : cell.next = none := hnext
        simp only [hnone, if_true]
        rfl
    | cons b bs =>
        have hsome : cell.next = some b := hnext.left
        simp only [hsome, reduceCtorEq, if_false]
        rw [h.last, List.getLast?_cons_cons]

end LinkedQueue
end Foundation
end Lepd
