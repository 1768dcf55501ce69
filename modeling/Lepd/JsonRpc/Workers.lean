import Lepd.Foundation.LinkedQueue
import Lepd.Foundation.Runs

/-!
# Handing connections to the workers

The accepting thread puts each connection into the queue of one worker and then
sends that worker's loop an asynchronous event. The worker takes connections
from its queue in `async_cb` until there are none. Events that are sent before
the callback has begun count once.
-/

namespace Lepd
namespace JsonRpc

open Foundation

/-- An item in the connection queue. -/
structure CqItem (server : Type) where
  sfd : Int
  szAddr : List UInt8
  port : UInt16
  data : server
deriving DecidableEq

/-- Where the accepting thread stands. -/
inductive Accepting (worker addr : Type) where
  | idle
  /-- In `dispath_conn`, with its item filled in. -/
  | filled (w : worker) (a : addr)
  /-- Between `cq_push` and `ev_async_send`. -/
  | pushed (w : worker)

/-- Where a worker's thread stands. -/
inductive Serving (addr : Type) where
  /-- In the event loop, outside of `async_cb`. -/
  | waiting
  /-- In front of `cq_pop`. -/
  | popping
  /-- With an item that it has not freed. -/
  | handling (a : addr)
  /-- Behind the `cq_pop` that answered null. -/
  | leaving

structure Daemon (worker addr server : Type) where
  heap : Heap (CqItem server) addr
  queue : worker -> LinkedQueue addr
  /-- The watcher's mark that an event was sent. -/
  pending : worker -> Bool
  serving : worker -> Serving addr
  accepting : Accepting worker addr
  /-- The items that were queued for a worker, in order. -/
  queued : worker -> List (CqItem server)
  /-- The items that a worker has taken, in order. -/
  taken : worker -> List (CqItem server)

/-- The steps of the threads. -/
inductive Turn (worker addr server : Type) where
  /-- `calloc` answers `a`, and the item is filled in. -/
  | fill (w : worker) (a : addr) (item : CqItem server)
  | push
  | send
  | invoke (w : worker)
  | pop (w : worker)
  | free (w : worker)
  | leave (w : worker)

section Steps

variable {worker addr server : Type} [DecidableEq worker] [DecidableEq addr]

namespace Daemon

def serve (s : Daemon worker addr server) (w : worker) (place : Serving addr) :
    Daemon worker addr server :=
  { s with serving := Function.update s.serving w place }

def fill (s : Daemon worker addr server) (w : worker) (a : addr)
    (item : CqItem server) :
    Daemon worker addr server :=
  { s with heap := Function.update s.heap a (some { item := item, next := none }),
           accepting := .filled w a }

def enqueue (s : Daemon worker addr server) (w : worker)
    (heap : Heap (CqItem server) addr)
    (q : LinkedQueue addr) (item : CqItem server) : Daemon worker addr server :=
  { s with heap := heap, queue := Function.update s.queue w q,
           queued := Function.update s.queued w (s.queued w ++ [item]),
             accepting := .pushed w }

def dequeue (s : Daemon worker addr server) (w : worker) (q : LinkedQueue addr)
    (items : List (CqItem server)) : Daemon worker addr server :=
  { s with queue := Function.update s.queue w q,
           taken := Function.update s.taken w (s.taken w ++ items) }

def free (s : Daemon worker addr server) (a : addr) : Daemon worker addr server :=
  { s with heap := Function.update s.heap a none }

def mark (s : Daemon worker addr server) (w : worker) (sent : Bool) :
    Daemon worker addr server :=
  { s with pending := Function.update s.pending w sent }

def next (s : Daemon worker addr server) :
    Turn worker addr server -> Option (Daemon worker addr server)
  | .fill w a item =>
      match s.accepting, s.heap a with
      | .idle, none => some (s.fill w a item)
      | _, _ => none
  | .push =>
      match s.accepting with
      | .filled w a => do
          let cell <- s.heap a
          let (heap, q) <- LinkedQueue.push s.heap (s.queue w) a
          return s.enqueue w heap q cell.item
      | _ => none
  | .send =>
      match s.accepting with
      | .pushed w => some { s.mark w true with accepting := .idle }
      | _ => none
  | .invoke w =>
      match s.serving w with
      | .waiting => if s.pending w then some ((s.mark w false).serve w .popping)
          else none
      | _ => none
  | .pop w =>
      match s.serving w with
      | .popping => do
          let (found, q) <- LinkedQueue.pop s.heap (s.queue w)
          match found with
          | none => return (s.dequeue w q []).serve w .leaving
          | some a => do
              let cell <- s.heap a
              return (s.dequeue w q [cell.item]).serve w (.handling a)
      | _ => none
  | .free w =>
      match s.serving w with
      | .handling a => do
          let _ <- s.heap a
          return (s.free a).serve w .popping
      | _ => none
  | .leave w =>
      match s.serving w with
      | .leaving => some (s.serve w .waiting)
      | _ => none

end Daemon

def Turns (s : Daemon worker addr server) (turn : Turn worker addr server)
    (s' : Daemon worker addr server) : Prop :=
  s.next turn = some s'

end Steps

/-- The state in which the first connection is accepted. -/
def daemonStart (worker addr server : Type) : Daemon worker addr server where
  heap _ := none
  queue _ := LinkedQueue.empty
  pending _ := false
  serving _ := .waiting
  accepting := .idle
  queued _ := []
  taken _ := []

/-!
# What holds throughout
-/

variable {worker addr server : Type}

inductive Holding (worker : Type) where
  | acceptor
  | queue (w : worker)
  | worker (w : worker)

/-- The item at an address belongs to the holder, when the queues hold these
cells. -/
def Daemon.Holds (s : Daemon worker addr server) (cells : worker -> List addr) :
    Holding worker -> addr -> Prop
  | .acceptor, a => exists w, s.accepting = .filled w a
  | .queue w, a => a ∈ cells w
  | .worker w, a => s.serving w = .handling a

def Daemon.Notified (s : Daemon worker addr server) (w : worker) : Prop :=
  s.pending w = true ∨ s.serving w = .popping ∨
    (exists a, s.serving w = .handling a) ∨
    s.accepting = .pushed w

def Daemon.itemAt (s : Daemon worker addr server) (a : addr) :
    Option (CqItem server) :=
  (s.heap a).map Cell.item

structure Served (s : Daemon worker addr server) (cells : worker -> List addr) :
    Prop where
  represents : forall w, LinkedQueue.Represents s.heap (s.queue w) (cells w)
  allocated : forall p a, s.Holds cells p a -> s.heap a ≠ none
  single : forall p p' a, s.Holds cells p a -> s.Holds cells p' a -> p = p'
  accounted : forall w, (s.queued w).map some = (s.taken w).map some ++
    (cells w).map s.itemAt
  notified : forall w, cells w ≠ [] -> s.Notified w

theorem served_start : Served (daemonStart worker addr server) (fun _ => []) where
  represents _ := LinkedQueue.represents_empty _
  allocated p a h := by
    cases p with
    | acceptor =>
        rcases h with ⟨w, hw⟩
        cases hw
    | queue w =>
        cases h
    | worker w =>
        cases h
  single p p' a h := by
    cases p with
    | acceptor =>
        rcases h with ⟨w, hw⟩
        cases hw
    | queue w =>
        cases h
    | worker w =>
        cases h
  accounted _ := rfl
  notified _ h := absurd rfl h

theorem Served.keep {s s' : Daemon worker addr server}
    {cells : worker -> List addr} (h : Served s cells)
    (hheap : s'.heap = s.heap) (hqueue : s'.queue = s.queue)
    (hqueued : s'.queued = s.queued)
    (htaken : s'.taken = s.taken) (hholds : forall p a, s'.Holds cells p a ->
    s.Holds cells p a)
    (hnotified : forall w, cells w ≠ [] -> s.Notified w -> s'.Notified w) :
    Served s' cells where
  represents w := by
    rw [hheap, hqueue]
    exact h.represents w
  allocated p a hp := by
    rw [hheap]
    exact h.allocated p a (hholds p a hp)
  single p p' a hp hp' := h.single p p' a (hholds p a hp) (hholds p' a hp')
  accounted w := by
    have hitem : s'.itemAt = s.itemAt := by
      funext a
      rw [Daemon.itemAt, hheap, Daemon.itemAt]
    rw [hqueued, htaken, hitem]
    exact h.accounted w
  notified w hw := hnotified w hw (h.notified w hw)

/-- A worker has taken the first items of those that were queued for it; the
others are in its queue. -/
theorem Served.queued_eq {s : Daemon worker addr server}
    {cells : worker -> List addr} (h : Served s cells) (w : worker) :
    exists rest, s.queued w = s.taken w ++ rest ∧
      rest.length = (cells w).length := by
  rcases List.map_eq_append_iff.mp (h.accounted w) with
    ⟨taken, rest, hqueued, htaken, hrest⟩
  have hsame : taken = s.taken w :=
    List.map_injective_iff.mpr (Option.some_injective (CqItem server)) htaken
  refine ⟨rest, ?_, ?_⟩
  · rw [hqueued, hsame]
  · have hlength := congrArg List.length hrest
    rw [List.length_map, List.length_map] at hlength
    exact hlength

theorem Served.all_taken {s : Daemon worker addr server}
    {cells : worker -> List addr} (h : Served s cells) {w : worker} :
    cells w = [] <-> s.taken w = s.queued w := by
  rcases h.queued_eq w with ⟨rest, hqueued, hlength⟩
  rw [hqueued]
  constructor
  · intro hnil
    rw [hnil] at hlength
    rw [List.eq_nil_of_length_eq_zero hlength, List.append_nil]
  · intro hall
    have hrest : rest = [] := List.self_eq_append_right.mp hall
    rw [hrest] at hlength
    exact List.eq_nil_of_length_eq_zero hlength.symm

section Preserved

variable {s : Daemon worker addr server} {cells : worker -> List addr}

section Fill

variable [DecidableEq addr]

theorem served_fill {w : worker} {a : addr} (item : CqItem server)
    (h : Served s cells)
    (hidle : s.accepting = .idle) (ha : s.heap a = none) :
    Served (s.fill w a item) cells := by
  have hfresh : forall p b, s.Holds cells p b -> b ≠ a := by
    rintro p b hp rfl
    exact h.allocated p b hp ha
  have hcells : forall w' b, b ∈ cells w' -> b ≠ a :=
    fun w' b hb => hfresh (.queue w') b hb
  have hold : forall p b, (s.fill w a item).Holds cells p b ->
      (p = .acceptor ∧ b = a) ∨ s.Holds cells p b := by
    intro p b hp
    cases p with
    | acceptor =>
        rcases hp with ⟨w', hw'⟩
        injection hw' with _ hb
        exact Or.inl ⟨rfl, hb.symm⟩
    | queue w' =>
        exact Or.inr hp
    | worker w' =>
        exact Or.inr hp
  constructor
  · intro w'
    exact (h.represents w').congr (fun b hb =>
      Function.update_of_ne (hcells w' b hb) _ _)
  · intro p b hp
    rcases hold p b hp with ⟨_, rfl⟩ | hb
    · simp only [Daemon.fill, Function.update_self]
      exact Option.some_ne_none _
    · simp only [Daemon.fill, Function.update_of_ne (hfresh p b hb)]
      exact h.allocated p b hb
  · intro p p' b hp hp'
    rcases hold p b hp with ⟨rfl, hb⟩ | hb
    · rcases hold p' b hp' with ⟨rfl, _⟩ | hb'
      · rfl
      · exact absurd hb (hfresh p' b hb')
    · rcases hold p' b hp' with ⟨_, hb'⟩ | hb'
      · exact absurd hb' (hfresh p b hb)
      · exact h.single p p' b hb hb'
  · intro w'
    have hitems : (cells w').map (fun b => (Function.update s.heap a
        (some { item := item, next := none }) b).map Cell.item) =
          (cells w').map s.itemAt := by
      apply List.map_congr_left
      intro b hb
      rw [Function.update_of_ne (hcells w' b hb), Daemon.itemAt]
    have haccounted := h.accounted w'
    rw [← hitems] at haccounted
    exact haccounted
  · intro w' hw'
    rcases h.notified w' hw' with hpending | hpopping | hhandling | hpushed
    · exact Or.inl hpending
    · exact Or.inr (Or.inl hpopping)
    · exact Or.inr (Or.inr (Or.inl hhandling))
    · rw [hidle] at hpushed
      cases hpushed

end Fill

variable [DecidableEq worker]

@[simp] theorem serve_self (w : worker) (place : Serving addr) :
    (s.serve w place).serving w = place := by
  simp only [Daemon.serve, Function.update_self]

theorem serve_ne {w w' : worker} (place : Serving addr) (h : w' ≠ w) :
    (s.serve w place).serving w' = s.serving w' := by
  simp only [Daemon.serve, Function.update_of_ne h]

@[simp] theorem mark_self (w : worker) (sent : Bool) :
    (s.mark w sent).pending w = sent := by
  simp only [Daemon.mark, Function.update_self]

theorem mark_ne {w w' : worker} (sent : Bool) (h : w' ≠ w) :
    (s.mark w sent).pending w' = s.pending w' := by
  simp only [Daemon.mark, Function.update_of_ne h]

theorem mark_eq (w : worker) : s.mark w (s.pending w) = s := by
  simp only [Daemon.mark, Function.update_eq_self]

theorem dequeue_nil (w : worker) : s.dequeue w (s.queue w) [] = s := by
  simp only [Daemon.dequeue, List.append_nil, Function.update_eq_self]

theorem served_send {w : worker} (h : Served s cells)
    (hpushed : s.accepting = .pushed w) :
    Served { s.mark w true with accepting := .idle } cells := by
  refine h.keep rfl rfl rfl rfl ?_ ?_
  · intro p a hp
    cases p with
    | acceptor =>
        rcases hp with ⟨w', hw'⟩
        cases hw'
    | queue w' =>
        exact hp
    | worker w' =>
        exact hp
  · intro w' _ hnotified
    by_cases hw : w' = w
    · subst hw
      exact Or.inl (mark_self w' true)
    · rcases hnotified with hpending | hpopping | hhandling | hpushed'
      · exact Or.inl ((mark_ne true hw).trans hpending)
      · exact Or.inr (Or.inl hpopping)
      · exact Or.inr (Or.inr (Or.inl hhandling))
      · rw [hpushed] at hpushed'
        injection hpushed' with heq
        exact absurd heq.symm hw

theorem served_serve (w : worker) (place : Serving addr) (sent : Bool)
    (h : Served s cells)
    (hplace : forall a, place ≠ .handling a)
    (hnotified : cells w ≠ [] -> s.Notified w ->
    ((s.mark w sent).serve w place).Notified w) :
    Served ((s.mark w sent).serve w place) cells := by
  refine h.keep rfl rfl rfl rfl ?_ ?_
  · intro p a hp
    cases p with
    | acceptor =>
        exact hp
    | queue w' =>
        exact hp
    | worker w' =>
        by_cases hw : w' = w
        · subst hw
          rw [Daemon.Holds, serve_self] at hp
          exact absurd hp (hplace a)
        · rw [Daemon.Holds, serve_ne _ hw] at hp
          exact hp
  · intro w' hcells hnotified'
    by_cases hw : w' = w
    · subst hw
      exact hnotified hcells hnotified'
    · rcases hnotified' with hpending | hpopping | ⟨a, hhandling⟩ | hpushed
      · exact Or.inl ((mark_ne sent hw).trans hpending)
      · exact Or.inr (Or.inl ((serve_ne _ hw).trans hpopping))
      · exact Or.inr (Or.inr (Or.inl ⟨a, (serve_ne _ hw).trans hhandling⟩))
      · exact Or.inr (Or.inr (Or.inr hpushed))

/-- A worker that is about to leave the callback was only told by an event or by
the acceptor. -/
theorem served_leave {w : worker} (h : Served s cells)
    (hleaving : s.serving w = .leaving) :
    Served (s.serve w .waiting) cells := by
  have hserve := served_serve w .waiting (s.pending w) h (by rintro a ⟨⟩) ?_
  · rw [mark_eq] at hserve
    exact hserve
  · rintro _ (hpending | hpopping | ⟨a, hhandling⟩ | hpushed)
    · rw [mark_eq]
      exact Or.inl hpending
    · rw [hleaving] at hpopping
      cases hpopping
    · rw [hleaving] at hhandling
      cases hhandling
    · rw [mark_eq]
      exact Or.inr (Or.inr (Or.inr hpushed))

theorem served_pop {w : worker} {a : addr} {as : List addr} (h : Served s cells)
    (hpopping : s.serving w = .popping) (hcells : cells w = a :: as) :
    exists q' cell, LinkedQueue.pop s.heap (s.queue w) = some (some a, q') ∧
      s.heap a = some cell ∧
      Served ((s.dequeue w q' [cell.item]).serve w (.handling a))
        (Function.update cells w as) := by
  have hrep := h.represents w
  rw [hcells] at hrep
  rcases LinkedQueue.pop_first hrep with ⟨q', hpop, hrest⟩
  have hqueued : s.Holds cells (.queue w) a := by
    rw [Daemon.Holds, hcells]
    exact List.mem_cons_self
  rcases Option.ne_none_iff_exists'.mp (h.allocated (.queue w) a hqueued) with
    ⟨cell, hcell⟩
  refine ⟨q', cell, hpop, hcell, ?_⟩
  have hmem : forall w' b, b ∈ Function.update cells w as w' ->
      s.Holds cells (.queue w') b ∧ (w' = w -> b ∈ as) := by
    intro w' b hb
    by_cases hw : w' = w
    · subst hw
      rw [Function.update_self] at hb
      refine ⟨?_, fun _ => hb⟩
      rw [Daemon.Holds, hcells]
      exact List.mem_cons_of_mem a hb
    · rw [Function.update_of_ne hw] at hb
      exact ⟨hb, fun heq => absurd heq hw⟩
  have hold : forall p b,
      ((s.dequeue w q' [cell.item]).serve w (.handling a)).Holds
        (Function.update cells w as) p b ->
      (s.Holds cells p b ∧ b ≠ a) ∨ (p = .worker w ∧ b = a) := by
    intro p b hp
    have hnew : s.Holds cells p b -> p ≠ .queue w -> b ≠ a := by
      rintro hb hne rfl
      exact hne (h.single p (.queue w) b hb hqueued)
    cases p with
    | acceptor =>
        exact Or.inl ⟨hp, hnew hp (by rintro ⟨⟩)⟩
    | queue w' =>
        rcases hmem w' b hp with ⟨hb, hin⟩
        refine Or.inl ⟨hb, ?_⟩
        by_cases hw : w' = w
        · rintro rfl
          exact (List.nodup_cons.mp hrep.distinct).left (hin hw)
        · refine hnew hb ?_
          rintro heq
          injection heq with heq
          exact hw heq
    | worker w' =>
        by_cases hw : w' = w
        · subst hw
          rw [Daemon.Holds, serve_self] at hp
          injection hp with heq
          exact Or.inr ⟨rfl, heq.symm⟩
        · rw [Daemon.Holds, serve_ne _ hw] at hp
          exact Or.inl ⟨hp, hnew hp (by rintro ⟨⟩)⟩
  constructor
  · intro w'
    by_cases hw : w' = w
    · subst hw
      simp only [Daemon.dequeue, Daemon.serve, Function.update_self]
      exact hrest
    · simp only [Daemon.dequeue, Daemon.serve, Function.update_of_ne hw]
      exact h.represents w'
  · intro p b hp
    rcases hold p b hp with ⟨hb, _⟩ | ⟨_, rfl⟩
    · exact h.allocated p b hb
    · exact h.allocated (.queue w) b hqueued
  · intro p p' b hp hp'
    rcases hold p b hp with ⟨hb, hne⟩ | ⟨rfl, heq⟩
    · rcases hold p' b hp' with ⟨hb', _⟩ | ⟨_, heq'⟩
      · exact h.single p p' b hb hb'
      · exact absurd heq' hne
    · rcases hold p' b hp' with ⟨_, hne⟩ | ⟨rfl, _⟩
      · exact absurd heq hne
      · rfl
  · intro w'
    show List.map some (s.queued w') =
      List.map some ((s.dequeue w q' [cell.item]).taken w') ++
      List.map s.itemAt (Function.update cells w as w')
    by_cases hw : w' = w
    · subst hw
      have hitem : s.itemAt a = some cell.item := by
        rw [Daemon.itemAt, hcell, Option.map_some]
      simp only [Daemon.dequeue, Function.update_self, List.map_append,
        List.map_cons, List.map_nil]
      rw [h.accounted w', hcells, List.append_assoc, List.map_cons, hitem]
      rfl
    · simp only [Daemon.dequeue, Function.update_of_ne hw]
      exact h.accounted w'
  · intro w' hcells'
    by_cases hw : w' = w
    · subst hw
      exact Or.inr (Or.inr (Or.inl ⟨a, serve_self w' _⟩))
    · rw [Function.update_of_ne hw] at hcells'
      rcases h.notified w' hcells' with
        hpending | hpopping' | ⟨b, hhandling⟩ | hpushed
      · exact Or.inl hpending
      · exact Or.inr (Or.inl ((serve_ne _ hw).trans hpopping'))
      · exact Or.inr (Or.inr (Or.inl ⟨b, (serve_ne _ hw).trans hhandling⟩))
      · exact Or.inr (Or.inr (Or.inr hpushed))

variable [DecidableEq addr]

theorem served_push {w : worker} {a : addr} {cell : Cell (CqItem server) addr}
    (h : Served s cells)
    (hfilled : s.accepting = .filled w a) (hcell : s.heap a = some cell) :
    exists heap' q', LinkedQueue.push s.heap (s.queue w) a = some (heap', q') ∧
      Served (s.enqueue w heap' q' cell.item)
        (Function.update cells w (cells w ++ [a])) := by
  have hacceptor : s.Holds cells .acceptor a := ⟨w, hfilled⟩
  have hnot : forall w', a ∉ cells w' := by
    intro w' hmem
    cases h.single .acceptor (.queue w') a hacceptor hmem
  rcases LinkedQueue.push_spec (h.represents w) hcell (hnot w) with
    ⟨heap', q', hpush, hrep, hitems, hother⟩
  refine ⟨heap', q', hpush, ?_⟩
  have hmem : forall w' b, b ∈ Function.update cells w (cells w ++ [a]) w' ->
      b ∈ cells w' ∨ (w' = w ∧ b = a) := by
    intro w' b hb
    by_cases hw : w' = w
    · subst hw
      rw [Function.update_self] at hb
      rcases List.mem_append.mp hb with hold | hnew
      · exact Or.inl hold
      · exact Or.inr ⟨rfl, List.mem_singleton.mp hnew⟩
    · rw [Function.update_of_ne hw] at hb
      exact Or.inl hb
  have hold : forall p b,
      (s.enqueue w heap' q' cell.item).Holds
        (Function.update cells w (cells w ++ [a])) p b ->
      (s.Holds cells p b ∧ p ≠ .acceptor) ∨ (p = .queue w ∧ b = a) := by
    intro p b hp
    cases p with
    | acceptor =>
        rcases hp with ⟨w', hw'⟩
        cases hw'
    | queue w' =>
        rcases hmem w' b hp with hin | ⟨rfl, rfl⟩
        · exact Or.inl ⟨hin, by rintro ⟨⟩⟩
        · exact Or.inr ⟨rfl, rfl⟩
    | worker w' =>
        exact Or.inl ⟨hp, by rintro ⟨⟩⟩
  have hsome : forall b, s.heap b ≠ none -> heap' b ≠ none := by
    intro b hb hnone
    have hitem := hitems b
    rw [hnone, Option.map_none] at hitem
    exact hb (Option.map_eq_none_iff.mp hitem.symm)
  constructor
  · intro w'
    by_cases hw : w' = w
    · subst hw
      simp only [Daemon.enqueue, Function.update_self]
      exact hrep
    · simp only [Daemon.enqueue, Function.update_of_ne hw]
      refine (h.represents w').congr (fun b hb => hother b ?_ ?_)
      · rintro rfl
        exact hnot w' hb
      · intro hbw
        injection h.single (.queue w') (.queue w) b hb hbw with heq
        exact hw heq
  · intro p b hp
    rcases hold p b hp with ⟨hb, _⟩ | ⟨_, rfl⟩
    · exact hsome b (h.allocated p b hb)
    · exact hsome b (h.allocated .acceptor b hacceptor)
  · intro p p' b hp hp'
    rcases hold p b hp with ⟨hb, hne⟩ | ⟨rfl, rfl⟩
    · rcases hold p' b hp' with ⟨hb', _⟩ | ⟨_, rfl⟩
      · exact h.single p p' b hb hb'
      · exact absurd (h.single p .acceptor b hb hacceptor) hne
    · rcases hold p' b hp' with ⟨hb', hne⟩ | ⟨rfl, _⟩
      · exact absurd (h.single p' .acceptor b hb' hacceptor) hne
      · rfl
  · intro w'
    have hitem : (s.enqueue w heap' q' cell.item).itemAt = s.itemAt := funext hitems
    have hnew : s.itemAt a = some cell.item := by
      rw [Daemon.itemAt, hcell, Option.map_some]
    rw [hitem]
    by_cases hw : w' = w
    · subst hw
      simp only [Daemon.enqueue, Function.update_self, List.map_append,
        List.map_cons, List.map_nil]
      rw [h.accounted w', List.append_assoc, hnew]
    · simp only [Daemon.enqueue, Function.update_of_ne hw]
      exact h.accounted w'
  · intro w' hw'
    by_cases hw : w' = w
    · subst hw
      exact Or.inr (Or.inr (Or.inr rfl))
    · rw [Function.update_of_ne hw] at hw'
      rcases h.notified w' hw' with hpending | hpopping | hhandling | hpushed
      · exact Or.inl hpending
      · exact Or.inr (Or.inl hpopping)
      · exact Or.inr (Or.inr (Or.inl hhandling))
      · rw [hfilled] at hpushed
        cases hpushed

theorem served_free {w : worker} {a : addr} (h : Served s cells)
    (hhandling : s.serving w = .handling a) :
    Served ((s.free a).serve w .popping) cells := by
  have hworker : s.Holds cells (.worker w) a := hhandling
  have hcells : forall w' b, b ∈ cells w' -> b ≠ a := by
    rintro w' b hb rfl
    cases h.single (.queue w') (.worker w) b hb hworker
  have hold : forall p b, ((s.free a).serve w .popping).Holds cells p b ->
      s.Holds cells p b ∧ b ≠ a := by
    intro p b hp
    have hnew : s.Holds cells p b -> p ≠ .worker w -> b ≠ a := by
      rintro hb hne rfl
      exact hne (h.single p (.worker w) b hb hworker)
    cases p with
    | acceptor =>
        exact ⟨hp, hnew hp (by rintro ⟨⟩)⟩
    | queue w' =>
        exact ⟨hp, hcells w' b hp⟩
    | worker w' =>
        by_cases hw : w' = w
        · subst hw
          rw [Daemon.Holds, serve_self] at hp
          cases hp
        · rw [Daemon.Holds, serve_ne _ hw] at hp
          refine ⟨hp, hnew hp ?_⟩
          rintro heq
          injection heq with heq
          exact hw heq
  constructor
  · intro w'
    exact (h.represents w').congr (fun b hb =>
      Function.update_of_ne (hcells w' b hb) _ _)
  · intro p b hp
    rcases hold p b hp with ⟨hb, hne⟩
    simp only [Daemon.free, Daemon.serve, Function.update_of_ne hne]
    exact h.allocated p b hb
  · intro p p' b hp hp'
    exact h.single p p' b (hold p b hp).left (hold p' b hp').left
  · intro w'
    have hitems : (cells w').map ((s.free a).serve w .popping).itemAt =
        (cells w').map s.itemAt := by
      apply List.map_congr_left
      intro b hb
      simp only [Daemon.itemAt, Daemon.free, Daemon.serve,
        Function.update_of_ne (hcells w' b hb)]
    rw [hitems]
    exact h.accounted w'
  · intro w' hcells'
    by_cases hw : w' = w
    · subst hw
      exact Or.inr (Or.inl (serve_self w' .popping))
    · rcases h.notified w' hcells' with
        hpending | hpopping | ⟨b, hhandling'⟩ | hpushed
      · exact Or.inl hpending
      · exact Or.inr (Or.inl ((serve_ne _ hw).trans hpopping))
      · exact Or.inr (Or.inr (Or.inl ⟨b, (serve_ne _ hw).trans hhandling'⟩))
      · exact Or.inr (Or.inr (Or.inr hpushed))

end Preserved

/-!
# One step

What a step needs, and what it makes of the state.
-/

section Turns

variable [DecidableEq worker] [DecidableEq addr] {s s' : Daemon worker addr server}
  {cells : worker -> List addr} {w : worker} {a : addr} {item : CqItem server}

theorem turns_fill (h : Turns s (.fill w a item) s') :
    s.accepting = .idle ∧ s.heap a = none ∧ s' = s.fill w a item := by
  unfold Turns Daemon.next at h
  simp only at h
  split at h
  · next hidle hnone =>
      cases h
      exact ⟨hidle, hnone, rfl⟩
  · cases h

theorem turns_push (h : Turns s .push s') :
    exists w a cell heap q, s.accepting = .filled w a ∧ s.heap a = some cell ∧
      LinkedQueue.push s.heap (s.queue w) a = some (heap, q) ∧
        s' = s.enqueue w heap q cell.item := by
  unfold Turns Daemon.next at h
  simp only at h
  split at h
  · next w a hfilled =>
      rcases Option.bind_eq_some_iff.mp h with ⟨cell, hcell, hrest⟩
      rcases Option.bind_eq_some_iff.mp hrest with ⟨⟨heap, q⟩, hpush, hstate⟩
      cases hstate
      exact ⟨w, a, cell, heap, q, hfilled, hcell, hpush, rfl⟩
  · cases h

theorem turns_send (h : Turns s .send s') :
    exists w, s.accepting = .pushed w ∧
      s' = { s.mark w true with accepting := .idle } := by
  unfold Turns Daemon.next at h
  simp only at h
  split at h
  · next w hpushed =>
      cases h
      exact ⟨w, hpushed, rfl⟩
  · cases h

theorem turns_invoke (h : Turns s (.invoke w) s') :
    s.serving w = .waiting ∧ s.pending w = true ∧
      s' = (s.mark w false).serve w .popping := by
  unfold Turns Daemon.next at h
  simp only at h
  split at h
  · next hwaiting =>
      split at h
      · next hpending =>
          cases h
          exact ⟨hwaiting, hpending, rfl⟩
      · cases h
  · cases h

theorem turns_pop (hserved : Served s cells) (h : Turns s (.pop w) s') :
    s.serving w = .popping ∧ ((cells w = [] ∧ s' = s.serve w .leaving) ∨
      exists a as q cell, cells w = a :: as ∧
        LinkedQueue.pop s.heap (s.queue w) = some (some a, q) ∧
          s.heap a = some cell ∧
        s' = (s.dequeue w q [cell.item]).serve w (.handling a)) := by
  unfold Turns Daemon.next at h
  simp only at h
  split at h
  · next hpopping =>
      refine ⟨hpopping, ?_⟩
      cases hcells : cells w with
      | nil =>
          have hrep := hserved.represents w
          rw [hcells] at hrep
          simp only [LinkedQueue.pop_empty hrep, Option.bind_eq_bind,
            Option.bind_some, dequeue_nil,
            Option.pure_def, Option.some.injEq] at h
          exact Or.inl ⟨rfl, h.symm⟩
      | cons a as =>
          rcases served_pop hserved hpopping hcells with ⟨q, cell, hpop, hcell, _⟩
          simp only [hpop, hcell, Option.bind_eq_bind, Option.bind_some,
            Option.pure_def,
            Option.some.injEq] at h
          exact Or.inr ⟨a, as, q, cell, rfl, hpop, hcell, h.symm⟩
  · cases h

theorem turns_free (h : Turns s (.free w) s') :
    exists a, s.serving w = .handling a ∧ s' = (s.free a).serve w .popping := by
  unfold Turns Daemon.next at h
  simp only at h
  split at h
  · next a hhandling =>
      rcases Option.bind_eq_some_iff.mp h with ⟨_, _, hstate⟩
      cases hstate
      exact ⟨a, hhandling, rfl⟩
  · cases h

theorem turns_leave (h : Turns s (.leave w) s') :
    s.serving w = .leaving ∧ s' = s.serve w .waiting := by
  unfold Turns Daemon.next at h
  simp only at h
  split at h
  · next hleaving =>
      cases h
      exact ⟨hleaving, rfl⟩
  · cases h

theorem served_turn {turn : Turn worker addr server} (h : Served s cells)
    (hturn : Turns s turn s') :
    exists cells', Served s' cells' := by
  cases turn with
  | fill w a item =>
      rcases turns_fill hturn with ⟨hidle, hnone, rfl⟩
      exact ⟨cells, served_fill item h hidle hnone⟩
  | push =>
      rcases turns_push hturn with ⟨w, a, cell, heap, q, hfilled, hcell, hpush, rfl⟩
      rcases served_push h hfilled hcell with ⟨heap', q', hpush', hserved⟩
      cases hpush.symm.trans hpush'
      exact ⟨_, hserved⟩
  | send =>
      rcases turns_send hturn with ⟨w, hpushed, rfl⟩
      exact ⟨cells, served_send h hpushed⟩
  | invoke w =>
      rcases turns_invoke hturn with ⟨hwaiting, _, rfl⟩
      refine ⟨cells, served_serve w .popping false h (by rintro a ⟨⟩) ?_⟩
      intro _ _
      exact Or.inr (Or.inl (serve_self w .popping))
  | pop w =>
      rcases turns_pop h hturn with
        ⟨hpopping, ⟨hnil, rfl⟩ | ⟨a, as, q, cell, hcells, hpop, hcell, rfl⟩⟩
      · have hserve := served_serve w .leaving (s.pending w) h (by rintro a ⟨⟩)
          (fun hne => absurd hnil hne)
        rw [mark_eq] at hserve
        exact ⟨cells, hserve⟩
      · rcases served_pop h hpopping hcells with ⟨q', cell', hpop', hcell', hserved⟩
        cases hpop.symm.trans hpop'
        cases hcell.symm.trans hcell'
        exact ⟨_, hserved⟩
  | free w =>
      rcases turns_free hturn with ⟨a, hhandling, rfl⟩
      exact ⟨cells, served_free h hhandling⟩
  | leave w =>
      rcases turns_leave hturn with ⟨hleaving, rfl⟩
      exact ⟨cells, served_leave h hleaving⟩

end Turns

/-!
# Every item is served once
-/

section Runs

variable [DecidableEq worker] [DecidableEq addr]
  {s s' : Daemon worker addr server} {w : worker}

inductive Drains (w : worker) : Turn worker addr server -> Prop where
  | send : Drains w .send
  | invoke : Drains w (.invoke w)
  | pop : Drains w (.pop w)
  | free : Drains w (.free w)
  | leave : Drains w (.leave w)

def Serving.rank : Serving addr -> Nat
  | .popping => 0
  | .handling _ => 1
  | .waiting => 1
  | .leaving => 2

def Accepting.rank : Accepting worker addr -> Nat
  | .pushed _ => 1
  | _ => 0

def Daemon.backlog (w : worker) (s : Daemon worker addr server) : Nat :=
  3 * ((s.queued w).length - (s.taken w).length) + (s.serving w).rank +
    s.accepting.rank

theorem drains_turn {cells : worker -> List addr}
    {turn : Turn worker addr server} (h : Served s cells)
    (hdrains : Drains w turn) (hleft : cells w ≠ []) (hturn : Turns s turn s') :
    s'.queued w = s.queued w ∧ s'.backlog w < s.backlog w := by
  cases hdrains with
  | send =>
      rcases turns_send hturn with ⟨w', hpushed, rfl⟩
      refine ⟨rfl, ?_⟩
      simp only [Daemon.backlog, hpushed, Accepting.rank, Daemon.mark]
      omega
  | invoke =>
      rcases turns_invoke hturn with ⟨hwaiting, _, rfl⟩
      refine ⟨rfl, ?_⟩
      simp only [Daemon.backlog, hwaiting, Serving.rank, Daemon.mark, Daemon.serve]
      simp only [Function.update_self]
      omega
  | pop =>
      rcases turns_pop h hturn with
        ⟨hpopping, ⟨hnil, _⟩ | ⟨a, as, q, cell, hcells, _, _, rfl⟩⟩
      · exact absurd hnil hleft
      · refine ⟨rfl, ?_⟩
        rcases h.queued_eq w with ⟨rest, hqueued, hlength⟩
        rw [hcells, List.length_cons] at hlength
        have hmore : (s.queued w).length = (s.taken w).length +
            (as.length + 1) := by
          rw [hqueued, List.length_append, hlength]
        have htaken :
            (((s.dequeue w q [cell.item]).serve w (.handling a)).taken w).length =
            (s.taken w).length + 1 := by
          simp only [Daemon.dequeue, Daemon.serve, Function.update_self,
            List.length_append,
            List.length_cons, List.length_nil]
        have hqueued' :
            ((s.dequeue w q [cell.item]).serve w (.handling a)).queued w =
            s.queued w := rfl
        have haccepting :
            ((s.dequeue w q [cell.item]).serve w (.handling a)).accepting =
            s.accepting := rfl
        rw [Daemon.backlog, Daemon.backlog, htaken, hqueued', haccepting,
          serve_self, hpopping, hmore]
        simp only [Serving.rank]
        omega
  | free =>
      rcases turns_free hturn with ⟨a, hhandling, rfl⟩
      refine ⟨rfl, ?_⟩
      simp only [Daemon.backlog, hhandling, Serving.rank, Daemon.free, Daemon.serve]
      simp only [Function.update_self]
      omega
  | leave =>
      rcases turns_leave hturn with ⟨hleaving, rfl⟩
      refine ⟨rfl, ?_⟩
      simp only [Daemon.backlog, hleaving, Serving.rank, Daemon.serve]
      simp only [Function.update_self]
      omega

theorem pop_enabled {cells : worker -> List addr} (h : Served s cells)
    (hleft : cells w ≠ [])
    (hpopping : s.serving w = .popping) : exists s', Turns s (.pop w) s' := by
  rcases List.exists_cons_of_ne_nil hleft with ⟨a, as, hcells⟩
  rcases served_pop h hpopping hcells with ⟨q, cell, hpop, hcell, _⟩
  refine ⟨(s.dequeue w q [cell.item]).serve w (.handling a), ?_⟩
  simp only [Turns, Daemon.next, hpopping, hpop, hcell, Option.bind_eq_bind,
    Option.bind_some,
    Option.pure_def]

theorem free_enabled {cells : worker -> List addr} (h : Served s cells) {a : addr}
    (hhandling : s.serving w = .handling a) : exists s', Turns s (.free w) s' := by
  rcases Option.ne_none_iff_exists'.mp
    (h.allocated (.worker w) a hhandling) with ⟨cell, hcell⟩
  refine ⟨(s.free a).serve w .popping, ?_⟩
  simp only [Turns, Daemon.next, hhandling, hcell, Option.bind_eq_bind,
    Option.bind_some,
    Option.pure_def]

theorem drains_enabled {cells : worker -> List addr} (h : Served s cells)
    (hleft : cells w ≠ []) :
    exists turn s', Drains w turn ∧ Turns s turn s' := by
  rcases h.notified w hleft with hpending | hpopping | ⟨a, hhandling⟩ | hpushed
  · cases hserving : s.serving w with
    | waiting =>
        refine ⟨.invoke w, (s.mark w false).serve w .popping, .invoke, ?_⟩
        simp only [Turns, Daemon.next, hserving, hpending, if_true]
    | popping =>
        rcases pop_enabled h hleft hserving with ⟨s', hturn⟩
        exact ⟨.pop w, s', .pop, hturn⟩
    | handling a =>
        rcases free_enabled h hserving with ⟨s', hturn⟩
        exact ⟨.free w, s', .free, hturn⟩
    | leaving =>
        refine ⟨.leave w, s.serve w .waiting, .leave, ?_⟩
        simp only [Turns, Daemon.next, hserving]
  · rcases pop_enabled h hleft hpopping with ⟨s', hturn⟩
    exact ⟨.pop w, s', .pop, hturn⟩
  · rcases free_enabled h hhandling with ⟨s', hturn⟩
    exact ⟨.free w, s', .free, hturn⟩
  · refine ⟨.send, { s.mark w true with accepting := .idle }, .send, ?_⟩
    simp only [Turns, Daemon.next, hpushed]

theorem run_served {turns : List (Turn worker addr server)}
    (hrun : Runs Turns (daemonStart worker addr server) turns s) :
    exists cells, Served s cells := by
  have hstep : forall (s : Daemon worker addr server) turn s',
      (exists cells, Served s cells) ->
      Turns s turn s' -> exists cells, Served s' cells := by
    rintro s turn s' ⟨cells, h⟩ hturn
    exact served_turn h hturn
  exact Runs.invariant hstep hrun ⟨_, served_start⟩

/-- However the queue of a worker has been filled, it can be served to its end. -/
theorem drains {cells : worker -> List addr} (h : Served s cells) (w : worker) :
    exists more s', Runs Turns s more s' ∧ s'.queued w = s.queued w ∧
      s'.taken w = s.queued w := by
  let inv : Daemon worker addr server -> Prop := fun t =>
    (exists cells, Served t cells) ∧ t.queued w = s.queued w
  let final : Daemon worker addr server -> Prop := fun t => t.taken w = t.queued w
  have hstep : forall t turn t', inv t -> ¬ final t ->
      Guarded Turns (fun _ turn => Drains w turn) t turn t' -> inv t' ∧
        t'.backlog w < t.backlog w := by
    rintro t turn t' ⟨⟨cells, hserved⟩, hqueued⟩ hfinal ⟨hturn, hdrains⟩
    rcases drains_turn hserved hdrains (fun hnil =>
      hfinal (hserved.all_taken.mp hnil)) hturn
      with ⟨hsame, hless⟩
    exact ⟨⟨served_turn hserved hturn, hsame.trans hqueued⟩, hless⟩
  have hprogress : forall t, inv t -> ¬ final t ->
      exists turn t', Guarded Turns (fun _ turn => Drains w turn) t turn t' := by
    rintro t ⟨⟨cells, hserved⟩, _⟩ hfinal
    rcases drains_enabled hserved (fun hnil => hfinal (hserved.all_taken.mp hnil))
      with ⟨turn, t', hdrains, hturn⟩
    exact ⟨turn, t', hturn, hdrains⟩
  have hstart : inv s := ⟨⟨cells, h⟩, rfl⟩
  rcases Runs.reaches hstep hprogress hstart with
    ⟨more, t, hmore, ⟨_, hqueued⟩, hfinal⟩
  exact ⟨more, t, hmore.of_guarded, hqueued, hfinal.trans hqueued⟩

/--
In every interleaving, a worker has taken the items that were queued for it in
their order, each once. Outside of the callback, without an event that was sent
or is about to be sent, its queue is empty. And what was queued can be served to
the end.
-/
theorem served_once {turns : List (Turn worker addr server)}
    (hrun : Runs Turns (daemonStart worker addr server) turns s) (w : worker) :
    s.taken w <+: s.queued w ∧
      (s.pending w = false -> s.serving w = .waiting -> s.accepting ≠ .pushed w ->
        s.queue w = LinkedQueue.empty ∧ s.taken w = s.queued w) ∧
      (exists more s', Runs Turns s more s' ∧ s'.queued w = s.queued w ∧
        s'.taken w = s.queued w) := by
  rcases run_served hrun with ⟨cells, h⟩
  rcases h.queued_eq w with ⟨rest, hqueued, _⟩
  refine ⟨⟨rest, hqueued.symm⟩, ?_, drains h w⟩
  intro hpending hwaiting haccepting
  have hnil : cells w = [] := by
    by_contra hleft
    rcases h.notified w hleft with hpending' | hpopping | ⟨a, hhandling⟩ | hpushed
    · rw [hpending] at hpending'
      cases hpending'
    · rw [hwaiting] at hpopping
      cases hpopping
    · rw [hwaiting] at hhandling
      cases hhandling
    · exact haccepting hpushed
  refine ⟨?_, h.all_taken.mp hnil⟩
  have hrep := h.represents w
  rw [hnil] at hrep
  exact LinkedQueue.eq_empty hrep

end Runs

/-- A connection in the queue, with nobody told yet. -/
theorem queue_not_empty :
    exists turns s, Runs Turns (daemonStart Unit Nat Unit) turns s ∧
      s.pending () = false ∧
      s.serving () = .waiting ∧ s.queue () ≠ LinkedQueue.empty := by
  have hrun : Runs Turns (daemonStart Unit Nat Unit)
      [.fill () 0 { sfd := 5, szAddr := [], port := 0, data := () }, .push] _ :=
    .cons rfl (.single rfl)
  refine ⟨_, _, hrun, rfl, rfl, ?_⟩
  intro heq
  cases heq

def twoServed : List (Turn Bool Nat Unit) :=
  [.fill false 0 { sfd := 5, szAddr := [], port := 0, data := () }, .push, .send,
    .fill true 1 { sfd := 6, szAddr := [], port := 0, data := () },
      .invoke false, .push, .pop false,
    .send, .invoke true, .pop true, .free false, .pop false, .free true,
      .leave false, .pop true,
    .leave true]

theorem served_once_two :
    exists s : Daemon Bool Nat Unit,
      Runs Turns (daemonStart Bool Nat Unit) twoServed s ∧
      forall w, s.queue w = LinkedQueue.empty ∧ s.taken w = s.queued w ∧
        (s.taken w).length = 1 := by
  have hrun : Runs Turns (daemonStart Bool Nat Unit) twoServed _ :=
    .cons rfl
      (.cons rfl
      (.cons rfl (.cons rfl (.cons rfl (.cons rfl (.cons rfl (.cons rfl (.cons rfl
      (.cons rfl
        (.cons rfl
        (.cons rfl (.cons rfl (.cons rfl (.cons rfl (.single rfl)))))))))))))))
  refine ⟨_, hrun, fun w => ?_⟩
  cases w with
  | false =>
      rcases (served_once hrun false).right.left rfl rfl (by rintro ⟨⟩) with
        ⟨hqueue, htaken⟩
      exact ⟨hqueue, htaken, rfl⟩
  | true =>
      rcases (served_once hrun true).right.left rfl rfl (by rintro ⟨⟩) with
        ⟨hqueue, htaken⟩
      exact ⟨hqueue, htaken, rfl⟩

end JsonRpc
end Lepd
