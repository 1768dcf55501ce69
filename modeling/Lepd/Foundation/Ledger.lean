import Mathlib.Data.List.Count
import Mathlib.Data.List.Perm.Basic
import Mathlib.Data.List.Range

/-!
# Ledgers

Nodes are numbered in the order in which they are allocated. A node is in a
state as often as the state accounts for it; a routine holds further nodes in
its own variables. A node that is neither in the state nor held any more is
lost.
-/

namespace Lepd
namespace Foundation

/-- How the nodes of a state are counted, and what stays the same while they are
moved. -/
structure Ledger (state : Type) where
  /-- The number of nodes that have been allocated. -/
  nodes : state -> Nat
  count : state -> Nat -> Nat
  frame : state -> state -> Prop
  refl : forall s, frame s s
  trans : forall {s t u}, frame s t -> frame t u -> frame s u

def after {state fault value : Type} (x : StateT state (Except fault) value)
    (kept : value -> state -> Prop)
    (s : state) : Prop :=
  forall a t, x s = .ok (a, t) -> kept a t

/-- What a run that returns does to a state, as far as a view of the states
shows it. -/
def Views {state fault value shown : Type} (view : state -> shown)
    (x : StateT state (Except fault) value)
    (found : shown -> value -> shown -> Prop) : Prop :=
  forall s a t, x s = .ok (a, t) -> found (view s) a (view t)

namespace Ledger

variable {state fault value result : Type} {ledger : Ledger state}

def allocated (ledger : Ledger state) (s t : state) (n : Nat) : Nat :=
  if ledger.nodes s <= n ∧ n < ledger.nodes t then 1 else 0

/-- From a state and what is held there to another one, where some nodes have
been lost. -/
structure Moved (ledger : Ledger state) (s : state) (held : List Nat)
    (t : state) (held' lost : List Nat) : Prop where
  frame : ledger.frame s t
  nodes : ledger.nodes s <= ledger.nodes t
  count : forall n, ledger.count t n + held'.count n + lost.count n =
    ledger.count s n + held.count n + ledger.allocated s t n

section Moves

variable {s t u : state} {held held' held'' lost lost' : List Nat}

theorem allocated_self (s : state) (n : Nat) : ledger.allocated s s n = 0 :=
  if_neg (fun h => absurd (Nat.lt_of_le_of_lt h.left h.right) (Nat.lt_irrefl _))

theorem allocated_trans (hst : ledger.nodes s <= ledger.nodes t)
    (htu : ledger.nodes t <= ledger.nodes u) (n : Nat) :
    ledger.allocated s u n = ledger.allocated s t n + ledger.allocated t u n := by
  unfold allocated
  split <;> split <;> split <;> omega

theorem Moved.refl (s : state) (held : List Nat) : ledger.Moved s held s held
    [] where
  frame := ledger.refl s
  nodes := Nat.le_refl _
  count n := by
    rw [allocated_self, List.count_nil]

theorem Moved.trans (hst : ledger.Moved s held t held' lost)
    (htu : ledger.Moved t held' u held'' lost') :
    ledger.Moved s held u held'' (lost ++ lost') where
  frame := ledger.trans hst.frame htu.frame
  nodes := Nat.le_trans hst.nodes htu.nodes
  count n := by
    have hcount := hst.count n
    have hcount' := htu.count n
    have hall := allocated_trans hst.nodes htu.nodes n
    rw [List.count_append]
    omega

theorem Moved.hold (h : ledger.Moved s held t held' lost) (more : List Nat) :
    ledger.Moved s (held ++ more) t (held' ++ more) lost where
  frame := h.frame
  nodes := h.nodes
  count n := by
    have hcount := h.count n
    rw [List.count_append, List.count_append]
    omega

theorem Moved.perm {held₂ held₂' : List Nat}
    (h : ledger.Moved s held t held' lost) (hp : held.Perm held₂)
    (hp' : held'.Perm held₂') : ledger.Moved s held₂ t held₂' lost where
  frame := h.frame
  nodes := h.nodes
  count n := by
    rw [← hp.count_eq, ← hp'.count_eq]
    exact h.count n

theorem Moved.of_count (hframe : ledger.frame s t)
    (hnodes : ledger.nodes t = ledger.nodes s)
    (hcount : forall n, ledger.count t n + held'.count n = ledger.count s n +
    held.count n) :
    ledger.Moved s held t held' [] where
  frame := hframe
  nodes := Nat.le_of_eq hnodes.symm
  count n := by
    have hnone : ledger.allocated s t n = 0 := if_neg (by omega)
    rw [hnone, List.count_nil, hcount n]

theorem Moved.lose (h : ledger.Moved s held t held' []) :
    ledger.Moved s held t [] held' where
  frame := h.frame
  nodes := h.nodes
  count n := by
    have hcount := h.count n
    rw [List.count_nil] at hcount ⊢
    omega

end Moves

/-!
# Routines
-/

/-- A run that returns moves nodes, and loses none if and only if a condition
holds where it starts. -/
def Accounts (ledger : Ledger state) (x : StateT state (Except fault) value)
    (held : List Nat)
    (held' : value -> List Nat) (kept : state -> Prop) : Prop :=
  forall s a t, x s = .ok (a, t) -> exists lost,
    ledger.Moved s held t (held' a) lost ∧ (lost = [] <-> kept s)

/-- A run that returns moves nodes, and loses none. -/
def Keeps (ledger : Ledger state) (x : StateT state (Except fault) value)
    (held : List Nat)
    (held' : value -> List Nat) : Prop :=
  forall s a t, x s = .ok (a, t) -> ledger.Moved s held t (held' a) []

/-- The values that a routine returns. -/
def Returns (x : StateT state (Except fault) value) (a : value) : Prop :=
  exists s t, x s = .ok (a, t)

section Routines

variable {x : StateT state (Except fault) value} {f : value ->
  StateT state (Except fault) result}
  {held : List Nat} {held' : value -> List Nat} {held'' : result -> List Nat}
    {kept : state -> Prop}

theorem bind_returns {s u : state} {r : result} (h : (x >>= f) s = .ok (r, u)) :
    exists a t, x s = .ok (a, t) ∧ f a t = .ok (r, u) := by
  change (x s >>= fun p => f p.1 p.2) = _ at h
  cases hx : x s with
  | error reason =>
      rw [hx] at h
      cases h
  | ok p =>
      rw [hx] at h
      exact ⟨p.1, p.2, rfl, h⟩

theorem Keeps.accounts (h : ledger.Keeps x held held')
    (hkept : forall s a t, x s = .ok (a, t) -> kept s) :
    ledger.Accounts x held held' kept :=
  fun s a t hx => ⟨[], h s a t hx, fun _ => hkept s a t hx, fun _ => rfl⟩

theorem Accounts.congr {kept' : state -> Prop}
    (h : ledger.Accounts x held held' kept)
    (hkept : forall s a t, x s = .ok (a, t) -> (kept s <-> kept' s)) :
    ledger.Accounts x held held' kept' := by
  intro s a t hx
  rcases h s a t hx with ⟨lost, hmoved, hlost⟩
  exact ⟨lost, hmoved, hlost.trans (hkept s a t hx)⟩

theorem Keeps.pure {a : value} (h : held' a = held) :
    ledger.Keeps (pure a : StateT state (Except fault) value) held held' := by
  intro s b t hx
  cases hx
  rw [h]
  exact Moved.refl s held

theorem Keeps.of_error (h : forall s, exists reason, x s = .error reason) :
    ledger.Keeps x held held' := by
  intro s a t hx
  rcases h s with ⟨reason, hreason⟩
  rw [hreason] at hx
  cases hx

theorem Keeps.modify {change : state -> state} {more : List Nat}
    (h : forall s, ledger.Moved s held (change s) more []) :
    ledger.Keeps (modify change : StateT state (Except fault) PUnit) held
      (fun _ => more) := by
  intro s a t hx
  cases hx
  exact h s

theorem Accounts.bind {kept' : value -> state -> Prop}
    (hx : ledger.Accounts x held held' kept)
    (hf : forall a, Returns x a -> ledger.Accounts (f a) (held' a) held''
    (kept' a)) :
    ledger.Accounts (x >>= f) held held'' (fun s => kept s ∧ after x kept' s) := by
  intro s r u hrun
  rcases bind_returns hrun with ⟨a, t, hxa, hfa⟩
  rcases hx s a t hxa with ⟨lost, hmoved, hlost⟩
  rcases hf a ⟨s, t, hxa⟩ t r u hfa with ⟨lost', hmoved', hlost'⟩
  refine ⟨lost ++ lost', hmoved.trans hmoved', ?_⟩
  rw [List.append_eq_nil_iff, hlost, hlost']
  constructor
  · intro h
    refine ⟨h.left, fun b v hxb => ?_⟩
    cases hxa.symm.trans hxb
    exact h.right
  · intro h
    exact ⟨h.left, h.right a t hxa⟩

theorem Keeps.bind (hx : ledger.Keeps x held held')
    (hf : forall a, Returns x a -> ledger.Keeps (f a) (held' a) held'') :
    ledger.Keeps (x >>= f) held held'' := by
  intro s r u hrun
  rcases bind_returns hrun with ⟨a, t, hxa, hfa⟩
  exact (hx s a t hxa).trans (hf a ⟨s, t, hxa⟩ t r u hfa)

theorem Keeps.bind_accounts {kept' : value -> state -> Prop}
    (hx : ledger.Keeps x held held')
    (hf : forall a, Returns x a -> ledger.Accounts (f a) (held' a) held''
    (kept' a)) :
    ledger.Accounts (x >>= f) held held'' (after x kept') :=
  ((hx.accounts (fun _ _ _ _ => trivial)).bind hf).congr (fun _ _ _ _ =>
    ⟨And.right, fun h => ⟨trivial, h⟩⟩)

theorem Accounts.bind_keeps (hx : ledger.Accounts x held held' kept)
    (hf : forall a, Returns x a -> ledger.Keeps (f a) (held' a) held'') :
    ledger.Accounts (x >>= f) held held'' kept :=
  (hx.bind (fun a ha => (hf a ha).accounts (fun _ _ _ _ => trivial))).congr
    (fun _ _ _ _ => ⟨And.left, fun h => ⟨h, fun _ _ _ => trivial⟩⟩)

theorem Accounts.hold (h : ledger.Accounts x held held' kept) (more : List Nat) :
    ledger.Accounts x (held ++ more) (fun a => held' a ++ more) kept := by
  intro s a t hx
  rcases h s a t hx with ⟨lost, hmoved, hlost⟩
  exact ⟨lost, hmoved.hold more, hlost⟩

theorem Keeps.hold (h : ledger.Keeps x held held') (more : List Nat) :
    ledger.Keeps x (held ++ more) (fun a => held' a ++ more) :=
  fun s a t hx => (h s a t hx).hold more

theorem Accounts.perm {held₂ : List Nat} {held₂' : value -> List Nat}
    (h : ledger.Accounts x held held' kept)
    (hp : held.Perm held₂) (hp' : forall a, (held' a).Perm (held₂' a)) :
    ledger.Accounts x held₂ held₂' kept := by
  intro s a t hx
  rcases h s a t hx with ⟨lost, hmoved, hlost⟩
  exact ⟨lost, hmoved.perm hp (hp' a), hlost⟩

theorem Keeps.perm {held₂ : List Nat} {held₂' : value -> List Nat}
    (h : ledger.Keeps x held held')
    (hp : held.Perm held₂) (hp' : forall a, (held' a).Perm (held₂' a)) :
    ledger.Keeps x held₂ held₂' :=
  fun s a t hx => (h s a t hx).perm hp (hp' a)

theorem Accounts.lose {a : value} (h : held' a = [])
    (hkept : forall s, kept s <-> held = []) :
    ledger.Accounts (pure a : StateT state (Except fault) value) held held'
      kept := by
  intro s b t hx
  cases hx
  refine ⟨held, ⟨ledger.refl s, Nat.le_refl _, fun n => ?_⟩, (hkept s).symm⟩
  rw [allocated_self, h, List.count_nil]
  omega

theorem Keeps.drop (h : ledger.Keeps x held held')
    (hkept : forall s a t, x s = .ok (a, t) -> (held' a = [] <-> kept s)) :
    ledger.Accounts x held (fun _ => []) kept := by
  intro s a t hx
  exact ⟨held' a, (h s a t hx).lose, hkept s a t hx⟩

end Routines

end Ledger

/-!
# Views
-/

section Views

variable {state fault value result shown : Type} {view : state -> shown}
  {x : StateT state (Except fault) value}
  {found : shown -> value -> shown -> Prop}

theorem Views.congr {found' : shown -> value -> shown -> Prop}
    (hx : Views view x found)
    (h : forall p a q, found p a q -> found' p a q) : Views view x found' :=
  fun s a t ha => h _ _ _ (hx s a t ha)

theorem Views.bind {f : value -> StateT state (Except fault) result}
    {found' : shown -> result -> shown -> Prop}
    (hx : Views view x found)
    (hf : forall p a, Views view (f a) (fun q r u => found p a q -> found' p r u)) :
    Views view (x >>= f) found' := by
  intro s r u h
  rcases Ledger.bind_returns h with ⟨a, t, ha, hr⟩
  exact hf (view s) a t r u hr (hx s a t ha)

theorem Views.pure {a : value} (h : forall p, found p a p) :
    Views view (pure a : StateT state (Except fault) value) found := by
  intro s b t hb
  cases hb
  exact h (view s)

end Views

end Foundation
end Lepd
