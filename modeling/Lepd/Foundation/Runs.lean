import Mathlib.Algebra.Order.Ring.Nat
import Mathlib.Data.List.Basic

/-!
# Runs of a transition system

A system is a relation between a state, an event and the next state.  A run lists
the events it took.  Every invariant is proved for one step and carried over to
runs by the rules below.
-/

namespace Lepd
namespace Foundation

variable {state event : Type}

/-- The states that a sequence of events leads to. -/
inductive Runs (step : state -> event -> state -> Prop) : state -> List event ->
    state -> Prop where
  | nil {s : state} : Runs step s [] s
  | snoc {s t u : state} {events : List event} {e : event} :
      Runs step s events t -> step t e u -> Runs step s (events ++ [e]) u

namespace Runs

variable {step step' : state -> event -> state -> Prop}

theorem single {s t : state} {e : event} (h : step s e t) : Runs step s [e] t :=
  .snoc .nil h

theorem append {s t u : state} {events more : List event} (h : Runs step s events t)
    (h' : Runs step t more u) : Runs step s (events ++ more) u := by
  induction h' with
  | nil =>
      rw [List.append_nil]
      exact h
  | snoc _ hstep ih =>
      rw [← List.append_assoc]
      exact .snoc ih hstep

theorem cons {s t u : state} {e : event} {events : List event} (h : step s e t)
    (h' : Runs step t events u) : Runs step s (e :: events) u :=
  (single h).append h'

theorem of_nil {s u : state} (h : Runs step s [] u) : u = s := by
  generalize hall : ([] : List event) = all at h
  cases h with
  | nil => rfl
  | snoc _ _ =>
      exact absurd hall.symm (List.append_ne_nil_of_right_ne_nil _
      (List.cons_ne_nil _ []))

theorem of_concat {s u : state} {events : List event} {e : event}
    (h : Runs step s (events ++ [e]) u) :
    exists t, Runs step s events t ∧ step t e u := by
  generalize hall : events ++ [e] = all at h
  cases h with
  | nil => exact absurd hall (List.append_ne_nil_of_right_ne_nil events
      (List.cons_ne_nil e []))
  | snoc hrun hstep =>
      rcases List.append_inj' hall rfl with ⟨rfl, hlast⟩
      cases hlast
      exact ⟨_, hrun, hstep⟩

theorem invariant {inv : state -> Prop}
    (hstep : forall s e t, inv s -> step s e t -> inv t)
    {s t : state} {events : List event} (h : Runs step s events t)
    (hs : inv s) : inv t := by
  induction h with
  | nil =>
      exact hs
  | snoc _ hlast ih =>
      exact hstep _ _ _ ih hlast

theorem invariant_events {inv : List event -> state -> Prop}
    (hstep : forall events s e t, inv events s -> step s e t ->
    inv (events ++ [e]) t)
    {s t : state} {events : List event} (h : Runs step s events t) (hs : inv [] s) :
    inv events t := by
  induction h with
  | nil =>
      exact hs
  | snoc _ hlast ih =>
      exact hstep _ _ _ _ ih hlast

/-- Where a measure falls and no state but a final one is stuck, every state
leads to a final one. -/
theorem reaches {inv final : state -> Prop} {measure : state -> Nat}
    (hstep : forall s e t, inv s -> ¬ final s -> step s e t -> inv t ∧
    measure t < measure s)
    (hprogress : forall s, inv s -> ¬ final s -> exists e t, step s e t)
    {s : state} (hs : inv s) : exists events t, Runs step s events t ∧ inv t ∧
    final t := by
  induction hm : measure s using Nat.strongRecOn generalizing s with
  | ind m ih =>
      by_cases hfinal : final s
      · exact ⟨[], s, .nil, hs, hfinal⟩
      · rcases hprogress s hs hfinal with ⟨e, t, hst⟩
        rcases hstep s e t hs hfinal hst with ⟨ht, hless⟩
        rcases ih (measure t) (hm ▸ hless) ht rfl with ⟨events, u, hrun, hu⟩
        exact ⟨e :: events, u, .cons hst hrun, hu⟩

theorem mono (hstep : forall s e t, step s e t -> step' s e t) {s t : state}
    {events : List event}
    (h : Runs step s events t) : Runs step' s events t := by
  induction h with
  | nil =>
      exact .nil
  | snoc _ hlast ih =>
      exact .snoc ih (hstep _ _ _ hlast)

end Runs

/-- The steps that meet a condition on the state before them and the event. -/
def Guarded (step : state -> event -> state -> Prop)
    (guard : state -> event -> Prop) :
    state -> event -> state -> Prop :=
  fun s e t => step s e t ∧ guard s e

theorem Runs.of_guarded {step : state -> event -> state -> Prop}
    {guard : state -> event -> Prop}
    {s t : state} {events : List event} (h : Runs (Guarded step guard) s events t) :
    Runs step s events t :=
  h.mono (fun _ _ _ hstep => hstep.left)

end Foundation
end Lepd
