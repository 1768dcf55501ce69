import Lepd.JsonRpc.BufferRuns
import Lepd.JsonRpc.Requests

/-!
# Dispatching a stream of requests

A stream of requests arrives in chunks that need not agree with the requests. As
long as each chunk leaves the buffer with at most one whole request that can be
shifted, the requests whose last byte has arrived are dispatched, in order.
-/

namespace Lepd
namespace JsonRpc

open Foundation
open CJson

variable {double : Type} [CDouble double]

/-!
# Streams
-/

/-- The bytes of a sequence of requests. -/
def stream (requests : List (Request double)) : List UInt8 :=
  (requests.map Request.bytes).flatten

/-- The requests whose last byte is among the first bytes of their stream. -/
def completed : List (Request double) -> Nat -> List (Request double)
  | [], _ => []
  | r :: requests, n =>
      if r.bytes.length <= n then r :: completed requests (n - r.bytes.length)
      else []

def HoldsRequest (double : Type) [CDouble double] (bytes : List UInt8) : Prop :=
  exists r : Request double, r.bytes <+: bytes

theorem stream_cons (r : Request double) (requests : List (Request double)) :
    stream (r :: requests) = r.bytes ++ stream requests := rfl

theorem stream_append (first rest : List (Request double)) :
    stream (first ++ rest) = stream first ++ stream rest := by
  simp [stream]

theorem completed_append (first rest : List (Request double)) (n : Nat) :
    completed (first ++ rest) ((stream first).length + n) = first ++
      completed rest n := by
  induction first with
  | nil =>
      rw [List.nil_append, List.nil_append]
      congr 1
      exact Nat.zero_add n
  | cons r first ih =>
      have hlength : (stream (r :: first)).length + n =
          r.bytes.length + ((stream first).length + n) := by
        rw [stream_cons, List.length_append, Nat.add_assoc]
      rw [hlength, List.cons_append, completed, if_pos (Nat.le_add_right _ _),
        Nat.add_sub_cancel_left, ih]
      rfl

theorem nul_not_mem_stream (requests : List (Request double)) :
    nul ∉ stream requests := by
  intro hmem
  rcases List.mem_flatten.mp hmem with ⟨text, htext, hnul⟩
  rcases List.mem_map.mp htext with ⟨r, _, rfl⟩
  exact r.nul_not_mem hnul

theorem not_holdsRequest_of_part (r : Request double) {bytes : List UInt8}
    (hpart : bytes <+: r.bytes)
    (hproper : bytes ≠ r.bytes) : ¬ HoldsRequest double bytes := by
  rintro ⟨r', rest, rfl⟩
  have hcut := cJSONParseStream_cut (fun _ => (0, 0)) 0 .object r.spaced r.denotes
    hpart hproper
  have hparse := r'.parse (fun _ => (0, 0)) (rest ++ zeros 1) (by simp [zeros])
  rw [← List.append_assoc] at hparse
  rcases hcut with ⟨_, reason, hfault⟩ | ⟨cur, hnull, _⟩
  · cases hparse.symm.trans hfault
  · cases hparse.symm.trans hnull

theorem part_of_ws {w : List UInt8} (hw : Ws w) :
    exists r : Request double, w <+: r.bytes ∧ w ≠ r.bytes := by
  refine ⟨{ space := w, text := emptyObject 0, members := [], spaced := hw,
            denotes := denotes_emptyObject 0 }, List.prefix_append w _, ?_⟩
  intro heq
  have hnil : emptyObject 0 = [] := List.append_right_eq_self.mp heq.symm
  cases hnil

/-- The front of a stream is a part of a request, or a request and the front of
a stream. -/
theorem stream_front {requests : List (Request double)}
    {trailing bytes : List UInt8}
    (htrailing : Ws trailing) (h : bytes <+: stream requests ++ trailing) :
    (exists r : Request double, bytes <+: r.bytes ∧ bytes ≠ r.bytes) ∨
      exists r others rest, requests = r :: others ∧ bytes = r.bytes ++ rest ∧
        rest <+: stream others ++ trailing := by
  cases requests with
  | nil =>
      refine Or.inl (part_of_ws ?_)
      intro c hc
      exact htrailing c (h.subset hc)
  | cons r others =>
      rw [stream_cons, List.append_assoc] at h
      rcases prefix_append_cases h with ⟨c, rest, hrest⟩ | ⟨rest, hrest, rfl⟩
      · refine Or.inl ⟨r, ⟨_, hrest.symm⟩, ?_⟩
        intro heq
        rw [heq] at hrest
        have hnil := List.append_right_eq_self.mp hrest.symm
        cases hnil
      · exact Or.inr ⟨r, others, rest, rfl, rfl, hrest⟩

/-!
# Steps
-/

def pendingOf (conn : Connection) : List UInt8 :=
  conn.buffer.take conn.pos.toNat

/--
What has to be true of the bytes in a buffer of the given size when the parser is
called.  Without a whole request it has to be possible to wait for more.  Behind a
whole request no other one may stand, and what stands there has to be shorter by two
bytes, and to leave a byte behind its NUL.
-/
structure Answerable (double : Type) [CDouble double] (size : Nat)
    (bytes : List UInt8) : Prop where
  waits : ¬ HoldsRequest double bytes -> Resumable bytes ∧ bytes.length < 2 ^ 31
  shifts : forall (r : Request double) (rest : List UInt8), bytes = r.bytes ++
    rest ->
    ¬ HoldsRequest double rest ∧ rest.length + 2 <= r.bytes.length ∧
      rest.length < 2 ^ 31 ∧
      bytes.length + 2 <= size

/-- Bytes arrive that the callback can answer. -/
def Handled (double : Type) [CDouble double] (s : Session double)
    (event : Event) : Prop :=
  Arrives event ∧ forall conn, s.conn = .ok conn ->
    Answerable double (capacity conn) (pendingOf conn ++ event.bytes)

structure Progress (requests : List (Request double)) (events : List Event)
    (s : Session double)
    (first rest : List (Request double)) (pending : List UInt8) : Prop where
  conn : exists conn, s.conn = .ok conn ∧ Holds conn pending
  small : pending.length < 2 ^ 31
  requests_eq : requests = first ++ rest
  received_eq : received events = stream first ++ pending
  log_eq : s.log = first.map Request.action
  incomplete : ¬ HoldsRequest double pending

theorem Holds.pendingOf_eq {conn : Connection} {pending : List UInt8}
    (h : Holds conn pending)
    (hsmall : pending.length < 2 ^ 31) : pendingOf conn = pending := by
  rw [pendingOf, h.pos_of_lt hsmall, Int.toNat_natCast, h.buffer, List.take_left]

theorem progress_step {requests first rest : List (Request double)}
    {trailing pending : List UInt8}
    {events : List Event} {s t : Session double} {event : Event}
    (htrailing : Ws trailing)
    (h : Progress requests events s first rest pending)
    (hstep : Step (streamParser double) s event t)
    (hhandled : Handled double s event)
    (hstream : received (events ++ [event]) <+: stream requests ++ trailing) :
    exists first' rest' pending',
      Progress requests (events ++ [event]) t first' rest' pending' := by
  rcases h.conn with ⟨conn, hconn, hholds⟩
  rcases hstep with ⟨conn', hconn', hdelivers, rfl⟩
  cases hconn.symm.trans hconn'
  rcases connectionCb_arrival double hholds h.small hdelivers hhandled.left with
    ⟨grown, hgrown, hcapacity, hanswer⟩
  have hanswerable := hhandled.right conn hconn
  rw [hholds.pendingOf_eq h.small, ← hcapacity] at hanswerable
  have hreceived : received (events ++ [event]) = stream first ++
      (pending ++ event.bytes) := by
    rw [received_snoc, h.received_eq, List.append_assoc]
  have hfront : pending ++ event.bytes <+: stream rest ++ trailing := by
    rw [hreceived, h.requests_eq, stream_append, List.append_assoc] at hstream
    exact (List.prefix_append_right_inj _).mp hstream
  rw [hanswer]
  rcases stream_front htrailing hfront with
    ⟨r, hpart, hproper⟩ | ⟨r, others, more, rfl, hwhole, hmore⟩
  · have hnone := not_holdsRequest_of_part r hpart hproper
    rcases parseBuffer_cut r event.stack hgrown hpart hproper with
      ⟨_, hsmall, hwaiting⟩ | ⟨hbad, _⟩
    · rw [hwaiting.kept]
      exact ⟨first, rest, _, ⟨grown, rfl, hgrown⟩, hsmall, h.requests_eq, hreceived,
        (List.append_nil _).trans h.log_eq, hnone⟩
    · exact absurd (hanswerable.waits hnone) hbad
  · rcases hanswerable.shifts r more hwhole with ⟨hnone, hlong, hsmall, hroom⟩
    have hnul : nul ∉ more := by
      intro hmem
      rcases List.mem_append.mp (hmore.subset hmem) with hstreamed | hspace
      · exact nul_not_mem_stream others hstreamed
      · exact nul_not_mem_ws htrailing hspace
    rw [hwhole] at hgrown hroom
    rw [List.length_append] at hroom
    rcases hgrown.discard hnul hroom hsmall hlong with ⟨after, hafter, hkept⟩
    rw [parseBuffer_object r event.stack hgrown, hafter]
    refine ⟨first ++ [r], others, more, ⟨after, rfl, hkept⟩, hsmall, ?_, ?_, ?_,
      hnone⟩
    · rw [h.requests_eq, List.append_assoc]
      rfl
    · rw [hreceived, hwhole, stream_append, List.append_assoc]
      simp [stream]
    · simp only [h.log_eq, List.map_append]
      rfl

/-!
# Runs
-/

theorem Progress.completed_eq {requests first rest : List (Request double)}
    {trailing pending : List UInt8} {events : List Event} {s : Session double}
    (h : Progress requests events s first rest pending)
    (hstream : received events <+: stream requests ++ trailing) :
    completed requests (received events).length = first := by
  rw [h.received_eq, List.length_append, h.requests_eq, completed_append]
  rw [h.received_eq, h.requests_eq, stream_append, List.append_assoc] at hstream
  have hfront := (List.prefix_append_right_inj _).mp hstream
  cases rest with
  | nil =>
      exact List.append_nil first
  | cons r rest =>
      rw [completed, if_neg, List.append_nil]
      intro hle
      rw [stream_cons, List.append_assoc] at hfront
      exact h.incomplete ⟨r, List.prefix_of_prefix_length_le
        (List.prefix_append _ _) hfront hle⟩

/--
On every run whose steps can all be answered, the connection stays open, and the
requests whose last byte has arrived have been dispatched, in order.
-/
theorem session_dispatches {requests : List (Request double)}
    {trailing : List UInt8}
    {events : List Event} {s : Session double} (htrailing : Ws trailing)
    (hrun : Runs (Guarded (Step (streamParser double)) (Handled double))
    (accepted double) events s)
    (hstream : received events <+: stream requests ++ trailing) :
    (exists conn, s.conn = .ok conn) ∧
      s.log = (completed requests (received events).length).map Request.action := by
  have hinit : received [] <+: stream requests ++ trailing ->
      exists first rest pending, Progress requests [] (accepted double) first
        rest pending := by
    intro _
    refine ⟨[], requests, [], ⟨freshConnection, rfl,
      Holds.fresh⟩, by decide, rfl, rfl, rfl, ?_⟩
    rintro ⟨r, hr⟩
    exact r.bytes_ne_nil (List.prefix_nil.mp hr)
  have hstep : forall events s event t,
      (received events <+: stream requests ++ trailing ->
        exists first rest pending, Progress requests events s first rest pending) ->
      Guarded (Step (streamParser double)) (Handled double) s event t ->
      received (events ++ [event]) <+: stream requests ++ trailing ->
        exists first rest pending, Progress requests (events ++ [event]) t first
          rest pending := by
    intro events s event t ih hstep hnext
    have hbefore : received events <+: stream requests ++ trailing := by
      rw [received_snoc] at hnext
      exact (List.prefix_append _ _).trans hnext
    rcases ih hbefore with ⟨first, rest, pending, hprogress⟩
    exact progress_step htrailing hprogress hstep.left hstep.right hnext
  rcases Runs.invariant_events hstep hrun hinit hstream with
    ⟨first, rest, pending, hprogress⟩
  rcases hprogress.conn with ⟨conn, hconn, _⟩
  rw [hprogress.completed_eq hstream]
  exact ⟨⟨conn, hconn⟩, hprogress.log_eq⟩

theorem request_unique {r r' : Request double} {rest rest' : List UInt8}
    (h : r.bytes ++ rest = r'.bytes ++ rest') : rest = rest' := by
  have hparse := r.parse (fun _ => (0, 0)) (rest ++ zeros 1) (by simp [zeros])
  have hparse' := r'.parse (fun _ => (0, 0)) (rest' ++ zeros 1) (by simp [zeros])
  rw [← List.append_assoc, h, List.append_assoc, hparse'] at hparse
  injection hparse with _ hrest
  exact (List.append_cancel_right hrest).symm

/-- The request of an object without members. -/
def emptyRequest (blanks : Nat) : Request Rat where
  space := []
  text := emptyObject blanks
  members := []
  spaced := ws_nil
  denotes := denotes_emptyObject blanks

/-- A request arrives with the first byte of the next one. -/
theorem session_dispatches_first :
    exists s : Session Rat,
      Runs (Step (streamParser Rat)) (accepted Rat)
        [arrival ((emptyRequest 2).bytes ++ [lbrace])] s ∧
        s.log = [(emptyRequest 2).action] := by
  have hnone : ¬ HoldsRequest Rat [lbrace] :=
    not_holdsRequest_of_part (emptyRequest 0) (by decide) (by decide)
  have hstep : Step (streamParser Rat) (accepted Rat)
      (arrival ((emptyRequest 2).bytes ++ [lbrace])) _ :=
    ⟨freshConnection, rfl, delivers_fresh (by decide), rfl⟩
  have hhandled : Handled Rat (accepted Rat)
      (arrival ((emptyRequest 2).bytes ++ [lbrace])) := by
    refine ⟨⟨by decide, by simp [arrival]⟩, ?_⟩
    intro conn hconn
    cases hconn
    refine ⟨fun h => absurd ⟨emptyRequest 2, List.prefix_append _ _⟩ h, ?_⟩
    intro r rest heq
    have hrest : [lbrace] = rest := request_unique heq
    subst hrest
    have hbytes : (emptyRequest 2).bytes = r.bytes := List.append_cancel_right heq
    rw [← hbytes]
    exact ⟨hnone, by decide, by decide, by decide⟩
  have hstream : received [arrival ((emptyRequest 2).bytes ++ [lbrace])] <+:
      stream [emptyRequest 2, emptyRequest 0] ++ [] := by
    decide
  have hdispatches := session_dispatches ws_nil (Runs.single ⟨hstep, hhandled⟩)
    hstream
  exact ⟨_, Runs.single hstep, hdispatches.right⟩

/-- Two requests arrive in one chunk, and only the first one is dispatched. -/
theorem request_left_behind :
    exists s : Session Rat,
      Runs (Step (streamParser Rat)) (accepted Rat)
        [arrival ((emptyRequest 2).bytes ++ (emptyRequest 0).bytes)] s ∧
      (exists conn, s.conn = .ok conn) ∧
      s.log ≠ (completed [emptyRequest 2, emptyRequest 0]
        ((emptyRequest 2).bytes ++ (emptyRequest 0).bytes).length).map
          Request.action := by
  have hdelivers : Delivers freshConnection
      (arrival ((emptyRequest 2).bytes ++ (emptyRequest 0).bytes)) :=
    delivers_fresh (by decide)
  rcases connectionCb_arrival Rat Holds.fresh (by decide) hdelivers
      ⟨by decide, by simp [arrival]⟩ with ⟨grown, hgrown, hcapacity, hanswer⟩
  have hholds : Holds grown ((emptyRequest 2).bytes ++
    (emptyRequest 0).bytes) := hgrown
  rcases hholds.discard (by decide) (by rw [hcapacity]; decide) (by decide)
    (by decide) with
    ⟨after, hafter, _⟩
  refine ⟨_, Runs.single ⟨freshConnection, rfl, hdelivers, rfl⟩, ?_⟩
  rw [hanswer, parseBuffer_object (emptyRequest 2) _ hholds, hafter]
  refine ⟨⟨after, rfl⟩, ?_⟩
  intro hlog
  have hlength : 1 = 2 := congrArg List.length hlog
  cases hlength

end JsonRpc
end Lepd
