import Lepd.JsonRpc.Pending
import Lepd.CJson.Forward
import Lepd.CJson.Prefixes

/-!
# Requests and their parts

What the callback does with a buffer that holds a whole request object, or only the
first bytes of one.
-/

namespace Lepd
namespace JsonRpc

open Foundation
open CJson

/-!
# Arrivals
-/

def Event.bytes (event : Event) : List UInt8 :=
  event.read.getD []

def received (events : List Event) : List UInt8 :=
  (events.map Event.bytes).flatten

/-- The read brings bytes, and memory for them can be had. -/
def Arrives (event : Event) : Prop :=
  event.bytes ≠ [] ∧ event.added ≠ none

theorem received_nil : received [] = [] := rfl

theorem received_cons (event : Event) (events : List Event) :
    received (event :: events) = event.bytes ++ received events := rfl

theorem received_snoc (events : List Event) (event : Event) :
    received (events ++ [event]) = received events ++ event.bytes := by
  simp [received]

theorem Event.read_eq {event : Event} (h : event.bytes ≠ []) :
    event.read = some event.bytes := by
  unfold Event.bytes at h ⊢
  cases hread : event.read with
  | none =>
      rw [hread] at h
      exact absurd rfl h
  | some bytes =>
      rfl

variable {double : Type}

/-- The callback parses the pending bytes with those that arrived behind them. -/
theorem connectionCb_arrival (double : Type) {conn : Connection}
    {pending : List UInt8} {event : Event}
    (h : Holds conn pending) (hsmall : pending.length < 2 ^ 31)
    (hdelivers : Delivers conn event)
    (harrives : Arrives event) :
    exists grown, Holds grown (pending ++ event.bytes) ∧ grown.bufferSize =
      capacity conn ∧
      forall parse : Parser double,
        connectionCb parse conn event = parseBuffer parse event.stack grown := by
  rcases h.readBuffer hsmall hdelivers harrives.right
    (Event.read_eq harrives.left) harrives.left with
    ⟨grown, hgrown, hholds, hcapacity⟩
  refine ⟨grown, hholds, hcapacity, fun parse => ?_⟩
  unfold connectionCb
  rw [hgrown]

/-!
# Waiting and giving up
-/

/-- The callback waits for more: the end pointer is behind the pending bytes. -/
structure Waiting (parse : Parser double) (stack : Stack) (conn : Connection) :
    Prop where
  null : exists rest, parse stack conn.buffer = .null rest ∧
    (endPtr conn rest : Int) = conn.pos
  kept : parseBuffer parse stack conn = ([], .ok conn)

theorem parseBuffer_null {parse : Parser double} {stack : Stack}
    {conn : Connection} {rest : List UInt8}
    (hparse : parse stack conn.buffer = .null rest) :
    parseBuffer parse stack conn =
      if (endPtr conn rest : Int) = conn.pos then ([], .ok conn)
      else ([parseError double], .error .closed) := by
  unfold parseBuffer
  rw [hparse]
  simp only [ne_eq, ite_not]

/-- The connection is lost, and no request was dispatched. -/
def Lost (answer : List (Action double) × Except Stop Connection) : Prop :=
  (answer.1 = [] ∨ answer.1 = [parseError double]) ∧ exists stop, answer.2 =
    .error stop

variable [CDouble double]

/-!
# Whole requests
-/

/-- A request object as it is written, with the white space in front of it. -/
structure Request (double : Type) [CDouble double] where
  space : List UInt8
  text : List UInt8
  members : List (List UInt8 × Item double)
  spaced : Ws space
  denotes : Denotes (.value (.object members)) text

namespace Request

def bytes (r : Request double) : List UInt8 :=
  r.space ++ r.text

/-- What the callback does with the request. -/
def action (r : Request double) : Action double :=
  .evalRequest (.object r.members)

theorem bytes_ne_nil (r : Request double) : r.bytes ≠ [] := by
  rcases denotes_head r.denotes with ⟨c, tail, htext, _⟩
  rw [bytes, htext]
  simp

theorem nul_not_mem (r : Request double) : nul ∉ r.bytes := by
  have hspace := nul_not_mem_ws r.spaced
  have htext := nul_not_mem_denotes r.denotes
  simp [bytes, hspace, htext]

theorem parse (r : Request double) (stack : Stack) (rest : List UInt8)
    (hnul : nul ∈ rest) :
    streamParser double stack (r.bytes ++ rest) = .ok (.object r.members) rest := by
  rw [bytes, List.append_assoc]
  exact cJSONParseStream_container stack .object r.spaced r.denotes hnul

end Request

section Answers

variable {conn : Connection}

theorem parseBuffer_object (r : Request double) {rest : List UInt8} (stack : Stack)
    (h : Holds conn (r.bytes ++ rest)) :
    parseBuffer (streamParser double) stack conn =
      ([r.action], discard conn r.bytes.length) := by
  rcases h.endPtr with ⟨k, hbuffer, hend⟩
  have hparse : streamParser double stack conn.buffer =
      .ok (.object r.members) (rest ++ zeros (k + 1)) := by
    rw [hbuffer]
    exact r.parse stack _ (by simp [zeros])
  unfold parseBuffer
  rw [hparse]
  simp only [hend, evalObject, Request.action]

/-!
# Parts of requests
-/

/--
Of a part of an object the callback waits for the rest, when the text can be resumed
there and its length is an `int`; otherwise the connection is lost.
-/
theorem parseBuffer_cut (r : Request double) {pending : List UInt8} (stack : Stack)
    (h : Holds conn pending) (hpart : pending <+: r.bytes)
    (hproper : pending ≠ r.bytes) :
    (Resumable pending ∧ pending.length < 2 ^ 31 ∧
    Waiting (streamParser double) stack conn) ∨
      (¬ (Resumable pending ∧ pending.length < 2 ^ 31) ∧
        ¬ Waiting (streamParser double) stack conn ∧
        Lost (parseBuffer (streamParser double) stack conn)) := by
  rcases h.buffer_zeros with ⟨k, hbuffer, hsize⟩
  have hforward : Scan.EndsIn conn.buffer (streamParser double stack conn.buffer) :=
    forward_cJSONParseStream stack conn.buffer
  have hcut := cJSONParseStream_cut stack k .object r.spaced r.denotes hpart hproper
  rw [← hbuffer] at hcut
  rcases hcut with ⟨hgood, reason, hfault⟩ | ⟨cur, hnull, _, hcur⟩
  · refine Or.inr ⟨fun hwait => hgood hwait.left, ?_, ?_⟩
    · rintro ⟨⟨rest, hrest, _⟩, _⟩
      cases hfault.symm.trans hrest
    · unfold parseBuffer streamParser
      rw [hfault]
      exact ⟨Or.inl rfl, _, rfl⟩
  · rw [streamParser, hnull] at hforward
    have hplace : (endPtr conn cur : Int) = conn.pos <->
        CJson.Resumable pending ∧ pending.length < 2 ^ 31 := by
      have hlength := hforward.length_le
      have hbufferLength := h.length
      have hend : endPtr conn cur = pending.length <-> cur = zeros (k + 1) := by
        unfold endPtr
        constructor
        · intro heq
          have hsame : cur.length = (zeros (k + 1)).length := by
            rw [List.length_replicate]
            omega
          have hsuffix : cur <:+ zeros (k + 1) := by
            refine List.suffix_of_suffix_length_le hforward ?_ (Nat.le_of_eq hsame)
            rw [hbuffer]
            exact List.suffix_append _ _
          exact hsuffix.eq_of_length hsame
        · rintro rfl
          rw [List.length_replicate]
          omega
      rw [← hcur, ← hend]
      rcases Nat.lt_or_ge pending.length (2 ^ 31) with hsmall | hlarge
      · rw [h.pos_of_lt hsmall]
        omega
      · have hneg := h.pos_of_le hlarge
        omega
    have hanswer : parseBuffer (streamParser double) stack conn = _ :=
      parseBuffer_null hnull
    by_cases hwait : CJson.Resumable pending ∧ pending.length < 2 ^ 31
    · rw [if_pos (hplace.mpr hwait)] at hanswer
      exact Or.inl ⟨hwait.left, hwait.right, ⟨cur, hnull, hplace.mpr hwait⟩,
        hanswer⟩
    · rw [if_neg (fun heq => hwait (hplace.mp heq))] at hanswer
      refine Or.inr ⟨hwait, ?_, ?_⟩
      · rintro ⟨_, hkept⟩
        cases hanswer.symm.trans hkept
      · rw [hanswer]
        exact ⟨Or.inr rfl, _, rfl⟩

end Answers

end JsonRpc
end Lepd
