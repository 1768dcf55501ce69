import Lepd.JsonRpc.Pending
import Lepd.CJson.Completeness

/-!
# Runs of the callback

Over a run of the callback, the shift keeps the residue law exactly for the strings
it is able to move, and no byte outside of the buffer is touched as long as no value
becomes complete with the buffer full to its last byte.
-/

namespace Lepd
namespace JsonRpc

open Foundation
open CJson

variable {double : Type}

/-!
# The residue law on runs
-/

theorem Sized.readBuffer {conn received : Connection} {event : Event}
    (h : Sized conn)
    (hdelivers : Delivers conn event)
    (hread : JsonRpc.readBuffer conn event = .ok received) :
    Sized received := by
  rcases readBuffer_eq_ok.mp hread with ⟨grown, bytes, hgrown, hbytes, _, hreceive⟩
  exact (h.grow hgrown).receive (hdelivers grown bytes hgrown hbytes) hreceive

theorem Sized.discard {conn after : Connection} {e : Nat} (h : Sized conn)
    (hdiscard : JsonRpc.discard conn e = .ok after) : Sized after := by
  rcases discard_eq_ok.mp hdiscard with
    ⟨len, mid, n, _, hmove, hagain, hnonneg, buffer, hbuffer, rfl⟩
  have hlength := h.length
  have hsize := h.size_lt
  have hmidLength := Block.memmove_length hmove
  have hmidLast := memmove_last hmove (by rw [hlength]; exact h.last)
  have hbound := (Block.strlen_eq_some hagain).left
  have hshort : (n : Int) < 2 ^ 31 :=
    lt_of_toInt32_nonneg (by omega) (by omega) hnonneg
  rw [toInt32_of_lt (by omega) hshort] at hbuffer ⊢
  have hcount : toUInt32 ((conn.bufferSize : Int) - (n : Int) - 1) =
      conn.bufferSize - n - 1 := by
    rw [toUInt32_of_lt (by omega) (by omega)]
    omega
  rw [hcount, Int.toNat_natCast] at hbuffer
  have hbufferLength := Block.memset_length hbuffer
  have hlast := Block.write_drop (j := conn.bufferSize - 1) hbuffer
    (by rw [List.length_replicate]; omega)
  rw [hlength] at hmidLast hmidLength
  exact ⟨hbufferLength.trans hmidLength,
    hsize, by simp only; omega, ⟨by simp only; omega, hshort⟩,
    hlast.trans hmidLast⟩

theorem Sized.parseBuffer {parse : Parser double} {stack : Stack}
    {conn after : Connection}
    (h : Sized conn) (hafter : (JsonRpc.parseBuffer parse stack conn).2 =
    .ok after) :
    Sized after := by
  unfold JsonRpc.parseBuffer at hafter
  split at hafter
  · exact h.discard hafter
  · split at hafter
    · cases hafter
    · cases hafter
      exact h
  · cases hafter

def SessionSized (s : Session double) : Prop :=
  forall conn, s.conn = .ok conn -> Sized conn

theorem sessionSized_step {parse : Parser double} {s t : Session double}
    {event : Event}
    (h : SessionSized s) (hstep : Step parse s event t) : SessionSized t := by
  rcases hstep with ⟨conn, hconn, hdelivers, rfl⟩
  intro after hafter
  simp only [connectionCb] at hafter
  split at hafter
  · cases hafter
  · next received hreceived =>
      exact ((h conn hconn).readBuffer hdelivers hreceived).parseBuffer hafter

theorem sessionSized_runs {parse : Parser double} {s : Session double}
    {events : List Event}
    (hrun : Runs (Step parse) (accepted double) events s) : SessionSized s := by
  have hinit : SessionSized (accepted double) := by
    intro conn hconn
    cases hconn
    exact sized_fresh
  have hstep : forall s event t, SessionSized s -> Step parse s event t ->
      SessionSized t :=
    fun s event t hs hstep => sessionSized_step hs hstep
  exact Runs.invariant hstep hrun hinit

theorem connectionCb_discard {parse : Parser double}
    {conn received : Connection} {event : Event}
    {root : Item double} {rest : List UInt8}
    (hread : readBuffer conn event = .ok received)
    (hparse : parse event.stack received.buffer = .ok root rest) :
    (connectionCb parse conn event).2 = discard received
    (endPtr received rest) := by
  unfold connectionCb parseBuffer
  rw [hread]
  simp only [hparse]

/--
In every reachable state, a chunk with which the parser succeeds leaves exactly the
string behind the processed value, if and only if that string can be shifted.
-/
theorem session_residue_iff {parse : Parser double} {events : List Event}
    {s : Session double}
    {conn received : Connection} {event : Event} {root : Item double}
    {rest : List UInt8}
    (hrun : Runs (Step parse) (accepted double) events s)
    (hconn : s.conn = .ok conn)
    (hdelivers : Delivers conn event) (hread : readBuffer conn event = .ok received)
    (hparse : parse event.stack received.buffer = .ok root rest) :
    Residue received (endPtr received rest) (connectionCb parse conn event).2 <->
      Shiftable received (endPtr received rest)
        (Block.string 0 received.buffer (endPtr received rest)).length := by
  have hsized := (sessionSized_runs hrun conn hconn).readBuffer hdelivers hread
  rw [connectionCb_discard hread hparse]
  exact hsized.residue_iff

def emptyObject (blanks : Nat) : List UInt8 :=
  lbrace :: (List.replicate blanks 32 ++ [rbrace])

theorem denotes_emptyObject [CDouble double] (blanks : Nat) :
    Denotes (.value (.object []) : Node double) (emptyObject blanks) := by
  have hblanks : Ws (List.replicate blanks 32) := by
    intro c hc
    exact Or.inl (List.eq_of_mem_replicate hc)
  exact .empty .object hblanks

theorem parse_emptyObject (double : Type) [CDouble double] (stack : Stack)
    {conn : Connection} {blanks : Nat}
    {rest : List UInt8} (h : Holds conn (emptyObject blanks ++ rest)) :
    exists k, streamParser double stack conn.buffer =
      .ok (.object []) (rest ++ zeros (k + 1)) ∧
      endPtr conn (rest ++ zeros (k + 1)) = (emptyObject blanks).length := by
  rcases h.endPtr with ⟨k, hbuffer, hend⟩
  refine ⟨k, ?_, hend⟩
  rw [hbuffer]
  exact cJSONParseStream_container stack .object ws_nil
    (denotes_emptyObject blanks) (by simp [zeros])

/-- One byte of the next request behind an object of three bytes. -/
theorem session_residue_one_byte :
    Residue (filled (emptyObject 1 ++ [lbrace])) 3
      (connectionCb (streamParser Rat) freshConnection
        (arrival (emptyObject 1 ++ [lbrace]))).2 := by
  have hholds := holds_filled (emptyObject 1 ++ [lbrace]) (by decide)
  have hread := readBuffer_fresh (emptyObject 1 ++ [lbrace]) (by decide) (by decide)
  rcases parse_emptyObject Rat (fun _ => (0, 0)) hholds with ⟨k, hparse, hend⟩
  have hiff := session_residue_iff .nil rfl (delivers_fresh (by decide)) hread
    hparse
  rw [hend, hholds.string (by decide)] at hiff
  exact hiff.mpr ⟨by decide, by decide, Or.inr (Or.inl (by decide))⟩

/-- Of two bytes of the next request behind `{}` the shift keeps none. -/
theorem residue_lost :
    ¬ forall (events : List Event) (s : Session Rat) (conn received :
      Connection) (event : Event)
        (root : Item Rat) (rest : List UInt8),
      Runs (Step (streamParser Rat)) (accepted Rat) events s -> s.conn = .ok conn ->
      Delivers conn event -> readBuffer conn event = .ok received ->
      streamParser Rat event.stack received.buffer = .ok root rest ->
      Residue received (endPtr received rest)
        (connectionCb (streamParser Rat) conn event).2 := by
  intro h
  have hholds := holds_filled (emptyObject 0 ++ [lbrace, quote]) (by decide)
  have hread := readBuffer_fresh (emptyObject 0 ++ [lbrace, quote]) (by decide)
    (by decide)
  rcases parse_emptyObject Rat (fun _ => (0, 0)) hholds with ⟨k, hparse, hend⟩
  have hresidue := h [] _ _ _ _ _ _ .nil rfl (delivers_fresh (by decide)) hread
    hparse
  rw [connectionCb_discard hread hparse, hholds.sized.residue_iff, hend,
    hholds.string (by decide)] at hresidue
  rcases hresidue.right.right with hzero | hlong | ⟨hadjacent, _⟩
  · exact absurd hzero (by decide)
  · exact absurd hlong (by decide)
  · exact absurd hadjacent (by decide)

/-!
# The buffer invariant on runs
-/

def SessionBounded (s : Session double) : Prop :=
  (forall conn, s.conn = .ok conn -> Bounded conn) ∧ s.conn ≠ .error .undefined

theorem connectionCb_bounded {parse : Parser double} {conn : Connection}
    {event : Event}
    (h : Bounded conn) (hdelivers : Delivers conn event) (hpos : conn.pos < 2 ^ 30)
    (hpending : forall bytes, event.read = some bytes ->
    conn.pos + bytes.length < 2 ^ 30)
    (hinside : forall received, readBuffer conn event = .ok received ->
      EndsInside received (parse event.stack received.buffer))
    (hroom : forall received root rest, readBuffer conn event = .ok received ->
      parse event.stack received.buffer = .ok root rest ->
        endPtr received rest +
          (Block.string 0 received.buffer (endPtr received rest)).length + 2 <=
            received.bufferSize) :
    (exists after, (connectionCb parse conn event).2 = .ok after ∧ Bounded after) ∨
      (connectionCb parse conn event).2 = .error .closed := by
  unfold connectionCb
  rcases h.readBuffer hdelivers hpos hpending with
    ⟨received, hreceived, hbounded⟩ | hclosed
  · rw [hreceived]
    exact hbounded.parseBuffer (hinside received hreceived)
      (fun root rest ho => hroom received root rest hreceived ho)
  · rw [hclosed]
    exact Or.inr rfl

theorem sessionBounded_step {parse : Parser double} {s t : Session double}
    {event : Event}
    (h : SessionBounded s) (hstep : Step parse s event t)
    (hassumed : Assumed parse s event)
    (hroom : RoomBehind parse s event) : SessionBounded t := by
  rcases hstep with ⟨conn, hconn, hdelivers, rfl⟩
  rcases hassumed conn hconn with ⟨⟨hpos, hpending⟩, hinside⟩
  rcases connectionCb_bounded (h.left conn hconn) hdelivers hpos hpending hinside
      (fun received root rest => hroom conn received root rest hconn) with
    ⟨after, hafter, hbounded⟩ | hclosed
  · constructor
    · intro after' hafter'
      cases hafter.symm.trans hafter'
      exact hbounded
    · intro hundefined
      cases hafter.symm.trans hundefined
  · constructor
    · intro after' hafter'
      cases hclosed.symm.trans hafter'
    · intro hundefined
      cases hclosed.symm.trans hundefined

/--
On every run on which no value becomes complete with the buffer full to its last
byte, the buffer is zero behind the pending bytes, each read asks for at least one
byte, and every access is in the buffer.
-/
theorem session_zeroed {parse : Parser double} {events : List Event}
    {s : Session double}
    (hrun : Runs (Guarded (Step parse)
      (fun s event => Assumed parse s event ∧ RoomBehind parse s event))
        (accepted double) events s) :
    s.conn ≠ .error .undefined ∧
      forall conn, s.conn = .ok conn ->
        Zeroed conn ∧
          (conn.pos < 2 ^ 30 -> forall added grown, grow conn added = .ok grown ->
            1 <= maxReadSize grown ∧ 1 <= toSize (maxReadSize grown)) := by
  have hinit : SessionBounded (accepted double) := by
    constructor
    · intro conn hconn
      cases hconn
      exact bounded_fresh
    · intro hundefined
      cases hundefined
  have hstep : forall s event t, SessionBounded s -> Guarded (Step parse)
      (fun s event => Assumed parse s event ∧ RoomBehind parse s event) s event t ->
        SessionBounded t := by
    intro s event t hs hstep
    exact sessionBounded_step hs hstep.left hstep.right.left hstep.right.right
  have hbounded : SessionBounded s := Runs.invariant hstep hrun hinit
  refine ⟨hbounded.right, fun conn hconn =>
    ⟨(hbounded.left conn hconn).toZeroed, ?_⟩⟩
  intro hpos added grown hgrow
  rcases (hbounded.left conn hconn).grow hpos hgrow with ⟨hgrown, hroom⟩
  rcases maxReadSize_of_room hgrown.toZeroed hgrown.size_le hroom with ⟨hmax, hsize⟩
  rw [hsize, hmax]
  have hnonneg := hgrown.pos_nonneg
  omega

/-- A first chunk that begins with an empty object meets what is assumed of the
parser. -/
theorem assumed_emptyObject [CDouble double] {blanks : Nat} {rest : List UInt8}
    (hlength : (emptyObject blanks ++ rest).length < 1500) :
    Assumed (streamParser double) (accepted double)
      (arrival (emptyObject blanks ++ rest)) := by
  intro conn hconn
  cases hconn
  refine ⟨⟨by decide, ?_⟩, ?_⟩
  · intro bytes hbytes
    cases hbytes
    change 0 + ((emptyObject blanks ++ rest).length : Int) < 2 ^ 30
    omega
  · intro received hreceived
    rw [readBuffer_fresh _ (by simp [emptyObject]) hlength] at hreceived
    cases hreceived
    rcases parse_emptyObject double (fun _ => (0, 0)) (holds_filled _ hlength) with
      ⟨k, hparse, hend⟩
    change EndsInside _ (streamParser double (fun _ => (0, 0)) _)
    rw [hparse]
    simp only [EndsInside, hend, (holds_filled _ hlength).pos_of_lt (by omega),
      List.length_append]
    omega

/-- An empty object arrives. -/
theorem session_zeroed_emptyObject :
    exists s : Session Rat, Runs (Step (streamParser Rat)) (accepted Rat)
      [arrival (emptyObject 0)] s ∧
      s.conn ≠ .error .undefined ∧ forall conn, s.conn = .ok conn ->
        Zeroed conn := by
  have hread := readBuffer_fresh (emptyObject 0 ++ []) (by decide) (by decide)
  have hholds := holds_filled (emptyObject 0 ++ []) (by decide)
  have hstep : Step (streamParser Rat) (accepted Rat)
      (arrival (emptyObject 0 ++ [])) _ :=
    ⟨freshConnection, rfl, delivers_fresh (by decide), rfl⟩
  have hroom : RoomBehind (streamParser Rat) (accepted Rat)
      (arrival (emptyObject 0 ++ [])) := by
    intro conn received root rest hconn hreceived hparse
    cases hconn
    rw [hread] at hreceived
    cases hreceived
    rcases parse_emptyObject Rat (fun _ => (0, 0)) hholds with ⟨k, hparse', hend⟩
    have heq := hparse'.symm.trans hparse
    cases heq
    rw [hend, hholds.string (by simp)]
    decide
  have hzeroed :=
    session_zeroed (Runs.single ⟨hstep, assumed_emptyObject (by decide), hroom⟩)
  exact ⟨_, Runs.single hstep, hzeroed.left, fun conn hconn =>
    (hzeroed.right conn hconn).left⟩

theorem discard_undefined {conn : Connection} {e : Nat}
    (hfull : conn.buffer.length < e + (Block.string 0 conn.buffer e).length + 2) :
    discard conn e = .error .undefined := by
  unfold discard
  cases hlen : Block.strlen 0 conn.buffer e with
  | none =>
      rfl
  | some len =>
      have hmove : Block.memmove conn.buffer 0 e (len + 2) = none := by
        rw [(Block.strlen_eq_some hlen).right]
        exact if_neg (by omega)
      simp only [access, bind, Except.bind, hmove]

/-- An object and blanks that fill the buffer up to its last byte. -/
theorem session_leaves_buffer :
    exists (events : List Event) (s : Session Rat),
      Runs (Guarded (Step (streamParser Rat)) (Assumed (streamParser Rat)))
        (accepted Rat) events s ∧
        s.conn = .error .undefined := by
  have hblanks : exists rest : List UInt8, rest.length = 1497 ∧ nul ∉ rest := by
    refine ⟨List.replicate 1497 32, List.length_replicate, fun hmem => ?_⟩
    cases List.eq_of_mem_replicate hmem
  rcases hblanks with ⟨rest, hrest, hnul⟩
  have hlength : (emptyObject 0 ++ rest).length < 1500 := by
    rw [List.length_append, hrest]
    decide
  have hread := readBuffer_fresh (emptyObject 0 ++ rest) (by simp [emptyObject])
    hlength
  have hholds := holds_filled _ hlength
  have hstep : Step (streamParser Rat) (accepted Rat)
      (arrival (emptyObject 0 ++ rest)) _ :=
    ⟨freshConnection, rfl, delivers_fresh hlength, rfl⟩
  refine ⟨_, _, Runs.single ⟨hstep, assumed_emptyObject hlength⟩, ?_⟩
  rcases parse_emptyObject Rat (fun _ => (0, 0)) hholds with ⟨k, hparse, hend⟩
  have hdiscard := connectionCb_discard hread hparse
  have hfull : (filled (emptyObject 0 ++ rest)).buffer.length <
      (emptyObject 0).length +
      (Block.string 0 (filled (emptyObject 0 ++ rest)).buffer
        (emptyObject 0).length).length + 2 := by
    rw [hholds.string hnul, hholds.length, hrest]
    change 1500 < 2 + 1497 + 2
    omega
  rw [hend] at hdiscard
  rw [discard_undefined hfull] at hdiscard
  dsimp only
  exact hdiscard

end JsonRpc
end Lepd
