import Lepd.JsonRpc.Residue
import Lepd.CJson.Completeness
import Lepd.CJson.LeafPrefixes

/-!
# Pending bytes

A connection whose buffer is in order is determined by the bytes that were received
and not yet consumed.  Reading appends to them; consuming a request drops its bytes
where the shift keeps what follows it.
-/

namespace Lepd
namespace JsonRpc

open Foundation
open CJson

/-- The given bytes are pending in the buffer, with zeros behind them. -/
structure Holds (conn : Connection) (pending : List UInt8) : Prop where
  allocated : Allocated conn.bufferSize
  length_lt : pending.length < conn.bufferSize
  buffer : conn.buffer = pending ++ zeros (conn.bufferSize - pending.length)
  pos_eq : conn.pos = toInt32 pending.length

namespace Holds

variable {conn after : Connection} {pending bytes rest : List UInt8} {event : Event}

theorem fresh : Holds freshConnection [] where
  allocated := zeroed_fresh.allocated
  length_lt := by decide
  buffer := rfl
  pos_eq := rfl

theorem length (h : Holds conn pending) : conn.buffer.length = conn.bufferSize := by
  have hlt := h.length_lt
  rw [h.buffer, List.length_append, List.length_replicate]
  omega

theorem pos_of_lt (h : Holds conn pending) (hsmall : pending.length < 2 ^ 31) :
    conn.pos = pending.length := by
  rw [h.pos_eq, toInt32_of_lt] <;> omega

theorem pos_of_le (h : Holds conn pending) (hlarge : 2 ^ 31 <= pending.length) :
    conn.pos < 0 := by
  have hlt := h.length_lt
  have hsize := h.allocated.lt
  rcases Int.lt_or_le conn.pos 0 with hneg | hpos
  · exact hneg
  · rw [h.pos_eq] at hpos
    have hsmall := lt_of_toInt32_nonneg (by omega) (by omega) hpos
    omega

theorem zeroed (h : Holds conn pending) (hsmall : pending.length < 2 ^ 31) :
    Zeroed conn := by
  have hpos := h.pos_of_lt hsmall
  have hlt := h.length_lt
  refine ⟨h.length, h.allocated, by omega, by omega, by omega, ?_⟩
  rw [hpos, Int.toNat_natCast, h.buffer, List.drop_left]

theorem sized (h : Holds conn pending) : Sized conn := by
  have hlt := h.length_lt
  have hsize := h.allocated.lt
  have hrange := toInt32_range pending.length
  have hpos := h.pos_eq
  refine ⟨h.length, hsize, ?_, by rw [hpos]; exact hrange, ?_⟩
  · rcases Nat.lt_or_ge pending.length (2 ^ 31) with hsmall | hlarge
    · rw [h.pos_of_lt hsmall]
      omega
    · have hneg := h.pos_of_le hlarge
      omega
  · have hlast : conn.bufferSize - (conn.bufferSize - 1) = 1 := by
      omega
    rw [h.buffer, List.drop_append, List.drop_eq_nil_of_le (by omega),
      List.nil_append,
      List.drop_replicate, (by omega : conn.bufferSize - pending.length -
        (conn.bufferSize - 1 - pending.length) = 1)]
    rfl

theorem buffer_zeros (h : Holds conn pending) :
    exists k, conn.buffer = pending ++ zeros (k + 1) ∧
      pending.length + (k + 1) = conn.bufferSize := by
  have hlt := h.length_lt
  refine ⟨conn.bufferSize - pending.length - 1, ?_, by omega⟩
  rw [h.buffer, (by omega : conn.bufferSize - pending.length - 1 + 1 =
    conn.bufferSize - pending.length)]

theorem grow (h : Holds conn pending) (hsmall : pending.length < 2 ^ 31)
    {added : Option (Nat -> UInt8)} (hgrow : JsonRpc.grow conn added = .ok after) :
    Holds after pending ∧ after.bufferSize = capacity conn := by
  have hpos := h.pos_of_lt hsmall
  have hlt := h.length_lt
  rcases (h.zeroed hsmall).grow hgrow with ⟨hzeroed, hsame, hroom, hcapacity⟩
  have htail := hzeroed.tail
  rw [hsame, hpos, Int.toNat_natCast] at htail
  refine ⟨⟨hzeroed.allocated, by omega, ?_, hsame.trans h.pos_eq⟩, hcapacity⟩
  rcases grow_eq_ok.mp hgrow with ⟨_, rfl⟩ | ⟨_, _, more, _, buffer, hbuffer, rfl⟩
  · exact h.buffer
  · have htake := Block.write_take hbuffer
    rw [hpos, Int.toNat_natCast, realloc, List.take_append_of_le_length,
      List.take_take,
      Nat.min_eq_left, h.buffer, List.take_left] at htake
    · calc buffer
          = buffer.take pending.length ++ buffer.drop pending.length :=
            (List.take_append_drop _ _).symm
        _ = pending ++ zeros (conn.bufferSize * 2 % 2 ^ 32 - pending.length) := by
            rw [htake]
            exact congrArg (pending ++ ·) htail
    · simp only at hroom hsame
      omega
    · rw [List.length_take, h.length]
      simp only at hroom hsame
      omega

theorem receive (h : Holds conn pending) (hsmall : pending.length < 2 ^ 31)
    (hroom : pending.length + bytes.length < conn.bufferSize)
    (hreceive : JsonRpc.receive conn bytes = .ok after) :
    Holds after (pending ++ bytes) := by
  have hpos := h.pos_of_lt hsmall
  rcases receive_eq_ok.mp hreceive with ⟨_, buffer, hbuffer, rfl⟩
  have hmem := (Block.write_eq_some hbuffer).right
  rw [hpos, Int.toNat_natCast] at hmem
  refine ⟨h.allocated, by rw [List.length_append]; exact hroom, ?_, ?_⟩
  · simp only [hmem]
    rw [h.buffer, List.take_left, List.drop_append,
      List.drop_eq_nil_of_le (by omega),
      List.nil_append, List.drop_replicate, List.length_append, List.append_assoc]
    congr 3
    omega
  · simp only [hpos, List.length_append]
    rw [Int.natCast_add]

theorem readBuffer (h : Holds conn pending) (hsmall : pending.length < 2 ^ 31)
    (hdelivers : Delivers conn event) (hadded : event.added ≠ none)
    (hread : event.read = some bytes) (hne : bytes ≠ []) :
    exists after, JsonRpc.readBuffer conn event = .ok after ∧
      Holds after (pending ++ bytes) ∧
      after.bufferSize = capacity conn := by
  have hgrows : exists grown, JsonRpc.grow conn event.added = .ok grown := by
    rcases (h.zeroed hsmall).grow_total event.added with hok | ⟨hnone, _⟩
    · exact hok
    · exact absurd hnone hadded
  rcases hgrows with ⟨grown, hgrown⟩
  rcases h.grow hsmall hgrown with ⟨hholds, hcapacity⟩
  have hzeroed := hholds.zeroed hsmall
  have hroom := hzeroed.sized.room (hdelivers grown bytes hgrown hread)
  rcases hzeroed.receive_ok hroom with ⟨after, hafter⟩
  rw [hholds.pos_of_lt hsmall] at hroom
  refine ⟨after, readBuffer_eq_ok.mpr ⟨grown, bytes, hgrown, hread, hne, hafter⟩,
    hholds.receive hsmall (by omega) hafter, ?_⟩
  rcases receive_eq_ok.mp hafter with ⟨_, buffer, _, rfl⟩
  exact hcapacity

theorem string (h : Holds conn (bytes ++ rest)) (hnul : nul ∉ rest) :
    Block.string 0 conn.buffer bytes.length = rest := by
  rcases h.buffer_zeros with ⟨k, hbuffer, _⟩
  have hdrop : conn.buffer.drop bytes.length = rest ++ nul :: zeros k := by
    rw [hbuffer, List.append_assoc, List.drop_left]
    rfl
  exact Block.string_of_drop hnul hdrop

theorem discard (h : Holds conn (bytes ++ rest)) (hnul : nul ∉ rest)
    (hroom : bytes.length + rest.length + 2 <= conn.bufferSize)
    (hsmall : rest.length < 2 ^ 31)
    (hlong : rest.length + 2 <= bytes.length) :
    exists after, JsonRpc.discard conn bytes.length = .ok after ∧
      Holds after rest := by
  have hshift : Shiftable conn bytes.length
      (Block.string 0 conn.buffer bytes.length).length := by
    rw [h.string hnul]
    exact ⟨hroom, hsmall, Or.inr (Or.inl hlong)⟩
  rcases h.sized.discard_ok hshift with ⟨after, hafter, hsame, hpos, hbuffer⟩
  rw [h.string hnul] at hpos hbuffer
  refine ⟨after, hafter, hsame ▸ h.allocated, by omega, ?_, ?_⟩
  · rw [hbuffer, hsame]
  · rw [hpos, toInt32_of_lt] <;> omega

/-- Where the end pointer is when the parser has consumed the first of the bytes. -/
theorem endPtr (h : Holds conn (bytes ++ rest)) :
    exists k, conn.buffer = bytes ++ (rest ++ zeros (k + 1)) ∧
      JsonRpc.endPtr conn (rest ++ zeros (k + 1)) = bytes.length := by
  rcases h.buffer_zeros with ⟨k, hbuffer, _⟩
  rw [List.append_assoc] at hbuffer
  refine ⟨k, hbuffer, ?_⟩
  rw [JsonRpc.endPtr, hbuffer, List.length_append, Nat.add_sub_cancel]

end Holds

/-!
# The first chunk
-/

/-- The parser that the callback is compiled with. -/
abbrev streamParser (double : Type) [CDouble double] : Parser double :=
  cJSONParseStream

/-- A chunk that arrives when new memory and the stack are zero. -/
def arrival (bytes : List UInt8) : Event where
  added := some (fun _ => 0)
  read := some bytes
  stack := fun _ => (0, 0)

/-- The first buffer with bytes in it. -/
def filled (bytes : List UInt8) : Connection where
  pos := bytes.length
  bufferSize := 1500
  buffer := bytes ++ zeros (1500 - bytes.length)

section First

variable {bytes : List UInt8}

theorem grow_fresh (added : Option (Nat -> UInt8)) :
    grow freshConnection added = .ok freshConnection :=
  if_neg (by decide)

theorem delivers_fresh (hlength : bytes.length < 1500) :
    Delivers freshConnection (arrival bytes) := by
  intro grown more hgrown hmore
  rw [grow_fresh] at hgrown
  cases hgrown
  cases hmore
  have hmax : toSize (maxReadSize freshConnection) = 1499 := by
    decide
  omega

theorem readBuffer_fresh (bytes : List UInt8) (hne : bytes ≠ [])
    (hlength : bytes.length < 1500) :
    readBuffer freshConnection (arrival bytes) = .ok (filled bytes) := by
  refine readBuffer_eq_ok.mpr ⟨freshConnection, bytes, grow_fresh _, rfl, hne, ?_⟩
  refine receive_eq_ok.mpr ⟨Int.le_refl 0, _, Block.write_of_le ?_, ?_⟩
  · change 0 + bytes.length <= (List.replicate 1500 (0 : UInt8)).length
    rw [List.length_replicate]
    omega
  · have hdrop : freshConnection.buffer.drop bytes.length =
        zeros (1500 - bytes.length) :=
      List.drop_replicate
    have hpos : toInt32 (freshConnection.pos + bytes.length) = bytes.length := by
      change toInt32 (0 + bytes.length) = _
      rw [Int.zero_add, toInt32_of_lt] <;> omega
    rw [hpos]
    simp only [filled, freshConnection, Int.toNat_zero, List.take_zero,
      List.nil_append,
      Nat.zero_add] at hdrop ⊢
    rw [hdrop]

theorem holds_filled (bytes : List UInt8) (hlength : bytes.length < 1500) :
    Holds (filled bytes) bytes where
  allocated := zeroed_fresh.allocated
  length_lt := hlength
  buffer := rfl
  pos_eq := (toInt32_of_lt (Int.natCast_nonneg _) (by omega)).symm

end First

end JsonRpc
end Lepd
