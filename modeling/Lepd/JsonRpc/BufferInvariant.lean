import Lepd.JsonRpc.Callback

/-!
# The buffer invariant

The bytes behind the pending ones are zero, and there is room for one of them.
Growing, reading and shifting keep this, except for a shift out of a buffer that
is full up to its last byte.
-/

namespace Lepd
namespace JsonRpc

open Foundation
open CJson

/-!
# The invariant
-/

def Allocated (size : Nat) : Prop :=
  exists k, k <= 21 ∧ size = 1500 * 2 ^ k

theorem Allocated.lt {size : Nat} (h : Allocated size) : size < 2 ^ 32 := by
  rcases h with ⟨k, hk, rfl⟩
  have hpow : 2 ^ k <= 2 ^ 21 := Nat.pow_le_pow_right (by decide) hk
  omega

theorem Allocated.double {size : Nat} (h : Allocated size)
    (hsize : size <= 2 ^ 31) :
    Allocated (size * 2) := by
  rcases h with ⟨k, hk, rfl⟩
  have hne : k ≠ 21 := by
    rintro rfl
    omega
  exact ⟨k + 1, by omega, by rw [Nat.pow_succ, Nat.mul_assoc]⟩

/-- The pending bytes leave room in the buffer, and all of the room is zero. -/
structure Zeroed (conn : Connection) : Prop where
  length : conn.buffer.length = conn.bufferSize
  allocated : Allocated conn.bufferSize
  pos_nonneg : 0 <= conn.pos
  pos_lt : conn.pos < conn.bufferSize
  pos_small : conn.pos < 2 ^ 31
  tail : conn.buffer.drop conn.pos.toNat =
    List.replicate (conn.bufferSize - conn.pos.toNat) 0

theorem zeroed_fresh : Zeroed freshConnection where
  length := List.length_replicate
  allocated := ⟨0, by decide, rfl⟩
  pos_nonneg := Int.le_refl 0
  pos_lt := by decide
  pos_small := by decide
  tail := rfl

theorem realloc_length (mem : List UInt8) (size : Nat) (added : Nat -> UInt8) :
    (realloc mem size added).length = size := by
  simp only [realloc, List.length_append, List.length_take, List.length_map,
    List.length_range]
  omega

theorem Zeroed.full_iff {conn : Connection} (h : Zeroed conn) :
    toUInt32 conn.pos = toUInt32 ((conn.bufferSize : Int) - 1) <->
      conn.pos = (conn.bufferSize : Int) - 1 := by
  have hpos := h.pos_nonneg
  have hlt := h.pos_lt
  have hsize := h.allocated.lt
  rw [toUInt32_of_lt hpos (by omega), toUInt32_of_lt (by omega) (by omega)]
  omega

def capacity (conn : Connection) : Nat :=
  if conn.pos = (conn.bufferSize : Int) - 1 then conn.bufferSize * 2
  else conn.bufferSize

theorem Zeroed.grow {conn grown : Connection} {added : Option (Nat -> UInt8)}
    (h : Zeroed conn)
    (hgrow : JsonRpc.grow conn added = .ok grown) :
    Zeroed grown ∧ grown.pos = conn.pos ∧ grown.pos + 1 < grown.bufferSize ∧
      grown.bufferSize = capacity conn := by
  have hpos := h.pos_nonneg
  have hlt := h.pos_lt
  have hsmall := h.pos_small
  rcases grow_eq_ok.mp hgrow with ⟨hne, rfl⟩ | ⟨hfull, _, more, _, buffer,
    hbuffer, rfl⟩
  · rw [ne_eq, h.full_iff] at hne
    exact ⟨h, rfl, by omega, (if_neg hne).symm⟩
  · rw [h.full_iff] at hfull
    have hdouble := h.allocated.double (by omega)
    have hsize : conn.bufferSize * 2 % 2 ^ 32 = conn.bufferSize * 2 :=
      Nat.mod_eq_of_lt hdouble.lt
    rw [hsize] at hbuffer ⊢
    have hlarge := hdouble.lt
    have hcount : toUInt32 ((conn.bufferSize * 2 : Nat) - conn.pos) =
        conn.bufferSize * 2 - conn.pos.toNat := by
      rw [toUInt32_of_lt (by omega) (by omega)]
      omega
    rw [hcount] at hbuffer
    have hlength := Block.memset_length hbuffer
    rw [realloc_length] at hlength
    refine ⟨⟨hlength, hdouble, hpos, by simp only; omega, hsmall, ?_⟩,
      rfl, by simp only; omega,
      (if_pos hfull).symm⟩
    have htail := Block.write_drop_self hbuffer
    have hend : (realloc conn.buffer (conn.bufferSize * 2) more).drop
        (conn.pos.toNat + (conn.bufferSize * 2 - conn.pos.toNat)) = [] :=
      List.drop_eq_nil_of_le (by rw [realloc_length]; omega)
    rw [List.length_replicate, hend, List.append_nil] at htail
    exact htail

theorem Zeroed.grow_total {conn : Connection} (h : Zeroed conn)
    (added : Option (Nat -> UInt8)) :
    (exists grown, JsonRpc.grow conn added = .ok grown) ∨
      (added = none ∧ JsonRpc.grow conn added = .error .closed) := by
  have hpos := h.pos_nonneg
  have hsmall := h.pos_small
  by_cases hfull : toUInt32 conn.pos = toUInt32 ((conn.bufferSize : Int) - 1)
  · cases added with
    | none =>
        exact Or.inr ⟨rfl, if_pos hfull⟩
    | some more =>
        have hsize := h.full_iff.mp hfull
        have hlarge := (h.allocated.double (by omega)).lt
        have hfits : conn.pos.toNat + (List.replicate (toUInt32
            ((conn.bufferSize * 2 % 2 ^ 32 : Nat) - conn.pos))
              (0 : UInt8)).length <=
              (realloc conn.buffer (conn.bufferSize * 2 % 2 ^ 32) more).length := by
          rw [List.length_replicate, realloc_length, Nat.mod_eq_of_lt hlarge,
            toUInt32_of_lt (by omega) (by omega)]
          omega
        exact Or.inl ⟨_, grow_eq_ok.mpr (Or.inr ⟨hfull, hpos, more, rfl, _,
          Block.write_of_le hfits, rfl⟩)⟩
  · exact Or.inl ⟨conn, grow_eq_ok.mpr (Or.inl ⟨hfull, rfl⟩)⟩

theorem Zeroed.receive {conn after : Connection} {bytes : List UInt8}
    (h : Zeroed conn)
    (hroom : conn.pos + bytes.length < conn.bufferSize)
    (hsmall : conn.pos + bytes.length < 2 ^ 31)
    (hreceive : JsonRpc.receive conn bytes = .ok after) :
    Zeroed after ∧ after.pos = conn.pos + bytes.length ∧ after.bufferSize =
      conn.bufferSize := by
  have hpos := h.pos_nonneg
  rcases receive_eq_ok.mp hreceive with ⟨_, buffer, hbuffer, rfl⟩
  have hnext : toInt32 (conn.pos + bytes.length) = conn.pos + bytes.length :=
    toInt32_of_lt (by omega) (by omega)
  have hlength := Block.write_length hbuffer
  rw [h.length] at hlength
  rw [hnext]
  refine ⟨⟨hlength, h.allocated, by simp only; omega, hroom, hsmall, ?_⟩, rfl, rfl⟩
  have hindex : (conn.pos + bytes.length).toNat = conn.pos.toNat +
      bytes.length := by
    omega
  have htail := Block.write_drop hbuffer (Nat.le_refl _)
  simp only [hindex]
  rw [htail, ← List.drop_drop, h.tail, List.drop_replicate]
  congr 1
  omega

theorem Zeroed.receive_ok {conn : Connection} {bytes : List UInt8} (h : Zeroed conn)
    (hroom : conn.pos + bytes.length < conn.bufferSize) :
    exists after, JsonRpc.receive conn bytes = .ok after := by
  have hpos := h.pos_nonneg
  have hfits : conn.pos.toNat + bytes.length <= conn.buffer.length := by
    rw [h.length]
    omega
  exact ⟨_, receive_eq_ok.mpr ⟨hpos, _, Block.write_of_le hfits, rfl⟩⟩

theorem Zeroed.last {conn : Connection} (h : Zeroed conn) :
    conn.buffer.drop (conn.bufferSize - 1) = [0] := by
  have hpos := h.pos_nonneg
  have hlt := h.pos_lt
  have hsplit : conn.bufferSize - 1 = conn.pos.toNat +
      (conn.bufferSize - 1 - conn.pos.toNat) := by
    omega
  have hone : conn.bufferSize - conn.pos.toNat -
      (conn.bufferSize - 1 - conn.pos.toNat) = 1 := by
    omega
  rw [hsplit, ← List.drop_drop, h.tail, List.drop_replicate, hone]
  rfl

/-!
# Shifting
-/

theorem mem_drop_of_last {mem : List UInt8} {n i : Nat} (h : mem.drop n = [0])
    (hi : i <= n) :
    0 ∈ mem.drop i := by
  have hmem : 0 ∈ (mem.drop i).drop (n - i) := by
    rw [List.drop_drop, Nat.add_sub_cancel' hi, h]
    exact List.mem_singleton_self 0
  exact List.mem_of_mem_drop hmem

/-- The shift does not touch the last byte, except to copy the whole buffer onto
itself. -/
theorem memmove_last {mem mid : List UInt8} {e n : Nat}
    (hmove : Block.memmove mem 0 e n = some mid)
    (hlast : mem.drop (mem.length - 1) = [0]) :
    mid.drop (mem.length - 1) = [0] := by
  rcases Block.memmove_eq_some hmove with ⟨hsrc, hdst, rfl⟩
  rw [List.take_zero, List.nil_append, Nat.zero_add]
  have hlength : ((mem.drop e).take n).length = n := by
    rw [List.length_take, List.length_drop]
    omega
  by_cases hn : n <= mem.length - 1
  · rw [List.drop_append, List.drop_eq_nil_of_le (by omega), List.nil_append,
      hlength,
      List.drop_drop, Nat.add_sub_cancel' hn, hlast]
  · have hne : mem ≠ [] := by
      rintro rfl
      cases hlast
    have hpos := List.length_pos_of_ne_nil hne
    have he : e = 0 := by
      omega
    have hall : n = mem.length := by
      omega
    rw [he, List.drop_zero, hall, List.take_length, List.drop_length,
      List.append_nil, hlast]

/-- Shifting a buffer that is not full up to its last byte keeps the invariant. -/
theorem Zeroed.discard {conn : Connection} {e : Nat} (h : Zeroed conn)
    (hsize : conn.bufferSize <= 2 ^ 31)
    (hfits : e + (Block.string 0 conn.buffer e).length + 2 <= conn.bufferSize) :
    exists after, JsonRpc.discard conn e = .ok after ∧ Zeroed after ∧
      after.bufferSize = conn.bufferSize := by
  have hlength := h.length
  have hlast := h.last
  have hmem : 0 ∈ conn.buffer.drop e := mem_drop_of_last hlast (by omega)
  have hstrlen := Block.strlen_of_mem hmem
  have hmove : exists mid, Block.memmove conn.buffer 0 e
      ((Block.string 0 conn.buffer e).length + 2) = some mid :=
    ⟨_, Block.memmove_of_le (by omega) (by omega)⟩
  rcases hmove with ⟨mid, hmid⟩
  have hmidLength := Block.memmove_length hmid
  have hmidLast : mid.drop (conn.bufferSize - 1) = [0] := by
    have hmoved := memmove_last hmid (by rw [hlength]; exact hlast)
    rw [hlength] at hmoved
    exact hmoved
  have hmidStrlen := Block.strlen_of_mem
    (mem_drop_of_last hmidLast (i := e) (by omega))
  have hshort := (Block.strlen_eq_some hmidStrlen).left
  generalize (Block.string 0 mid e).length = n at hmidStrlen hshort
  have hn : toInt32 n = n := toInt32_of_lt (by omega) (by omega)
  have hcount : toUInt32 ((conn.bufferSize : Int) - (n : Int) - 1) =
      conn.bufferSize - n - 1 := by
    rw [toUInt32_of_lt (by omega) (by omega)]
    omega
  have hclear : exists buffer, Block.memset mid n 0 (conn.bufferSize - n - 1) =
      some buffer :=
    ⟨_, Block.write_of_le (by rw [List.length_replicate]; omega)⟩
  rcases hclear with ⟨buffer, hbuffer⟩
  refine ⟨{ pos := n, bufferSize := conn.bufferSize, buffer := buffer }, ?_, ?_,
    rfl⟩
  · refine discard_eq_ok.mpr ⟨_, mid, n, hstrlen, hmid,
      hmidStrlen, by omega, buffer, ?_, ?_⟩
    · rw [hn, hcount]
      exact hbuffer
    · rw [hn]
  · have hbufferLength := Block.memset_length hbuffer
    refine ⟨by simp only; omega, h.allocated, by simp only; omega, by simp only; omega,
      by simp only; omega, ?_⟩
    have htail := Block.write_drop_self hbuffer
    rw [List.length_replicate,
      (by omega : n + (conn.bufferSize - n - 1) = conn.bufferSize - 1),
      hmidLast] at htail
    simp only [Int.toNat_natCast]
    rw [htail, ← List.replicate_succ',
      (by omega : conn.bufferSize - n - 1 + 1 = conn.bufferSize - n)]

/-!
# The callback
-/

/-- After growing, the length to read is the room in front of the last byte. -/
theorem maxReadSize_of_room {conn : Connection} (h : Zeroed conn)
    (hsize : conn.bufferSize <= 2 ^ 31) (hroom : conn.pos + 1 < conn.bufferSize) :
    maxReadSize conn = (conn.bufferSize : Int) - conn.pos - 1 ∧
      toSize (maxReadSize conn) = conn.bufferSize - conn.pos.toNat - 1 := by
  have hpos := h.pos_nonneg
  have hmax : maxReadSize conn = (conn.bufferSize : Int) - conn.pos - 1 :=
    toInt32_of_lt (by omega) (by omega)
  rw [hmax, toSize, Int.emod_eq_of_lt (by omega) (by omega)]
  exact ⟨rfl, by omega⟩

variable {double : Type}

/-- The parser leaves its end pointer on the pending bytes or right behind them. -/
def EndsInside (conn : Connection) : Outcome Fault UInt8 (Item double) -> Prop
  | .ok _ rest => (endPtr conn rest : Int) <= conn.pos
  | .null rest => (endPtr conn rest : Int) <= conn.pos
  | .fault _ => False

/-- Fewer than 2^30 bytes are pending, and the parser stays among them. -/
def Assumed (parse : Parser double) (s : Session double) (event : Event) : Prop :=
  forall conn, s.conn = .ok conn ->
    (conn.pos < 2 ^ 30 ∧
      forall bytes, event.read = some bytes -> conn.pos + bytes.length < 2 ^ 30) ∧
    forall after, readBuffer conn event = .ok after ->
      EndsInside after (parse event.stack after.buffer)

/-- When a value is complete, a byte is left behind the NUL of what follows it. -/
def RoomBehind (parse : Parser double) (s : Session double) (event : Event) :
    Prop :=
  forall conn after root rest, s.conn = .ok conn -> readBuffer conn event =
    .ok after ->
    parse event.stack after.buffer = .ok root rest ->
    endPtr after rest +
      (Block.string 0 after.buffer (endPtr after rest)).length + 2 <=
      after.bufferSize

/-- The invariant of a connection with fewer than 2^30 bytes pending at any time. -/
structure Bounded (conn : Connection) : Prop extends Zeroed conn where
  size_le : conn.bufferSize <= 2 ^ 31

theorem bounded_fresh : Bounded freshConnection where
  toZeroed := zeroed_fresh
  size_le := by decide

theorem Bounded.grow {conn grown : Connection} {added : Option (Nat -> UInt8)}
    (h : Bounded conn)
    (hpos : conn.pos < 2 ^ 30) (hgrow : JsonRpc.grow conn added = .ok grown) :
    Bounded grown ∧ grown.pos + 1 < grown.bufferSize := by
  have hsize := h.size_le
  rcases h.toZeroed.grow hgrow with ⟨hzeroed, _, hroom, hcapacity⟩
  refine ⟨⟨hzeroed, ?_⟩, hroom⟩
  rw [hcapacity, capacity]
  split <;> omega

theorem Bounded.parseBuffer {parse : Parser double} {stack : Stack}
    {conn : Connection}
    (h : Bounded conn) (hinside : EndsInside conn (parse stack conn.buffer))
    (hroom : forall root rest, parse stack conn.buffer = .ok root rest ->
      endPtr conn rest +
        (Block.string 0 conn.buffer (endPtr conn rest)).length + 2 <=
        conn.bufferSize) :
    (exists after, (JsonRpc.parseBuffer parse stack conn).2 = .ok after ∧
    Bounded after) ∨
      (JsonRpc.parseBuffer parse stack conn).2 = .error .closed := by
  unfold JsonRpc.parseBuffer
  cases ho : parse stack conn.buffer with
  | ok root rest =>
      rcases h.toZeroed.discard h.size_le (hroom root rest ho) with
        ⟨after, hafter, hzeroed, hsame⟩
      exact Or.inl ⟨after, hafter, hzeroed, hsame ▸ h.size_le⟩
  | null rest =>
      simp only
      split
      · exact Or.inr rfl
      · exact Or.inl ⟨conn, rfl, h⟩
  | fault reason =>
      rw [ho] at hinside
      exact hinside.elim

theorem Bounded.readBuffer {conn : Connection} {event : Event} (h : Bounded conn)
    (hdelivers : Delivers conn event) (hpos : conn.pos < 2 ^ 30)
    (hpending : forall bytes, event.read = some bytes ->
    conn.pos + bytes.length < 2 ^ 30) :
    (exists after, JsonRpc.readBuffer conn event = .ok after ∧ Bounded after) ∨
      JsonRpc.readBuffer conn event = .error .closed := by
  rcases h.grow_total event.added with ⟨grown, hgrown⟩ | ⟨_, hclosed⟩
  · rcases h.grow hpos hgrown with ⟨hbounded, hroom⟩
    have hsame := (h.toZeroed.grow hgrown).right.left
    match hread : event.read with
    | none =>
        exact Or.inr (by rw [JsonRpc.readBuffer, hgrown, hread]; rfl)
    | some [] =>
        exact Or.inr (by rw [JsonRpc.readBuffer, hgrown, hread]; rfl)
    | some (c :: bytes) =>
        have hlength := (hdelivers grown (c :: bytes) hgrown hread).left
        rw [(maxReadSize_of_room hbounded.toZeroed hbounded.size_le
          hroom).right] at hlength
        have hnonneg := hbounded.pos_nonneg
        have hfits : grown.pos + ((c :: bytes).length : Int) <
            grown.bufferSize := by
          omega
        have hsmall := hpending (c :: bytes) hread
        rcases hbounded.receive_ok hfits with ⟨after, hafter⟩
        rcases hbounded.toZeroed.receive hfits (by omega) hafter with
          ⟨hzeroed, _, hsize⟩
        exact Or.inl ⟨after, readBuffer_eq_ok.mpr
          ⟨grown, _, hgrown, hread, by simp, hafter⟩,
          hzeroed, hsize ▸ hbounded.size_le⟩
  · exact Or.inr (by rw [JsonRpc.readBuffer, hclosed]; rfl)

end JsonRpc
end Lepd
