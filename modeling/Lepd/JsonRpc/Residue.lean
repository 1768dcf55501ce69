import Lepd.JsonRpc.BufferInvariant

/-!
# What a shift leaves in the buffer

The string behind a processed request is measured again after it has been moved to
the front of the buffer.  The second length is that of the string exactly when the
request is long enough for the copy to stop in front of the place that is measured.
-/

namespace Lepd
namespace JsonRpc

open Foundation
open CJson

/-!
# Buffers that end with a NUL
-/

structure Sized (conn : Connection) : Prop where
  length : conn.buffer.length = conn.bufferSize
  size_lt : conn.bufferSize < 2 ^ 32
  pos_lt : conn.pos < conn.bufferSize
  pos_range : -(2 ^ 31) <= conn.pos ∧ conn.pos < 2 ^ 31
  last : conn.buffer.drop (conn.bufferSize - 1) = [0]

theorem Zeroed.sized {conn : Connection} (h : Zeroed conn) : Sized conn := by
  have hpos := h.pos_nonneg
  exact ⟨h.length, h.allocated.lt, h.pos_lt, ⟨by omega, h.pos_small⟩, h.last⟩

theorem sized_fresh : Sized freshConnection :=
  zeroed_fresh.sized

theorem Sized.size_pos {conn : Connection} (h : Sized conn) :
    0 < conn.bufferSize := by
  have hlength := congrArg List.length h.last
  rw [List.length_drop, h.length, List.length_singleton] at hlength
  omega

theorem drop_last_of_cleared {mem cleared : List UInt8} {i n : Nat}
    (h : Block.memset mem i 0 n = some cleared) (hend : i + n = mem.length)
    (hn : 0 < n) :
    cleared.drop (mem.length - 1) = [0] := by
  have htail := Block.write_drop_self h
  rw [List.length_replicate, hend, List.drop_length, List.append_nil] at htail
  have hsplit : mem.length - 1 = i + (n - 1) := by
    omega
  rw [hsplit, ← List.drop_drop, htail, List.drop_replicate, Nat.sub_sub_self hn]
  rfl

theorem Sized.grow {conn grown : Connection} {added : Option (Nat -> UInt8)}
    (h : Sized conn)
    (hgrow : JsonRpc.grow conn added = .ok grown) : Sized grown := by
  have hlt := h.pos_lt
  have hrange := h.pos_range
  have hpositive := h.size_pos
  rcases grow_eq_ok.mp hgrow with ⟨_, rfl⟩ | ⟨hfull, hpos, more, _, buffer,
    hbuffer, rfl⟩
  · exact h
  · rw [toUInt32_of_lt hpos (by omega),
      toUInt32_of_lt (by omega) (by have := h.size_lt; omega)]
      at hfull
    have hbound := (Block.write_eq_some hbuffer).left
    rw [List.length_replicate, realloc_length] at hbound
    have hsize : conn.bufferSize * 2 % 2 ^ 32 = conn.bufferSize * 2 := by
      rcases Nat.lt_or_ge (conn.bufferSize * 2) (2 ^ 32) with hsmall | hlarge
      · exact Nat.mod_eq_of_lt hsmall
      · omega
    rw [hsize] at hbuffer ⊢
    have hcount : toUInt32 ((conn.bufferSize * 2 : Nat) - conn.pos) =
        conn.bufferSize * 2 - conn.pos.toNat := by
      rw [toUInt32_of_lt (by omega) (by omega)]
      omega
    rw [hcount] at hbuffer
    have hlength := Block.memset_length hbuffer
    have hlast := drop_last_of_cleared hbuffer (by rw [realloc_length]; omega)
      (by omega)
    rw [realloc_length] at hlength hlast
    exact ⟨hlength, by simp only; omega, by simp only; omega, hrange, hlast⟩

theorem Sized.room {conn : Connection} {bytes : List UInt8} (h : Sized conn)
    (hfits : bytes.length <= toSize (maxReadSize conn) ∧ bytes.length <=
    0x7ffff000) :
    conn.pos + bytes.length < conn.bufferSize := by
  have hlt := h.pos_lt
  rcases Int.lt_or_le ((conn.bufferSize : Int) - conn.pos - 1) (2 ^ 31) with
    hsmall | hlarge
  · have hmax := hfits.left
    rw [maxReadSize, toInt32_of_lt (by omega) hsmall, toSize,
      Int.emod_eq_of_lt (by omega) (by omega)] at hmax
    omega
  · have hmax := hfits.right
    omega

theorem Sized.receive {conn after : Connection} {bytes : List UInt8}
    (h : Sized conn)
    (hfits : bytes.length <= toSize (maxReadSize conn) ∧ bytes.length <= 0x7ffff000)
    (hreceive : JsonRpc.receive conn bytes = .ok after) : Sized after := by
  have hlt := h.pos_lt
  have hsize := h.size_lt
  rcases receive_eq_ok.mp hreceive with ⟨hpos, buffer, hbuffer, rfl⟩
  have hroom := h.room hfits
  have hlength := Block.write_length hbuffer
  have hlast := Block.write_drop (j := conn.bufferSize - 1) hbuffer (by omega)
  have hrange := toInt32_range (conn.pos + bytes.length)
  refine ⟨hlength.trans h.length, hsize, ?_, hrange, hlast.trans h.last⟩
  rcases Int.lt_or_le (conn.pos + (bytes.length : Int)) (2 ^ 31) with
    hsmall | hlarge
  · simp only [toInt32_of_lt (by omega : 0 <= conn.pos + (bytes.length : Int))
      hsmall]
    exact hroom
  · simp only
    omega

/-!
# Measuring a string that was moved
-/

/-- The residue law: what is left is the string at the end pointer, and zeros. -/
def Residue (conn : Connection) (e : Nat) (answer : Except Stop Connection) :
    Prop :=
  exists after, answer = .ok after ∧ after.bufferSize = conn.bufferSize ∧
    after.pos = (Block.string 0 conn.buffer e).length ∧
    after.buffer = Block.string 0 conn.buffer e ++
      List.replicate (conn.bufferSize - (Block.string 0 conn.buffer e).length) 0

/--
The shift keeps a string of length `len` that starts at `e`: the copy stays in the
buffer, the length is an `int`, and what is measured after the copy is as long.
-/
def Shiftable (conn : Connection) (e len : Nat) : Prop :=
  e + len + 2 <= conn.bufferSize ∧ len < 2 ^ 31 ∧
    (e = 0 ∨ len + 2 <= e ∨
    (e = len + 1 ∧ (conn.buffer[e + len + 1]? = some 0 <-> len = 0)))

/-- A string in the buffer with the NUL and the byte that the copy takes along. -/
theorem drop_eq_run {mem : List UInt8} {e : Nat} (h : 0 ∈ mem.drop e)
    (hfits : e + (Block.string 0 mem e).length + 2 <= mem.length) :
    exists x tail, mem.drop e = Block.string 0 mem e ++ 0 :: x :: tail ∧
      mem[e + (Block.string 0 mem e).length + 1]? = some x := by
  rcases Block.drop_eq_string h with ⟨rest, hrest, _⟩
  cases rest with
  | nil =>
      have hlength := congrArg List.length hrest
      rw [List.length_drop, List.length_append, List.length_singleton] at hlength
      omega
  | cons x tail =>
      refine ⟨x, tail, hrest, ?_⟩
      rw [Nat.add_assoc, ← List.getElem?_drop, hrest, List.getElem?_append_right
        (by omega)]
      simp

theorem Sized.mem_drop {conn : Connection} (h : Sized conn) {i : Nat}
    (hi : i < conn.bufferSize) :
    0 ∈ conn.buffer.drop i :=
  mem_drop_of_last h.last (by omega)

theorem Sized.discard_ok {conn : Connection} {e : Nat} (h : Sized conn)
    (hshift : Shiftable conn e (Block.string 0 conn.buffer e).length) :
    Residue conn e (discard conn e) := by
  rcases hshift with ⟨hfits, hlen, hmeasure⟩
  have hsize := h.size_lt
  have hlength := h.length
  have hmem := h.mem_drop (i := e) (by omega)
  rcases drop_eq_run hmem (by rw [hlength]; exact hfits) with ⟨x, tail, hrun, hx⟩
  rcases Block.drop_eq_string hmem with ⟨_, _, hnull⟩
  have hstrlen := Block.strlen_of_mem hmem
  unfold Residue
  generalize Block.string 0 conn.buffer e = run at *
  have hmove := Block.memmove_shifted hrun
  have hmoveLength := Block.memmove_length hmove
  have hmoveLast := memmove_last hmove (by rw [hlength]; exact h.last)
  rw [hlength] at hmoveLast hmoveLength
  have hsame : (Block.string 0 (Block.shifted 0 x conn.buffer run) e).length =
      run.length := by
    refine (Block.string_shifted_iff hnull hrun).mpr ?_
    rw [hx, Option.some.injEq] at hmeasure
    exact hmeasure
  have hagain := Block.strlen_of_mem
    (mem_drop_of_last hmoveLast (i := e) (by omega))
  rw [hsame] at hagain
  have hn : toInt32 run.length = run.length := toInt32_of_lt (by omega) (by omega)
  have hcount : toUInt32 ((conn.bufferSize : Int) - (run.length : Int) - 1) =
      conn.bufferSize - run.length - 1 := by
    rw [toUInt32_of_lt (by omega) (by omega)]
    omega
  have hclear : Block.memset (Block.shifted 0 x conn.buffer run) run.length 0
      (conn.bufferSize - run.length - 1) =
        some (run ++ List.replicate (conn.bufferSize - run.length) 0) := by
    have hend : run.length + (conn.bufferSize - run.length - 1) =
        conn.bufferSize - 1 := by
      omega
    have htake : (Block.shifted 0 x conn.buffer run).take run.length = run :=
      List.take_left
    rw [Block.memset, Block.write_of_le (by rw [List.length_replicate]; omega),
      List.length_replicate, hend, hmoveLast, htake, ← List.replicate_succ',
      (by omega : conn.bufferSize - run.length - 1 + 1 = conn.bufferSize -
        run.length)]
  refine ⟨{ pos := run.length, bufferSize := conn.bufferSize,
            buffer := run ++ List.replicate (conn.bufferSize - run.length) 0 },
              ?_, rfl, rfl, rfl⟩
  refine discard_eq_ok.mpr ⟨_, _, _, hstrlen, hmove,
    hagain, by omega, _, ?_, by rw [hn]⟩
  rw [hn, hcount]
  exact hclear

/-- The residue law holds of a shift exactly when the string is one that it
keeps. -/
theorem Sized.residue_iff {conn : Connection} {e : Nat} (h : Sized conn) :
    Residue conn e (discard conn e) <->
      Shiftable conn e (Block.string 0 conn.buffer e).length := by
  constructor
  · rintro ⟨after, hafter, _, hpos, _⟩
    rcases discard_eq_ok.mp hafter with
      ⟨len, mid, n, hlen, hmove, hagain, hnonneg, _, _, rfl⟩
    have hlength := h.length
    have hsize := h.size_lt
    rw [(Block.strlen_eq_some hlen).right] at hmove
    have hfits := (Block.memmove_eq_some hmove).left
    have hmoveLength := Block.memmove_length hmove
    rcases drop_eq_run (h.mem_drop (by omega)) hfits with ⟨x, tail, hrun, hx⟩
    rcases Block.drop_eq_string (h.mem_drop (i := e) (by omega)) with ⟨_, _, hnull⟩
    rw [hlength] at hfits
    have hbound := (Block.strlen_eq_some hagain).left
    have hshort : (n : Int) < 2 ^ 31 :=
      lt_of_toInt32_nonneg (by omega) (by omega) hnonneg
    simp only [toInt32_of_lt (by omega : 0 <= (n : Int)) (by omega)] at hpos
    have hsame : n = (Block.string 0 conn.buffer e).length := by
      omega
    refine ⟨hfits, by omega, ?_⟩
    rw [hx, Option.some.injEq]
    refine (Block.string_shifted_iff hnull hrun).mp ?_
    rw [Block.memmove_shifted hrun] at hmove
    cases hmove
    rw [← (Block.strlen_eq_some hagain).right, hsame]
  · exact h.discard_ok

end JsonRpc
end Lepd
