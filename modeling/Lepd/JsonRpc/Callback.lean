import Lepd.JsonRpc.Connection

/-!
# The parts of the callback

What is known of a connection when one of the parts of the callback has left it.
-/

namespace Lepd
namespace JsonRpc

open Foundation
open CJson (toInt32)

/-!
# Machine integers
-/

theorem toInt32_of_lt {x : Int} (h : 0 <= x) (h' : x < 2 ^ 31) : toInt32 x = x := by
  unfold toInt32
  rw [Int.bmod_eq_of_le] <;> omega

theorem toUInt32_of_lt {x : Int} (h : 0 <= x) (h' : x < 2 ^ 32) :
    toUInt32 x = x.toNat := by
  unfold toUInt32
  rw [Int.emod_eq_of_lt h h']

theorem toInt32_range (x : Int) : -(2 ^ 31) <= toInt32 x ∧ toInt32 x < 2 ^ 31 := by
  unfold toInt32
  constructor
  · exact Int.le_bmod (by decide)
  · exact Int.bmod_lt (by decide)

/-- An unsigned number that a conversion to `int` does not make negative. -/
theorem lt_of_toInt32_nonneg {x : Int} (h : 0 <= x) (h' : x < 2 ^ 32)
    (hn : 0 <= toInt32 x) :
    x < 2 ^ 31 := by
  unfold toInt32 at hn
  rw [Int.bmod_def] at hn
  split at hn <;> omega

/-!
# What each part of the callback does
-/

theorem bind_eq_ok {value other : Type} {m : Except Stop value}
    {f : value -> Except Stop other}
    {b : other} : (m >>= f) = .ok b <-> exists a, m = .ok a ∧ f a = .ok b := by
  cases m with
  | ok a =>
      simp [bind, Except.bind]
  | error stop =>
      simp [bind, Except.bind]

theorem index_eq_ok {i : Int} {n : Nat} : index i = .ok n <-> 0 <= i ∧
    n = i.toNat := by
  unfold index
  split
  · next h =>
      simp [h, eq_comm]
  · next h =>
      simp [h]

theorem access_eq_ok {value : Type} {o : Option value} {a : value} :
    access o = .ok a <-> o = some a := by
  cases o with
  | none =>
      simp [access]
  | some b =>
      simp [access]

theorem grow_eq_ok {conn grown : Connection} {added : Option (Nat -> UInt8)} :
    grow conn added = .ok grown <->
      (toUInt32 conn.pos ≠ toUInt32 ((conn.bufferSize : Int) - 1) ∧ grown = conn) ∨
      (toUInt32 conn.pos = toUInt32 ((conn.bufferSize : Int) - 1) ∧ 0 <= conn.pos ∧
        exists more, added = some more ∧ exists buffer,
          Block.memset (realloc conn.buffer (conn.bufferSize * 2 % 2 ^ 32) more)
            conn.pos.toNat 0
            (toUInt32 ((conn.bufferSize * 2 % 2 ^ 32 : Nat) - conn.pos)) =
              some buffer ∧
          grown = { pos := conn.pos, bufferSize := conn.bufferSize * 2 % 2 ^ 32,
                    buffer := buffer }) := by
  unfold grow
  by_cases hfull : toUInt32 conn.pos = toUInt32 ((conn.bufferSize : Int) - 1)
  · rw [if_pos hfull]
    cases added with
    | none =>
        simp [hfull]
    | some more =>
        simp only [bind_eq_ok, index_eq_ok, access_eq_ok, pure, Except.pure,
          Except.ok.injEq]
        constructor
        · rintro ⟨i, ⟨hpos, rfl⟩, buffer, hbuffer, rfl⟩
          exact Or.inr ⟨hfull, hpos, more, rfl, buffer, hbuffer, rfl⟩
        · rintro (⟨hne, _⟩ | ⟨_, hpos, more', hmore, buffer, hbuffer, rfl⟩)
          · exact absurd hfull hne
          · cases hmore
            exact ⟨_, ⟨hpos, rfl⟩, buffer, hbuffer, rfl⟩
  · rw [if_neg hfull]
    simp [hfull, eq_comm]

theorem receive_eq_ok {conn after : Connection} {bytes : List UInt8} :
    receive conn bytes = .ok after <->
      0 <= conn.pos ∧ exists buffer,
        Block.write conn.buffer conn.pos.toNat bytes = some buffer ∧
        after = { pos := toInt32 (conn.pos +
          bytes.length), bufferSize := conn.bufferSize,
                  buffer := buffer } := by
  simp only [receive, bind_eq_ok, index_eq_ok, access_eq_ok, pure, Except.pure,
    Except.ok.injEq]
  constructor
  · rintro ⟨i, ⟨hpos, rfl⟩, buffer, hbuffer, rfl⟩
    exact ⟨hpos, buffer, hbuffer, rfl⟩
  · rintro ⟨hpos, buffer, hbuffer, rfl⟩
    exact ⟨_, ⟨hpos, rfl⟩, buffer, hbuffer, rfl⟩

theorem readBuffer_eq_ok {conn after : Connection} {event : Event} :
    readBuffer conn event = .ok after <->
      exists grown bytes, grow conn event.added = .ok grown ∧
        event.read = some bytes ∧
        bytes ≠ [] ∧ receive grown bytes = .ok after := by
  simp only [readBuffer, bind_eq_ok]
  constructor
  · rintro ⟨grown, hgrown, hread⟩
    match hbytes : event.read, hread with
    | some (c :: bytes), hread =>
        exact ⟨grown, c :: bytes, hgrown, rfl, by simp, hread⟩
  · rintro ⟨grown, bytes, hgrown, hread, hne, hreceive⟩
    refine ⟨grown, hgrown, ?_⟩
    rw [hread]
    cases bytes with
    | nil =>
        exact absurd rfl hne
    | cons c bytes =>
        exact hreceive

theorem discard_eq_ok {conn after : Connection} {e : Nat} :
    discard conn e = .ok after <->
      exists len mid n, Block.strlen 0 conn.buffer e = some len ∧
        Block.memmove conn.buffer 0 e (len + 2) = some mid ∧
          Block.strlen 0 mid e = some n ∧
        0 <= toInt32 n ∧ exists buffer,
          Block.memset mid (toInt32 n).toNat 0
            (toUInt32 ((conn.bufferSize : Int) - toInt32 n - 1)) = some buffer ∧
          after = { pos := toInt32 n, bufferSize := conn.bufferSize,
                    buffer := buffer } := by
  simp only [discard, bind_eq_ok, index_eq_ok, access_eq_ok, pure, Except.pure,
    Except.ok.injEq]
  constructor
  · rintro ⟨len, hlen, mid, hmid, n, hn, i, hi, buffer, hbuffer, rfl⟩
    rw [hi.right] at hbuffer
    exact ⟨len, mid, n, hlen, hmid, hn, hi.left, buffer, hbuffer, rfl⟩
  · rintro ⟨len, mid, n, hlen, hmid, hn, hpos, buffer, hbuffer, rfl⟩
    exact ⟨len, hlen, mid, hmid, n, hn, _, ⟨hpos, rfl⟩, buffer, hbuffer, rfl⟩

end JsonRpc
end Lepd
