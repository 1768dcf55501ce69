import Mathlib.Algebra.Order.Ring.Nat
import Lepd.CJson.RoundTrip

/-!
# The text that a string spells

What the characters of a string stand for, in UTF-8, and for which strings the
transcoder stores exactly that.
-/

namespace Lepd
namespace CJson

/-!
# The bytes of a code
-/

theorem forall_byte {P : UInt8 -> Prop}
    (h : forall n, n < 256 -> P (UInt8.ofNat n)) (b : UInt8) :
    P b := by
  have hb := h b.toNat b.toNat_lt
  rw [UInt8.ofNat_toNat] at hb
  exact hb

theorem continuation_byte (uc : UInt32) :
    ((uc ||| 0x80) &&& 0xBF).toUInt8 = UInt8.ofNat (uc.toNat % 64 + 128) := by
  have hbyte : forall b : UInt8, (b ||| 0x80) &&& 0xBF =
      UInt8.ofNat (b.toNat % 64 + 128) := by
    apply forall_byte
    decide +kernel
  have h := hbyte uc.toUInt8
  rw [UInt32.toNat_toUInt8, Nat.mod_mod_of_dvd _ (by decide)] at h
  rw [UInt32.toUInt8_and, UInt32.toUInt8_or]
  exact h

/-- The first byte of several: its mark, and the bits of the code that are left. -/
theorem first_byte (uc : UInt32) (bound mark : Nat) (huc : uc.toNat < bound)
    (hmark : forall n, n < bound -> UInt8.ofNat n ||| UInt8.ofNat mark =
    UInt8.ofNat (n + mark)) :
    (uc ||| UInt32.ofNat mark).toUInt8 = UInt8.ofNat (uc.toNat + mark) := by
  have hbyte : uc.toUInt8 = UInt8.ofNat uc.toNat := by
    rw [← UInt8.toNat_inj, UInt32.toNat_toUInt8, UInt8.toNat_ofNat']
  have hmarkByte : (UInt32.ofNat mark).toUInt8 = UInt8.ofNat mark := by
    rw [← UInt8.toNat_inj, UInt32.toNat_toUInt8, UInt8.toNat_ofNat',
      UInt32.toNat_ofNat',
      Nat.mod_mod_of_dvd _ (by decide)]
  rw [UInt32.toUInt8_or, hmarkByte, hbyte]
  exact hmark uc.toNat huc

theorem shift_toNat (uc : UInt32) : (uc >>> 6).toNat = uc.toNat / 64 := by
  rw [UInt32.toNat_shiftRight, Nat.shiftRight_eq_div_pow]
  rfl

def utf8Encode (code : Nat) : List UInt8 :=
  String.utf8EncodeChar (Char.ofNat code)

theorem utf8Encode_eq {code : Nat} (h : code.isValidChar) :
    utf8Encode code =
      if code <= 0x7f then [UInt8.ofNat code]
      else if code <= 0x7ff then [UInt8.ofNat (code / 64 % 32 + 192),
        UInt8.ofNat (code % 64 + 128)]
      else if code <= 0xffff then
        [UInt8.ofNat (code / 4096 % 16 + 224), UInt8.ofNat (code / 64 % 64 + 128),
          UInt8.ofNat (code % 64 + 128)]
      else
        [UInt8.ofNat (code / 262144 % 8 + 240),
          UInt8.ofNat (code / 4096 % 64 + 128),
          UInt8.ofNat (code / 64 % 64 + 128), UInt8.ofNat (code % 64 + 128)] := by
  have hval : (Char.ofNat code).val.toNat = code := by
    rw [Char.ofNat, dif_pos h]
    rfl
  rw [utf8Encode, String.utf8EncodeChar]
  simp only [hval]

theorem utf8Bytes_eq {uc : UInt32} (h : uc.toNat.isValidChar) :
    utf8Bytes uc = utf8Encode uc.toNat := by
  have hlt : uc.toNat < 0x110000 := by
    rcases h with h | ⟨_, h⟩
    · exact lt_trans h (by decide)
    · exact h
  rw [utf8Encode_eq h, utf8Bytes, utf8Length]
  simp only [UInt32.lt_iff_toNat_lt, UInt32.reduceToNat]
  by_cases h1 : uc.toNat < 0x80
  · have hfirst := first_byte uc 128 0 h1 (by decide +kernel)
    rw [if_pos h1, if_pos (Nat.le_of_lt_succ h1)]
    exact congrArg (fun b => [b]) hfirst
  rw [if_neg h1, if_neg (fun h => h1 (Nat.lt_succ_of_le h))]
  have hcontinuation := continuation_byte uc
  have hsecond := continuation_byte (uc >>> 6)
  have hthird := continuation_byte (uc >>> 6 >>> 6)
  rw [shift_toNat] at hsecond
  rw [shift_toNat, shift_toNat, Nat.div_div_eq_div_mul] at hthird
  by_cases h2 : uc.toNat < 0x800
  · have hfirst := first_byte (uc >>> 6) 32 192
      (by rw [shift_toNat]; omega) (by decide)
    rw [shift_toNat] at hfirst
    rw [if_pos h2, if_pos (Nat.le_of_lt_succ h2),
      Nat.mod_eq_of_lt (by omega : uc.toNat / 64 < 32),
      ← hfirst, ← hcontinuation]
    rfl
  rw [if_neg h2, if_neg (fun h => h2 (Nat.lt_succ_of_le h))]
  by_cases h3 : uc.toNat < 0x10000
  · have hfirst := first_byte (uc >>> 6 >>> 6) 16 224
      (by rw [shift_toNat, shift_toNat]; omega) (by decide)
    rw [shift_toNat, shift_toNat, Nat.div_div_eq_div_mul] at hfirst
    rw [if_pos h3, if_pos (Nat.le_of_lt_succ h3),
      Nat.mod_eq_of_lt (by omega : uc.toNat / 4096 < 16),
      ← hfirst, ← hsecond, ← hcontinuation]
    rfl
  · have hfirst := first_byte (uc >>> 6 >>> 6 >>> 6) 8 240
      (by rw [shift_toNat, shift_toNat, shift_toNat]; omega) (by decide)
    rw [shift_toNat, shift_toNat, shift_toNat, Nat.div_div_eq_div_mul,
      Nat.div_div_eq_div_mul] at hfirst
    rw [if_neg h3, if_neg (fun h => h3 (Nat.lt_succ_of_le h)),
      Nat.mod_eq_of_lt (by omega : uc.toNat / 262144 < 8), ← hfirst, ← hthird,
        ← hsecond, ← hcontinuation]
    rfl

/-!
# The two halves of a pair
-/

/-- The code point that the two halves of a surrogate pair stand for. -/
def joined (uc uc2 : UInt32) : Nat :=
  0x10000 + (uc.toNat % 1024 * 1024 + uc2.toNat % 1024)

theorem or_bit (x : Nat) :
    2 ^ 16 ||| x = if x / 2 ^ 16 % 2 = 0 then 2 ^ 16 + x else x := by
  have hlow : x % 2 ^ 16 < 2 ^ 16 := Nat.mod_lt _ (by decide)
  have hjoin : 2 ^ 16 + x % 2 ^ 16 = 2 ^ 16 ||| x % 2 ^ 16 :=
    Nat.two_pow_add_eq_or_of_lt hlow 1
  split
  · next hbit =>
      have hsplit : x = 2 ^ 17 * (x / 2 ^ 17) + x % 2 ^ 16 := by
        omega
      have hor := Nat.two_pow_add_eq_or_of_lt (lt_trans hlow (by decide) :
        x % 2 ^ 16 < 2 ^ 17) (x / 2 ^ 17)
      have hor' := Nat.two_pow_add_eq_or_of_lt
        (by omega : 2 ^ 16 + x % 2 ^ 16 < 2 ^ 17) (x / 2 ^ 17)
      calc
        2 ^ 16 ||| x = 2 ^ 16 ||| (2 ^ 17 * (x / 2 ^ 17) ||| x % 2 ^ 16) := by
          rw [← hor, ← hsplit]
        _ = 2 ^ 17 * (x / 2 ^ 17) ||| (2 ^ 16 ||| x % 2 ^ 16) := by
              rw [← Nat.or_assoc, Nat.or_comm (2 ^ 16), Nat.or_assoc]
        _ = 2 ^ 17 * (x / 2 ^ 17) + (2 ^ 16 + x % 2 ^ 16) := by rw [← hjoin, ← hor']
        _ = 2 ^ 16 + x := by omega
  · next hbit =>
      have hsplit : x = 2 ^ 17 * (x / 2 ^ 17) + (2 ^ 16 + x % 2 ^ 16) := by
        omega
      have hor := Nat.two_pow_add_eq_or_of_lt
        (by omega : 2 ^ 16 + x % 2 ^ 16 < 2 ^ 17) (x / 2 ^ 17)
      calc
        2 ^ 16 ||| x = 2 ^ 16 ||| (2 ^ 17 *
          (x / 2 ^ 17) ||| (2 ^ 16 ||| x % 2 ^ 16)) := by
              rw [← hjoin, ← hor, ← hsplit]
        _ = 2 ^ 17 * (x / 2 ^ 17) ||| (2 ^ 16 ||| x % 2 ^ 16) := by
              rw [← Nat.or_assoc, Nat.or_comm (2 ^ 16), Nat.or_assoc,
                ← Nat.or_assoc (2 ^ 16), Nat.or_self]
        _ = x := by rw [← hjoin, ← hor, ← hsplit]

/-- The transcoder sets the leading bit where the first half may have one. -/
theorem pairCode_toNat (uc uc2 : UInt32) :
    (pairCode uc uc2).toNat =
      if uc.toNat / 64 % 2 = 0 then joined uc uc2 else joined uc uc2 - 0x10000 := by
  have hlow : forall x : UInt32, (x &&& 0x3FF).toNat = x.toNat % 1024 := by
    intro x
    rw [UInt32.toNat_and]
    exact Nat.and_two_pow_sub_one_eq_mod x.toNat 10
  have hless : uc.toNat % 1024 < 1024 := Nat.mod_lt _ (by decide)
  have hless2 : uc2.toNat % 1024 < 2 ^ 10 := Nat.mod_lt _ (by decide)
  have hshift : ((uc &&& 0x3FF) <<< 10).toNat = 2 ^ 10 * (uc.toNat % 1024) := by
    rw [UInt32.toNat_shiftLeft, hlow, Nat.shiftLeft_eq]
    show uc.toNat % 1024 * 2 ^ 10 % 2 ^ 32 = _
    omega
  have hhalves : pairCode uc uc2 = (0x10000 : UInt32) |||
      (((uc &&& 0x3FF) <<< 10) ||| (uc2 &&& 0x3FF)) :=
    UInt32.or_assoc _ _ _
  have hbit : (2 ^ 10 * (uc.toNat % 1024) + uc2.toNat % 1024) / 2 ^ 16 % 2 =
      uc.toNat / 64 % 2 := by
    omega
  rw [hhalves, UInt32.toNat_or, UInt32.toNat_or, hshift, hlow,
    ← Nat.two_pow_add_eq_or_of_lt hless2]
  show 2 ^ 16 ||| _ = _
  rw [or_bit, hbit, joined]
  split <;> omega

/-!
# The text of a literal
-/

def IsHigh (uc : UInt32) : Prop :=
  0xD800 <= uc ∧ uc <= 0xDBFF

def IsLow (uc : UInt32) : Prop :=
  0xDC00 <= uc ∧ uc <= 0xDFFF

instance (uc : UInt32) : Decidable (IsHigh uc) :=
  inferInstanceAs (Decidable (_ ∧ _))

instance (uc : UInt32) : Decidable (IsLow uc) :=
  inferInstanceAs (Decidable (_ ∧ _))

/-- What a literal spells: bytes of UTF-8, and surrogates without their other
half. -/
inductive Spelled where
  | byte (b : UInt8)
  | half (uc : UInt32)

def spelled : List StringChar -> List Spelled
  | [] => []
  | .raw c _ :: s => .byte c :: spelled s
  | .short d _ :: s => .byte (unescape d) :: spelled s
  | .unicode a b c d _ :: s =>
      if IsHigh (hexCode a b c d) then
        match s with
        | .unicode e f g h hx :: s =>
            if IsLow (hexCode e f g h) then
              (utf8Encode (joined (hexCode a b c d) (hexCode e f g h))).map
                .byte ++ spelled s
            else .half (hexCode a b c d) :: spelled (.unicode e f g h hx :: s)
        | s => .half (hexCode a b c d) :: spelled s
      else if IsLow (hexCode a b c d) then .half (hexCode a b c d) :: spelled s
      else (utf8Encode (hexCode a b c d).toNat).map .byte ++ spelled s

/--
The literals that are decoded to what they spell: no escape is a NUL, every
surrogate has its other half, and the first half of a pair does not have bit
six.
-/
inductive Kept : List StringChar -> Prop where
  | nil : Kept []
  | raw {c : UInt8} {h : 32 <= c ∧ c ≠ quote ∧ c ≠ backslash}
      {s : List StringChar} :
      Kept s -> Kept (.raw c h :: s)
  | short {d : UInt8} {h : d ∈ escapeLetters} {s : List StringChar} : Kept s ->
      Kept (.short d h :: s)
  | single {a b c d : UInt8}
      {hx : (hexValue a).isSome ∧ (hexValue b).isSome ∧ (hexValue c).isSome ∧
        (hexValue d).isSome}
      {s : List StringChar} :
      ¬ IsHigh (hexCode a b c d) -> ¬ IsLow (hexCode a b c d) ->
        hexCode a b c d ≠ 0 -> Kept s ->
      Kept (.unicode a b c d hx :: s)
  | pair {a b c d e f g h : UInt8}
      {hx : (hexValue a).isSome ∧ (hexValue b).isSome ∧ (hexValue c).isSome ∧
        (hexValue d).isSome}
      {hx' : (hexValue e).isSome ∧ (hexValue f).isSome ∧ (hexValue g).isSome ∧
        (hexValue h).isSome}
      {s : List StringChar} :
      IsHigh (hexCode a b c d) -> IsLow (hexCode e f g h) ->
        (hexCode a b c d).toNat / 64 % 2 = 0 ->
      Kept s -> Kept (.unicode a b c d hx :: .unicode e f g h hx' :: s)

theorem hexValue_lt (c : UInt8) : (hexValue c).getD 0 < 16 := by
  revert c
  apply forall_byte
  decide +kernel

theorem hexCode_lt (a b c d : UInt8) : (hexCode a b c d).toNat < 0x10000 := by
  have ha := hexValue_lt a
  have hb := hexValue_lt b
  have hc := hexValue_lt c
  have hd := hexValue_lt d
  rw [hexCode, UInt32.toNat_ofNat']
  simp only [List.foldl_cons, List.foldl_nil]
  omega

theorem hexCode_valid {a b c d : UInt8} (hhigh : ¬ IsHigh (hexCode a b c d))
    (hlow : ¬ IsLow (hexCode a b c d)) : (hexCode a b c d).toNat.isValidChar := by
  have hlt := hexCode_lt a b c d
  simp only [IsHigh, IsLow, UInt32.le_iff_toNat_le, UInt32.reduceToNat] at hhigh hlow
  unfold Nat.isValidChar
  omega

theorem joined_valid (uc uc2 : UInt32) : (joined uc uc2).isValidChar ∧
    0xffff < joined uc uc2 := by
  unfold Nat.isValidChar joined
  omega

theorem utf8Encode_long {code : Nat} (h : code.isValidChar)
    (hlong : 0xffff < code) :
    utf8Encode code =
      [UInt8.ofNat (code / 262144 % 8 + 240), UInt8.ofNat (code / 4096 % 64 + 128),
        UInt8.ofNat (code / 64 % 64 + 128), UInt8.ofNat (code % 64 + 128)] := by
  rw [utf8Encode_eq h, if_neg (by omega), if_neg (by omega), if_neg (by omega)]

theorem nul_not_mem_ofNat (ns : List Nat)
    (h : forall n, n ∈ ns -> 0 < n ∧ n < 256) :
    nul ∉ ns.map UInt8.ofNat := by
  intro hmem
  rcases List.mem_map.mp hmem with ⟨n, hn, heq⟩
  have hzero := congrArg UInt8.toNat heq
  rw [UInt8.toNat_ofNat_of_lt' (h n hn).right] at hzero
  exact absurd hzero (Nat.ne_of_gt (h n hn).left)

theorem nul_not_mem_utf8Encode {code : Nat} (h : code.isValidChar)
    (hne : code ≠ 0) :
    nul ∉ utf8Encode code := by
  rw [utf8Encode_eq h]
  split
  · apply nul_not_mem_ofNat [code]
    intro n hn
    rw [List.mem_singleton.mp hn]
    omega
  split
  · apply nul_not_mem_ofNat [code / 64 % 32 + 192, code % 64 + 128]
    intro n hn
    rcases List.mem_pair.mp hn with rfl | rfl <;> omega
  split
  · apply nul_not_mem_ofNat [code / 4096 % 16 + 224, code / 64 % 64 + 128,
      code % 64 + 128]
    intro n hn
    rcases List.mem_cons.mp hn with rfl | hn
    · omega
    · rcases List.mem_pair.mp hn with rfl | rfl <;> omega
  · apply nul_not_mem_ofNat [code / 262144 % 8 + 240, code / 4096 % 64 + 128,
      code / 64 % 64 + 128,
      code % 64 + 128]
    intro n hn
    rcases List.mem_cons.mp hn with rfl | hn
    · omega
    rcases List.mem_cons.mp hn with rfl | hn
    · omega
    · rcases List.mem_pair.mp hn with rfl | rfl <;> omega

theorem ofNat_inj {m n : Nat} (hm : m < 256) (hn : n < 256)
    (h : UInt8.ofNat m = UInt8.ofNat n) : m = n := by
  have hvalue := congrArg UInt8.toNat h
  rw [UInt8.toNat_ofNat_of_lt' hm, UInt8.toNat_ofNat_of_lt' hn] at hvalue
  exact hvalue

theorem utf8Encode_inj {code code' : Nat} (h : code.isValidChar)
    (h' : code'.isValidChar)
    (hlong : 0xffff < code) (hlong' : 0xffff < code')
    (heq : utf8Encode code = utf8Encode code') :
    code = code' := by
  rw [utf8Encode_long h hlong, utf8Encode_long h' hlong'] at heq
  injection heq with h0 heq
  injection heq with h1 heq
  injection heq with h2 heq
  injection heq with h3 heq
  have heq0 := ofNat_inj (by omega) (by omega) h0
  have heq1 := ofNat_inj (by omega) (by omega) h1
  have heq2 := ofNat_inj (by omega) (by omega) h2
  have heq3 := ofNat_inj (by omega) (by omega) h3
  unfold Nat.isValidChar at h h'
  omega

/-- What is stored for a pair: a code point, and the right one without bit six. -/
theorem pairCode_valid (uc uc2 : UInt32) :
    (pairCode uc uc2).toNat.isValidChar ∧ 0xffff < (pairCode uc uc2).toNat ∧
      ((pairCode uc uc2).toNat = joined uc uc2 <-> uc.toNat / 64 % 2 = 0) := by
  have hmod : uc.toNat % 1024 / 64 % 2 = uc.toNat / 64 % 2 := by
    omega
  rw [pairCode_toNat]
  unfold Nat.isValidChar joined
  split <;> omega

/-!
# What is decoded
-/

section Escapes

variable {a b c d e f g h : UInt8}
  {hx : (hexValue a).isSome ∧ (hexValue b).isSome ∧ (hexValue c).isSome ∧
    (hexValue d).isSome}
  {hx' : (hexValue e).isSome ∧ (hexValue f).isSome ∧ (hexValue g).isSome ∧
    (hexValue h).isSome}

theorem not_isHigh_of_isLow {uc : UInt32} (hlow : IsLow uc) : ¬ IsHigh uc := by
  intro hhigh
  exact absurd (UInt32.le_trans hlow.left hhigh.right) (by decide)

theorem isHigh_ne_zero {uc : UInt32} (hhigh : IsHigh uc) : uc ≠ 0 := by
  rintro rfl
  exact absurd hhigh.left (by decide)

theorem decodeChars_single (s : List StringChar)
    (hhigh : ¬ IsHigh (hexCode a b c d))
    (hlow : ¬ IsLow (hexCode a b c d)) (hzero : hexCode a b c d ≠ 0) :
    decodeChars (.unicode a b c d hx :: s) =
      utf8Encode (hexCode a b c d).toNat ++ decodeChars s := by
  have hvalid : ¬ ((0xDC00 <= hexCode a b c d ∧ hexCode a b c d <= 0xDFFF) ∨
    hexCode a b c d = 0) :=
    not_or.mpr ⟨hlow, hzero⟩
  rw [← utf8Bytes_eq (hexCode_valid hhigh hlow)]
  conv_lhs => rw [decodeChars.eq_def]
  exact (if_neg hvalid).trans (if_neg hhigh)

theorem decodeChars_pair (s : List StringChar) (hhigh : IsHigh (hexCode a b c d))
    (hlow : IsLow (hexCode e f g h)) :
    decodeChars (.unicode a b c d hx :: .unicode e f g h hx' :: s) =
      utf8Encode (pairCode (hexCode a b c d) (hexCode e f g h)).toNat ++
        decodeChars s := by
  have hfirst : ¬ ((0xDC00 <= hexCode a b c d ∧ hexCode a b c d <= 0xDFFF) ∨
    hexCode a b c d = 0) := by
    rintro (hlow' | hzero)
    · exact not_isHigh_of_isLow hlow' hhigh
    · exact isHigh_ne_zero hhigh hzero
  have hsecond : ¬ (hexCode e f g h < 0xDC00 ∨ hexCode e f g h > 0xDFFF) :=
    not_or.mpr ⟨UInt32.not_lt.mpr hlow.left, UInt32.not_lt.mpr hlow.right⟩
  rw [← utf8Bytes_eq (pairCode_valid _ _).left]
  conv_lhs => rw [decodeChars.eq_def]
  exact (if_neg hfirst).trans ((if_pos hhigh).trans (if_neg hsecond))

end Escapes

theorem nul_not_mem_decodeChars (s : List StringChar) : nul ∉ decodeChars s := by
  fun_induction decodeChars s with
  | case1 =>
      exact List.not_mem_nil
  | case2 c h s ih =>
      rw [List.mem_cons, not_or]
      refine ⟨?_, ih⟩
      rintro rfl
      exact absurd h.left (by decide)
  | case3 d h s ih =>
      have hletters : escapeLetters.all (fun d => nul != unescape d) = true := rfl
      rw [List.mem_cons, not_or]
      exact ⟨bne_iff_ne.mp (List.all_eq_true.mp hletters d h), ih⟩
  | case4 a b c d hx s hinvalid ih =>
      exact ih
  | case5 a b c d hx hvalid hhigh e f g h hx' s hsecond ih =>
      exact ih
  | case6 a b c d hx hvalid hhigh e f g h hx' s hsecond ih =>
      rcases pairCode_valid (hexCode a b c d) (hexCode e f g h) with
        ⟨hcode, hlong, _⟩
      rw [utf8Bytes_eq hcode, List.mem_append, not_or]
      exact ⟨nul_not_mem_utf8Encode hcode (by omega), ih⟩
  | case7 a b c d hx hvalid hhigh s hnot ih =>
      exact ih
  | case8 a b c d hx s hvalid hhigh ih =>
      have hcode := hexCode_valid hhigh (fun hlow => hvalid (Or.inl hlow))
      rw [utf8Bytes_eq hcode, List.mem_append, not_or]
      refine ⟨nul_not_mem_utf8Encode hcode ?_, ih⟩
      intro hzero
      exact hvalid (Or.inr (UInt32.toNat_inj.mp hzero))

theorem stringValue_eq (s : List StringChar) : stringValue s = decodeChars s :=
  cString_of_not_mem (nul_not_mem_decodeChars s)

theorem spelled_of_kept {s : List StringChar} (h : Kept s) :
    (decodeChars s).map .byte = spelled s := by
  induction h with
  | nil =>
      rfl
  | raw _ ih =>
      exact congrArg (List.cons _) ih
  | short _ ih =>
      exact congrArg (List.cons _) ih
  | single hhigh hlow hzero _ ih =>
      rw [decodeChars_single _ hhigh hlow hzero, List.map_append, ih]
      conv_rhs => rw [spelled.eq_def]
      exact ((if_neg hhigh).trans (if_neg hlow)).symm
  | pair hhigh hlow hbit _ ih =>
      rw [decodeChars_pair _ hhigh hlow,
        ((pairCode_valid _ _).right.right).mpr hbit, List.map_append, ih]
      rw [spelled, if_pos hhigh, if_pos hlow]

theorem map_byte_ne_half {out : List UInt8} {uc : UInt32} {s : List Spelled}
    (h : out.map Spelled.byte = .half uc :: s) : False := by
  cases out with
  | nil =>
      cases h
  | cons b out =>
      cases h

theorem map_byte_inj {out out' : List UInt8}
    (h : out.map Spelled.byte = out'.map .byte) : out = out' := by
  apply List.map_injective_iff.mpr _ h
  intro b b' heq
  cases heq
  rfl

theorem kept_of_spelled {s : List StringChar}
    (h : (decodeChars s).map .byte = spelled s) : Kept s := by
  fun_induction spelled s with
  | case1 =>
      exact .nil
  | case2 c hc s ih =>
      injection h with _ hrest
      exact .raw (ih hrest)
  | case3 d hd s ih =>
      injection h with _ hrest
      exact .short (ih hrest)
  | case4 a b c d hx hhigh e f g h' hx' s hlow ih =>
      rcases pairCode_valid (hexCode a b c d) (hexCode e f g h') with
        ⟨hcode, hlong, hbit⟩
      rcases joined_valid (hexCode a b c d) (hexCode e f g h') with ⟨hcode', hlong'⟩
      rw [decodeChars_pair s hhigh hlow, List.map_append] at h
      have hlengths :
          ((utf8Encode (pairCode (hexCode a b c d)
        (hexCode e f g h')).toNat).map Spelled.byte).length =
          ((utf8Encode (joined (hexCode a b c d) (hexCode e f g h'))).map
            Spelled.byte).length := by
        rw [utf8Encode_long hcode hlong, utf8Encode_long hcode' hlong']
        rfl
      rcases List.append_inj h hlengths with ⟨hhead, hrest⟩
      exact .pair hhigh hlow
        (hbit.mp (utf8Encode_inj hcode hcode' hlong hlong' (map_byte_inj hhead)))
        (ih hrest)
  | case5 a b c d hx hhigh e f g h' hx' s hlow ih =>
      exact (map_byte_ne_half h).elim
  | case6 a b c d hx hhigh s hnot ih =>
      exact (map_byte_ne_half h).elim
  | case7 a b c d hx s hhigh hlow ih =>
      exact (map_byte_ne_half h).elim
  | case8 a b c d hx s hhigh hlow ih =>
      have hzero : hexCode a b c d ≠ 0 := by
        intro hzero
        have hmem : Spelled.byte nul ∈
            (decodeChars (.unicode a b c d hx :: s)).map Spelled.byte := by
          rw [h, hzero]
          exact List.mem_append_left _ List.mem_cons_self
        rcases List.mem_map.mp hmem with ⟨b, hb, heq⟩
        cases heq
        exact nul_not_mem_decodeChars _ hb
      rw [decodeChars_single s hhigh hlow hzero, List.map_append] at h
      exact .single hhigh hlow hzero (ih (List.append_cancel_left h))

theorem stringValue_spelled_iff (s : List StringChar) :
    (stringValue s).map .byte = spelled s <-> Kept s := by
  rw [stringValue_eq]
  exact ⟨kept_of_spelled, spelled_of_kept⟩

end CJson
end Lepd
