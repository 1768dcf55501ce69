import Lepd.CJson.Transcoding

/-!
# Strings of scalar values

A string literal spells each scalar value as itself, by a short escape or by
hexadecimal digits, with a surrogate pair beyond the first plane. The parser
decodes the literal to the UTF-8 encoding of its scalars unless one of an even
plane is spelled by a pair.
-/

namespace Lepd
namespace CJson

/-!
# Literals
-/

def HexDigits (a b c d : UInt8) : Prop :=
  (hexValue a).isSome ∧ (hexValue b).isSome ∧ (hexValue c).isSome ∧
    (hexValue d).isSome

instance (a b c d : UInt8) : Decidable (HexDigits a b c d) :=
  inferInstanceAs (Decidable (_ ∧ _))

inductive Spelling (scalar : Char) where
  | itself (h : 32 <= scalar.toNat ∧ scalar.toNat ≠ quote.toNat ∧ scalar.toNat ≠
      backslash.toNat)
  | short (d : UInt8) (hd : d ∈ escapeLetters)
      (h : (unescape d).toNat = scalar.toNat)
  | code (a b c d : UInt8) (hx : HexDigits a b c d)
      (h : (hexCode a b c d).toNat = scalar.toNat)
  | pair (a b c d e f g i : UInt8) (hx : HexDigits a b c d)
      (hx' : HexDigits e f g i)
      (hhigh : IsHigh (hexCode a b c d)) (hlow : IsLow (hexCode e f g i))
      (h : joined (hexCode a b c d) (hexCode e f g i) = scalar.toNat)

/-- A scalar value other than NUL, and how it is spelled. -/
structure SpelledChar where
  scalar : Char
  nonzero : scalar.toNat ≠ 0
  spelling : Spelling scalar

def SpelledChar.utf8 (x : SpelledChar) : List UInt8 :=
  String.utf8EncodeChar x.scalar

def SpelledChar.text (x : SpelledChar) : List UInt8 :=
  match x.spelling with
  | .itself _ => x.utf8
  | .short d _ _ => [backslash, d]
  | .code a b c d _ _ => [backslash, lowerU, a, b, c, d]
  | .pair a b c d e f g i _ _ _ _ _ =>
      [backslash, lowerU, a, b, c, d, backslash, lowerU, e, f, g, i]

def SpelledChar.IsPair (x : SpelledChar) : Prop :=
  match x.spelling with
  | .itself _ => False
  | .short _ _ _ => False
  | .code _ _ _ _ _ _ => False
  | .pair _ _ _ _ _ _ _ _ _ _ _ _ _ => True

/-- The plane of a scalar value. -/
def SpelledChar.plane (x : SpelledChar) : Nat :=
  x.scalar.toNat / 0x10000

def literalText (s : List SpelledChar) : List UInt8 :=
  quote :: (s.flatMap SpelledChar.text ++ [quote])

def literalUtf8 (s : List SpelledChar) : List UInt8 :=
  s.flatMap SpelledChar.utf8

/-!
# Characters of the grammar
-/

def Raw (c : UInt8) : Prop :=
  32 <= c ∧ c ≠ quote ∧ c ≠ backslash

theorem valid_scalar (scalar : Char) : scalar.toNat.isValidChar :=
  scalar.valid

theorem utf8EncodeChar_eq (scalar : Char) :
    String.utf8EncodeChar scalar = utf8Encode scalar.toNat := by
  rw [utf8Encode, Char.ofNat_toNat]

theorem raw_of_ge {n : Nat} (h : 128 <= n) (hn : n < 256) :
    Raw (UInt8.ofNat n) := by
  have hvalue : (UInt8.ofNat n).toNat = n := UInt8.toNat_ofNat_of_lt' hn
  refine ⟨?_, ?_, ?_⟩
  · rw [UInt8.le_iff_toNat_le, hvalue]
    exact le_trans (by decide) h
  · intro heq
    rw [heq] at hvalue
    exact absurd (hvalue ▸ h) (by decide)
  · intro heq
    rw [heq] at hvalue
    exact absurd (hvalue ▸ h) (by decide)

theorem raw_of_itself {scalar : Char}
    (h : 32 <= scalar.toNat ∧ scalar.toNat ≠ quote.toNat ∧ scalar.toNat ≠
    backslash.toNat) :
    forall b, b ∈ String.utf8EncodeChar scalar -> Raw b := by
  have hvalid := valid_scalar scalar
  have hlt : scalar.toNat < 0x110000 := by
    rcases hvalid with hlt | ⟨_, hlt⟩
    · exact lt_trans hlt (by decide)
    · exact hlt
  rw [utf8EncodeChar_eq, utf8Encode_eq hvalid]
  intro b hb
  split at hb
  · next hshort =>
      have hvalue : (UInt8.ofNat scalar.toNat).toNat = scalar.toNat :=
        UInt8.toNat_ofNat_of_lt' (lt_of_le_of_lt hshort (by decide))
      rw [List.mem_singleton.mp hb]
      refine ⟨?_, ?_, ?_⟩
      · rw [UInt8.le_iff_toNat_le, hvalue]
        exact h.left
      · intro heq
        rw [heq] at hvalue
        exact h.right.left hvalue.symm
      · intro heq
        rw [heq] at hvalue
        exact h.right.right hvalue.symm
  split at hb
  · rcases List.mem_pair.mp hb with rfl | rfl
    · exact raw_of_ge (by omega) (by omega)
    · exact raw_of_ge (by omega) (by omega)
  split at hb
  · rcases List.mem_cons.mp hb with rfl | hb
    · exact raw_of_ge (by omega) (by omega)
    rcases List.mem_pair.mp hb with rfl | rfl
    · exact raw_of_ge (by omega) (by omega)
    · exact raw_of_ge (by omega) (by omega)
  · rcases List.mem_cons.mp hb with rfl | hb
    · exact raw_of_ge (by omega) (by omega)
    rcases List.mem_cons.mp hb with rfl | hb
    · exact raw_of_ge (by omega) (by omega)
    rcases List.mem_pair.mp hb with rfl | rfl
    · exact raw_of_ge (by omega) (by omega)
    · exact raw_of_ge (by omega) (by omega)

def rawChars (bytes : List UInt8) (h : forall b, b ∈ bytes -> Raw b) :
    List StringChar :=
  bytes.pmap StringChar.raw h

theorem charsText_append (s t : List StringChar) :
    charsText (s ++ t) = charsText s ++ charsText t := by
  rw [charsText, List.map_append, List.flatten_append]
  rfl

theorem charsText_rawChars (bytes : List UInt8) (h : forall b, b ∈ bytes -> Raw b) :
    charsText (rawChars bytes h) = bytes := by
  induction bytes with
  | nil =>
      rfl
  | cons b bytes ih =>
      exact congrArg (List.cons b)
        (ih (fun b hb => h b (List.mem_cons_of_mem _ hb)))

theorem decodeChars_rawChars (bytes : List UInt8)
    (h : forall b, b ∈ bytes -> Raw b) (s : List StringChar) :
    decodeChars (rawChars bytes h ++ s) = bytes ++ decodeChars s := by
  induction bytes with
  | nil =>
      rfl
  | cons b bytes ih =>
      exact congrArg (List.cons b)
        (ih (fun b hb => h b (List.mem_cons_of_mem _ hb)))

def SpelledChar.chars (x : SpelledChar) : List StringChar :=
  match x.spelling with
  | .itself h => rawChars (String.utf8EncodeChar x.scalar) (raw_of_itself h)
  | .short d hd _ => [.short d hd]
  | .code a b c d hx _ => [.unicode a b c d hx]
  | .pair a b c d e f g i hx hx' _ _ _ =>
      [.unicode a b c d hx, .unicode e f g i hx']

def SpelledChar.decoded (x : SpelledChar) : List UInt8 :=
  match x.spelling with
  | .itself _ => x.utf8
  | .short d _ _ => [unescape d]
  | .code a b c d _ _ => utf8Encode (hexCode a b c d).toNat
  | .pair a b c d e f g i _ _ _ _ _ =>
      utf8Encode (pairCode (hexCode a b c d) (hexCode e f g i)).toNat

theorem SpelledChar.charsText_chars (x : SpelledChar) :
    charsText x.chars = x.text := by
  rcases x with ⟨scalar, nonzero, spelling⟩
  cases spelling with
  | itself h =>
      exact charsText_rawChars _ _
  | short d hd h =>
      rfl
  | code a b c d hx h =>
      rfl
  | pair a b c d e f g i hx hx' hhigh hlow h =>
      rfl

theorem literalText_eq (s : List SpelledChar) : literalText s = stringText
    (s.flatMap SpelledChar.chars) := by
  have htext : charsText (s.flatMap SpelledChar.chars) =
      s.flatMap SpelledChar.text := by
    induction s with
    | nil =>
        rfl
    | cons x s ih =>
        rw [List.flatMap_cons, List.flatMap_cons, charsText_append,
          x.charsText_chars, ih]
  rw [literalText, stringText, htext]

theorem not_surrogate {uc : UInt32} {scalar : Char}
    (h : uc.toNat = scalar.toNat) : ¬ IsHigh uc ∧ ¬ IsLow uc := by
  have hvalid := valid_scalar scalar
  rw [← h] at hvalid
  unfold Nat.isValidChar at hvalid
  simp only [IsHigh, IsLow, UInt32.le_iff_toNat_le, UInt32.reduceToNat]
  omega

theorem SpelledChar.decodeChars_chars (x : SpelledChar) (s : List StringChar) :
    decodeChars (x.chars ++ s) = x.decoded ++ decodeChars s := by
  rcases x with ⟨scalar, nonzero, spelling⟩
  cases spelling with
  | itself h =>
      exact decodeChars_rawChars _ _ _
  | short d hd h =>
      rfl
  | code a b c d hx h =>
      rcases not_surrogate h with ⟨hhigh, hlow⟩
      apply decodeChars_single s hhigh hlow
      intro hzero
      rw [hzero] at h
      exact nonzero h.symm
  | pair a b c d e f g i hx hx' hhigh hlow h =>
      exact decodeChars_pair s hhigh hlow

theorem decodeChars_flatMap (s : List SpelledChar) :
    decodeChars (s.flatMap SpelledChar.chars) = s.flatMap SpelledChar.decoded := by
  induction s with
  | nil =>
      rfl
  | cons x s ih =>
      rw [List.flatMap_cons, List.flatMap_cons, x.decodeChars_chars, ih]

/-!
# What is kept
-/

theorem utf8EncodeChar_short {d : UInt8} {scalar : Char} (hd : d ∈ escapeLetters)
    (h : (unescape d).toNat = scalar.toNat) :
    [unescape d] = String.utf8EncodeChar scalar := by
  have hletters : escapeLetters.all (fun d => decide (unescape d <= 0x7f)) =
      true := rfl
  have hsmall : unescape d <= 0x7f :=
    of_decide_eq_true (List.all_eq_true.mp hletters d hd)
  rw [utf8EncodeChar_eq, utf8Encode_eq (valid_scalar scalar),
    if_pos (h ▸ UInt8.le_iff_toNat_le.mp hsmall), ← h,
    UInt8.ofNat_toNat]

theorem SpelledChar.decoded_iff (x : SpelledChar) :
    x.decoded.length = x.utf8.length ∧
      (x.decoded = x.utf8 <-> (x.IsPair -> x.plane % 2 = 1)) := by
  rcases x with ⟨scalar, nonzero, spelling⟩
  cases spelling with
  | itself h =>
      exact ⟨rfl, fun _ hpair => hpair.elim, fun _ => rfl⟩
  | short d hd h =>
      have heq := utf8EncodeChar_short hd h
      exact ⟨congrArg List.length heq, fun _ hpair => hpair.elim, fun _ => heq⟩
  | code a b c d hx h =>
      have heq : utf8Encode (hexCode a b c d).toNat =
          String.utf8EncodeChar scalar := by
        rw [utf8EncodeChar_eq, h]
      exact ⟨congrArg List.length heq, fun _ hpair => hpair.elim, fun _ => heq⟩
  | pair a b c d e f g i hx hx' hhigh hlow h =>
      rcases pairCode_valid (hexCode a b c d) (hexCode e f g i) with
        ⟨hcode, hlong, hbit⟩
      rcases joined_valid (hexCode a b c d) (hexCode e f g i) with ⟨hcode', hlong'⟩
      have hutf8 : String.utf8EncodeChar scalar =
          utf8Encode (joined (hexCode a b c d) (hexCode e f g i)) := by
        rw [utf8EncodeChar_eq, h]
      have hplane : scalar.toNat / 0x10000 % 2 = 1 <->
          (hexCode a b c d).toNat / 64 % 2 = 0 := by
        rw [← h]
        unfold joined
        omega
      constructor
      · show (utf8Encode (pairCode _ _).toNat).length =
          (String.utf8EncodeChar scalar).length
        rw [hutf8, utf8Encode_long hcode hlong, utf8Encode_long hcode' hlong']
        rfl
      · show utf8Encode (pairCode _ _).toNat = String.utf8EncodeChar scalar <->
          (True -> scalar.toNat / 0x10000 % 2 = 1)
        rw [hutf8, forall_const, hplane, ← hbit]
        constructor
        · exact utf8Encode_inj hcode hcode' hlong hlong'
        · intro heq
          rw [heq]

theorem flatMap_eq_iff (s : List SpelledChar) :
    s.flatMap SpelledChar.decoded = s.flatMap SpelledChar.utf8 <->
      forall x, x ∈ s -> x.decoded = x.utf8 := by
  induction s with
  | nil =>
      exact ⟨fun _ x hx => absurd hx List.not_mem_nil, fun _ => rfl⟩
  | cons x s ih =>
      rw [List.flatMap_cons, List.flatMap_cons, List.forall_mem_cons, ← ih]
      constructor
      · intro h
        exact List.append_inj h x.decoded_iff.left
      · rintro ⟨hhead, hrest⟩
        rw [hhead, hrest]

/--
A literal, with any bytes and a NUL behind it, is decoded to the UTF-8 encoding
of its scalars exactly if those that are spelled by a pair are of odd planes.
-/
theorem parseString_literal_iff (s : List SpelledChar) (cells : Cells)
    (rest : List UInt8) :
    parseString cells (literalText s ++ (rest ++ [nul])) = .ok (literalUtf8 s)
      (rest ++ [nul]) <->
      forall x, x ∈ s -> x.IsPair -> x.plane % 2 = 1 := by
  have hnul : nul ∈ rest ++ [nul] := List.mem_append_right _ List.mem_cons_self
  rw [literalText_eq, parseString_stringText _ hnul, stringValue_eq,
    decodeChars_flatMap]
  constructor
  · intro h x hx
    injection h with hvalue _
    exact x.decoded_iff.right.mp ((flatMap_eq_iff s).mp hvalue x hx)
  · intro h
    have hvalue := (flatMap_eq_iff s).mpr (fun x hx =>
      x.decoded_iff.right.mpr (h x hx))
    rw [hvalue]
    rfl

theorem secondPlane_nonzero : (Char.ofNat 0x20000).toNat ≠ 0 := by
  decide

theorem secondPlane_digits : HexDigits 100 56 52 48 ∧ HexDigits 100 99 48 48 := by
  decide

theorem secondPlane_halves : IsHigh (hexCode 100 56 52 48) ∧ IsLow
    (hexCode 100 99 48 48) := by
  decide

theorem secondPlane_joined :
    joined (hexCode 100 56 52 48) (hexCode 100 99 48 48) =
      (Char.ofNat 0x20000).toNat := by
  decide

/-- U+20000, spelled `\ud840\udc00`. -/
def secondPlane : SpelledChar where
  scalar := Char.ofNat 0x20000
  nonzero := secondPlane_nonzero
  spelling := .pair 100 56 52 48 100 99 48 48 secondPlane_digits.left
    secondPlane_digits.right
    secondPlane_halves.left secondPlane_halves.right secondPlane_joined

/-- The bytes of the literal, and those of U+10000 that it is decoded to. -/
theorem parseString_secondPlane :
    literalText [secondPlane] = [34, 92, 117, 100, 56, 52, 48, 92, 117, 100, 99,
      48, 48, 34] ∧
      parseString { uc := none, uc2 := none } (literalText [secondPlane] ++
        [nul]) = .ok [0xF0, 0x90, 0x80, 0x80] [nul] ∧
        literalUtf8 [secondPlane] = [0xF0, 0xA0, 0x80, 0x80] := by
  decide +kernel

end CJson
end Lepd
