import Lepd.CJson.Grammar
import Lepd.CJson.StringUnits

/-!
# Well-formed strings

Both passes read the characters of a well-formed string as whole units, whatever
the unset variables hold, and the copying pass stores what the characters stand
for.
-/

namespace Lepd
namespace CJson

open Foundation
open Foundation.Scan

/-!
# Hexadecimal digits
-/

theorem hexValue_of_eq {c x : UInt8} (h : (hexValue c).isSome)
    (hx : hexValue x = none) :
    c ≠ x := by
  intro hc
  rw [hc, hx] at h
  cases h

theorem isspace_cases {c : UInt8} (h : isspace c = true) :
    c = 32 ∨ c = 9 ∨ c = 10 ∨ c = 11 ∨ c = 12 ∨ c = 13 := by
  simp only [isspace, Bool.or_eq_true, beq_iff_eq, Bool.and_eq_true,
    decide_eq_true_eq,
    UInt8.le_iff_toNat_le] at h
  rcases h with h | ⟨hlow, hhigh⟩
  · exact Or.inl h
  · have hlow' : 9 <= c.toNat := hlow
    have hhigh' : c.toNat <= 13 := hhigh
    have hc : c = UInt8.ofNat c.toNat := by simp
    rcases (by omega : c.toNat = 9 ∨ c.toNat = 10 ∨ c.toNat = 11 ∨
        c.toNat = 12 ∨ c.toNat = 13)
      with h' | h' | h' | h' | h' <;> rw [h'] at hc <;> simp [hc]

theorem hexValue_isspace {c : UInt8} (h : (hexValue c).isSome) :
    isspace c = false := by
  by_contra hspace
  have hspace' : isspace c = true := by simpa using hspace
  rcases isspace_cases hspace' with rfl | rfl | rfl | rfl | rfl | rfl <;> cases h

theorem plain_of_hex {c : UInt8} (h : (hexValue c).isSome) : Plain c :=
  ⟨hexValue_of_eq h (by decide), hexValue_of_eq h (by decide),
    hexValue_of_eq h (by decide)⟩

def HexFour (a b c d : UInt8) : Prop :=
  (hexValue a).isSome ∧ (hexValue b).isSome ∧ (hexValue c).isSome ∧
    (hexValue d).isSome

theorem sscanf4x_hex {a b c d : UInt8} (h : HexFour a b c d) (rest : List UInt8) :
    sscanf4x (a :: b :: c :: d :: rest) = some (hexCode a b c d) := by
  rcases h with ⟨ha, hb, hc, hd⟩
  rcases Option.isSome_iff_exists.mp ha with ⟨va, hva⟩
  rcases Option.isSome_iff_exists.mp hb with ⟨vb, hvb⟩
  rcases Option.isSome_iff_exists.mp hc with ⟨vc, hvc⟩
  rcases Option.isSome_iff_exists.mp hd with ⟨vd, hvd⟩
  have hdigits : hexNumber (hexDigits 4 (a :: b :: c :: d :: rest)) =
      some ([a, b, c, d].foldl (fun n x => 16 * n + (hexValue x).getD 0) 0) := by
    simp [hexDigits, hexNumber, hva, hvb, hvc, hvd]
  have hscan : scanHex 4 (a :: b :: c :: d :: rest) =
      some ([a, b, c, d].foldl (fun n x => 16 * n + (hexValue x).getD 0) 0) := by
    unfold scanHex
    split
    · next x tail htext =>
        cases htext
        have hx : b ≠ 120 := hexValue_of_eq hb (by decide)
        have hX : b ≠ 88 := hexValue_of_eq hb (by decide)
        simp only [hx, hX, or_self, if_false]
        exact hdigits
    · exact hdigits
  have hminus : a ≠ 45 := hexValue_of_eq ha (by decide)
  have hplus : a ≠ 43 := hexValue_of_eq ha (by decide)
  unfold sscanf4x
  rw [List.dropWhile_cons_of_neg (by simp [hexValue_isspace ha])]
  split
  · next htext =>
      cases htext
      exact absurd rfl hminus
  · next htext =>
      cases htext
      exact absurd rfl hplus
  · rw [hscan]
    rfl

theorem scanInto_hex {a b c d : UInt8} (h : HexFour a b c d) {rest : List UInt8}
    (hnul : nul ∈ rest) (cell : Option UInt32) :
    scanInto cell (a :: b :: c :: d :: rest) = .ok (hexCode a b c d) := by
  have hmem : nul ∈ a :: b :: c :: d :: rest := by simp [hnul]
  unfold scanInto
  rw [if_neg (not_not_intro hmem), sscanf4x_hex h rest]
  rfl

/-!
# One escape
-/

theorem transcode_invalid {cells : Cells} {text : List UInt8} {uc : UInt32}
    (hscan : scanInto cells.uc text = .ok uc)
    (huc : (0xDC00 <= uc ∧ uc <= 0xDFFF) ∨ uc = 0) :
    transcode cells text =
      .ok { cells := { uc := some uc, uc2 := cells.uc2 }, bytes := [],
            pair := false } := by
  unfold transcode
  rw [hscan]
  simp only [bind, Except.bind, if_pos huc]
  rfl

theorem transcode_single {cells : Cells} {text : List UInt8} {uc : UInt32}
    (hscan : scanInto cells.uc text = .ok uc)
    (hvalid : ¬ ((0xDC00 <= uc ∧ uc <= 0xDFFF) ∨ uc = 0))
    (hhigh : ¬ (0xD800 <= uc ∧ uc <= 0xDBFF)) :
    transcode cells text = .ok (storeCode uc cells.uc2 false) := by
  unfold transcode
  rw [hscan]
  simp only [bind, Except.bind, if_neg hvalid, if_neg hhigh]
  rfl

theorem transcode_lone {cells : Cells} {text second : List UInt8} {uc : UInt32}
    {x : UInt8}
    (hscan : scanInto cells.uc text = .ok uc)
    (hvalid : ¬ ((0xDC00 <= uc ∧ uc <= 0xDFFF) ∨ uc = 0))
    (hhigh : 0xD800 <= uc ∧ uc <= 0xDBFF)
    (hdrop : text.drop 4 = x :: second)
    (hx : x = backslash -> exists u tail, second = u :: tail ∧ u ≠ lowerU) :
    transcode cells text =
      .ok { cells := { uc := some uc, uc2 := cells.uc2 }, bytes := [],
            pair := false } := by
  unfold transcode
  rw [hscan, hdrop]
  simp only [bind, Except.bind, if_neg hvalid, if_pos hhigh]
  by_cases hback : x = backslash
  · rcases hx hback with ⟨u, tail, rfl, hu⟩
    rw [if_neg (not_not_intro hback)]
    simp only [if_pos hu]
    rfl
  · rw [if_pos hback]
    rfl

theorem transcode_pair {cells : Cells} {text second : List UInt8} {uc uc2 : UInt32}
    (hscan : scanInto cells.uc text = .ok uc)
    (hvalid : ¬ ((0xDC00 <= uc ∧ uc <= 0xDFFF) ∨ uc = 0))
    (hhigh : 0xD800 <= uc ∧ uc <= 0xDBFF)
    (hdrop : text.drop 4 = backslash :: lowerU :: second)
    (hscan2 : scanInto cells.uc2 second = .ok uc2) :
    transcode cells text =
      .ok (if uc2 < 0xDC00 ∨ uc2 > 0xDFFF then
          { cells := { uc := some uc, uc2 := some uc2 }, bytes := [], pair := true }
        else storeCode (pairCode uc uc2) (some uc2) true) := by
  unfold transcode
  rw [hscan, hdrop]
  simp only [bind, Except.bind, if_neg hvalid, if_pos hhigh, ne_eq,
    not_true_eq_false, if_false,
    hscan2]
  split <;> rfl

/-!
# The characters of a string
-/

theorem charsText_cons (x : StringChar) (s : List StringChar) :
    charsText (x :: s) = x.text ++ charsText s := by
  simp [charsText]

theorem escapeLetters_ne_lowerU {d : UInt8} (h : d ∈ escapeLetters) :
    d ≠ lowerU := by
  rintro rfl
  exact absurd h (by decide)

theorem plain_of_raw {c : UInt8} (h : 32 <= c ∧ c ≠ quote ∧ c ≠ backslash) :
    Plain c := by
  refine ⟨h.right.left, ?_, h.right.right⟩
  rintro rfl
  exact absurd h.left (by decide)

/--
What stands after the characters of a string does not read as a second `\u`
escape, unless such an escape comes first among them.
-/
theorem charsText_append_head {s : List StringChar} {after : List UInt8}
    (hafter : AtDelimiter after)
    (hs : forall a b c d h s', s = .unicode a b c d h :: s' -> False) :
    exists x second, charsText s ++ after = x :: second ∧
      (x = backslash -> exists u tail, second = u :: tail ∧ u ≠ lowerU) := by
  cases s with
  | nil =>
      rcases hafter with ⟨c, rest, rfl, hc⟩
      refine ⟨c, rest, rfl, ?_⟩
      rintro rfl
      rcases hc with hc | hc <;> exact absurd hc (by decide)
  | cons y s =>
      cases y with
      | raw c hc =>
          refine ⟨c, charsText s ++ after, by simp [charsText_cons,
            StringChar.text], ?_⟩
          intro hback
          exact absurd hback hc.right.right
      | short d hd =>
          exact ⟨backslash, d :: (charsText s ++ after),
            by simp [charsText_cons, StringChar.text],
            fun _ => ⟨d, _, rfl, escapeLetters_ne_lowerU hd⟩⟩
      | unicode a b c d h =>
          exact absurd rfl (fun heq => hs a b c d h s heq)

theorem copyBody_charsText (s : List StringChar) {after : List UInt8}
    (hafter : AtDelimiter after) (hnul : nul ∈ after) (cells : Cells) :
    CopyBody cells (charsText s) after (decodeChars s) := by
  have hmem : forall s : List StringChar, nul ∈ charsText s ++ after :=
    fun s => List.mem_append_right _ hnul
  fun_induction decodeChars s generalizing cells with
  | case1 =>
      exact .nil
  | case2 c hc s ih =>
      rw [charsText_cons]
      exact .plain (plain_of_raw hc) (ih cells)
  | case3 d hd s ih =>
      rw [charsText_cons]
      exact .escape (escapeLetters_ne_lowerU hd) (ih cells)
  | case4 a b c d h s hinvalid ih =>
      rw [charsText_cons]
      exact .unicode (transcode_invalid (scanInto_hex h (hmem s) cells.uc)
        hinvalid) rfl
        (ih _)
  | case5 a b c d h hvalid hhigh e f g i h' s hsecond ih =>
      have hmem' : nul ∈ backslash :: lowerU :: e :: f :: g :: i ::
          (charsText s ++ after) := by
        simp [hnul]
      have hscan := scanInto_hex h hmem' cells.uc
      have hpair := transcode_pair hscan hvalid hhigh rfl
        (scanInto_hex h' (hmem s) cells.uc2)
      rw [if_pos hsecond] at hpair
      rw [charsText_cons, charsText_cons]
      exact .surrogates hpair rfl (ih _)
  | case6 a b c d h hvalid hhigh e f g i h' s hsecond ih =>
      have hmem' : nul ∈ backslash :: lowerU :: e :: f :: g :: i ::
          (charsText s ++ after) := by
        simp [hnul]
      have hscan := scanInto_hex h hmem' cells.uc
      have hpair := transcode_pair hscan hvalid hhigh rfl
        (scanInto_hex h' (hmem s) cells.uc2)
      rw [if_neg hsecond] at hpair
      rw [charsText_cons, charsText_cons]
      exact .surrogates hpair rfl (ih _)
  | case7 a b c d h hvalid hhigh s hs ih =>
      rcases charsText_append_head hafter hs with ⟨x, second, hx, hback⟩
      have hlone := transcode_lone (scanInto_hex h (hmem s) cells.uc) hvalid
        hhigh hx hback
      rw [charsText_cons]
      exact .unicode hlone rfl (ih _)
  | case8 a b c d h s hvalid hhigh ih =>
      rw [charsText_cons]
      exact .unicode (transcode_single (scanInto_hex h (hmem s) cells.uc) hvalid
        hhigh) rfl
        (ih _)

theorem countBody_charsText (s : List StringChar) :
    exists n, CountBody (charsText s) n := by
  induction s with
  | nil =>
      exact ⟨0, .nil⟩
  | cons x s ih =>
      rcases ih with ⟨n, hn⟩
      rw [charsText_cons]
      cases x with
      | raw c hc =>
          exact ⟨n + 1, .plain (plain_of_raw hc) hn⟩
      | short d hd =>
          exact ⟨n + 1, .escape hn⟩
      | unicode a b c d h =>
          exact ⟨n + 5,
            .escape (.plain (plain_of_hex h.left)
            (.plain (plain_of_hex h.right.left)
            (.plain (plain_of_hex h.right.right.left)
              (.plain (plain_of_hex h.right.right.right) hn))))⟩

/-!
# The whole string
-/

def afterQuote : List UInt8 -> List UInt8
  | [] => []
  | c :: rest => if c = quote then rest else c :: rest

theorem parseString_of_passes {cells : Cells} {text out stop stop' : List UInt8}
    {len : Nat}
    (hcount : countPass 0 text = .ok len stop')
    (hcopy : copyPass cells [] text = .ok out stop)
    (hstop : AtDelimiter stop) :
    parseString cells (quote :: text) = .ok (cString out) (afterQuote stop) := by
  rcases hstop with ⟨c, rest, rfl, _⟩
  simp only [parseString, peek, bind_apply, peek_cons, andThen_ok, ne_eq,
    not_true_eq_false,
    if_false, advance_apply, List.tail_cons, lookahead, hcount, hcopy, accept,
      afterQuote]
  by_cases hc : c = quote
  · simp [hc]
  · simp [hc]

theorem parseString_stringText (s : List StringChar) {rest : List UInt8}
    (hnul : nul ∈ rest) (cells : Cells) :
    parseString cells (stringText s ++ rest) = .ok (stringValue s) rest := by
  have hstop : AtDelimiter (quote :: rest) := ⟨quote, rest, rfl, Or.inl rfl⟩
  rcases countBody_charsText s with ⟨n, hcount⟩
  have htext : stringText s ++ rest = quote :: (charsText s ++ quote :: rest) := by
    simp [stringText]
  rw [htext, parseString_of_passes (countPass_complete hcount hstop 0)
    (copyPass_complete (copyBody_charsText s hstop (by simp [hnul]) cells) hstop
    []) hstop]
  rfl

end CJson
end Lepd
