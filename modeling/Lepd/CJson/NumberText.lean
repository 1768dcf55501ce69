import Lepd.CJson.Grammar

/-!
# Well-formed numbers

The number parser reads the whole of a number text, with or without its missing
digits, and stops at the first byte that cannot belong to it.
-/

namespace Lepd
namespace CJson

open Foundation
open Foundation.Scan

variable {double : Type} [CDouble double]

/-!
# Digits
-/

theorem numberDigits_append {ds : List UInt8} (hds : Digits ds) {c : UInt8}
    (hc : isDigit c = false) (tail : List UInt8) (x : double) (count : Nat) :
    numberDigits x count (ds ++ c :: tail) =
      .ok (NumberText.accumulate x ds, count + ds.length) (c :: tail) := by
  induction ds generalizing x count with
  | nil =>
      simp [numberDigits, hc, NumberText.accumulate]
  | cons d ds ih =>
      have hd : isDigit d = true := hds d List.mem_cons_self
      have hrest : Digits ds := fun e he => hds e (List.mem_cons_of_mem d he)
      simp only [List.cons_append, numberDigits, hd, if_true]
      rw [ih hrest]
      simp [NumberText.accumulate, Nat.add_assoc, Nat.add_comm 1]

theorem exponentDigits_append {ds : List UInt8} (hds : Digits ds) {c : UInt8}
    (hc : isDigit c = false) (tail : List UInt8) (k : Int) :
    exponentDigits k (ds ++ c :: tail) =
      .ok (ds.foldl (fun k c => toInt32 (k * 10 + ((c.toNat : Int) - 48))) k)
        (c :: tail) := by
  induction ds generalizing k with
  | nil =>
      simp [exponentDigits, hc]
  | cons d ds ih =>
      have hd : isDigit d = true := hds d List.mem_cons_self
      have hrest : Digits ds := fun e he => hds e (List.mem_cons_of_mem d he)
      simp only [List.cons_append, exponentDigits, hd, if_true, List.foldl_cons]
      exact ih hrest _

theorem accept_self (c : UInt8) (tail : List UInt8) :
    accept c (c :: tail) = .ok true tail := by
  simp [accept, peek]

theorem accept_other {c d : UInt8} (h : d ≠ c) (tail : List UInt8) :
    accept c (d :: tail) = .ok false (d :: tail) := by
  simp [accept, peek, h]

theorem ne_of_isDigit_ne {c d : UInt8} (hc : isDigit c = true)
    (hd : isDigit d = false) : c ≠ d := by
  rintro rfl
  rw [hc] at hd
  cases hd

/-!
# The parts of a number
-/

theorem integerPart_append (n : NumberText) {c : UInt8} (hc : isDigit c = false)
    (tail : List UInt8) :
    integerPart (n.int ++ c :: tail) = .ok (n.intValue : double) (c :: tail) := by
  have hzero : c ≠ zeroDigit := (ne_of_isDigit_ne (by decide) hc).symm
  rcases n.int_leading with hint | hint | ⟨d, ds, hint, hd⟩
  · have hvalue : (n.intValue : double) = CDouble.ofInt 0 := by
      simp [NumberText.intValue, hint, NumberText.accumulate]
    rw [hint, List.nil_append, hvalue]
    simp [integerPart, accept_other hzero, peek, hc]
  · have hvalue : (n.intValue : double) = CDouble.ofInt 0 := by
      simp [NumberText.intValue, hint]
    rw [hint, hvalue]
    simp only [List.cons_append, List.nil_append, integerPart, bind_apply,
      accept_self]
    simp [peek, hc]
  · have hdigits : Digits (d :: ds) := hint ▸ n.int_digits
    have hdigit : isDigit d = true := hdigits d List.mem_cons_self
    have hvalue : (n.intValue : double) = NumberText.accumulate
        (CDouble.ofInt 0) (d :: ds) := by
      have hne : n.int ≠ [zeroDigit] := by
        rw [hint]
        simp [hd]
      rw [NumberText.intValue, if_neg hne, hint]
    rw [hint, hvalue]
    simp only [List.cons_append, integerPart, bind_apply, accept_other hd,
      andThen_ok, peek,
      peek_cons]
    rw [if_pos ⟨hdigit, hd⟩]
    simp only [bind_apply]
    rw [← List.cons_append, numberDigits_append hdigits hc]
    rfl

/-- What may stand after a number without being read as part of it. -/
def NumberEnd (rest : List UInt8) : Prop :=
  exists c tail, rest = c :: tail ∧ isDigit c = false ∧ c ≠ lowerE ∧ c ≠ upperE ∧
    c ≠ plus ∧ c ≠ minus ∧
    (c = dot -> exists d tail', tail = d :: tail' ∧ isDigit d = false)

/-- What may stand after the fraction of a number without being read as part of
it. -/
def FractionEnd (rest : List UInt8) : Prop :=
  exists c tail, rest = c :: tail ∧ isDigit c = false ∧
    (c = dot -> exists d tail', tail = d :: tail' ∧ isDigit d = false)

theorem fractionPart_append (n : NumberText) {rest : List UInt8}
    (hrest : FractionEnd rest)
    (x : double) :
    fractionPart x (n.fracText ++ rest) =
      .ok (NumberText.accumulate x n.frac, n.frac.length) rest := by
  rcases hrest with ⟨c, tail, rfl, hc, hdot⟩
  cases hfrac : n.frac with
  | nil =>
      by_cases hcdot : c = dot
      · rcases hdot hcdot with ⟨d, tail', rfl, hd⟩
        simp [NumberText.fracText, hfrac, fractionPart, peek, hcdot, hd,
          NumberText.accumulate]
      · simp [NumberText.fracText, hfrac, fractionPart, peek, hcdot,
          NumberText.accumulate]
  | cons d ds =>
      have hdigits : Digits (d :: ds) := hfrac ▸ n.frac_digits
      have hdigit : isDigit d = true := hdigits d List.mem_cons_self
      have htext : n.fracText ++ c :: tail = dot :: d :: (ds ++ c :: tail) := by
        simp [NumberText.fracText, hfrac]
      rw [htext]
      simp only [fractionPart, peek, bind_apply, peek_cons, andThen_ok, if_true,
        peekNext_cons,
        if_pos hdigit, advance_apply, List.tail_cons]
      rw [← List.cons_append, numberDigits_append hdigits hc]
      simp

theorem exponentSign_append {sign : List UInt8}
    (hsign : sign = [] ∨ sign = [plus] ∨ sign = [minus]) {c : UInt8}
    (hplus : c ≠ plus)
    (hminus : c ≠ minus) (tail : List UInt8) :
    exponentSign (sign ++ c :: tail) =
      .ok (if sign = [minus] then -1 else 1) (c :: tail) := by
  rcases hsign with rfl | rfl | rfl
  · simp [exponentSign, peek, hplus, hminus]
  · simp [exponentSign, peek]
  · simp [exponentSign, peek]

theorem exponentPart_append (n : NumberText) {rest : List UInt8}
    (hrest : NumberEnd rest) :
    exponentPart (n.expText ++ rest) = .ok n.subscale rest := by
  rcases hrest with ⟨c, tail, rfl, hc, hlower, hupper, hplus, hminus, _⟩
  cases hexp : n.exp with
  | none =>
      simp [NumberText.expText, NumberText.subscale, hexp, exponentPart, peek,
        hlower, hupper]
  | some e =>
      have htext : n.expText ++ c :: tail =
          e.letter :: (e.sign ++ (e.digits ++ c :: tail)) := by
        simp [NumberText.expText, hexp, ExponentText.text]
      have hsign : exponentSign (e.sign ++ (e.digits ++ c :: tail)) =
          .ok (if e.sign = [minus] then -1 else 1) (e.digits ++ c :: tail) := by
        cases hdigits : e.digits with
        | nil =>
            exact exponentSign_append e.sign_eq hplus hminus tail
        | cons d ds =>
            have hd : isDigit d = true :=
              e.digits_digits d (hdigits ▸ List.mem_cons_self)
            exact exponentSign_append e.sign_eq (ne_of_isDigit_ne hd (by decide))
              (ne_of_isDigit_ne hd (by decide)) (ds ++ c :: tail)
      rw [htext]
      simp only [exponentPart, peek, bind_apply, peek_cons, andThen_ok,
        if_pos e.letter_eq,
        advance_apply, List.tail_cons, hsign,
          exponentDigits_append e.digits_digits hc]
      simp only [NumberText.subscale, hexp]
      rfl

theorem expText_fractionEnd (n : NumberText) {rest : List UInt8}
    (hrest : NumberEnd rest) :
    FractionEnd (n.expText ++ rest) := by
  cases hexp : n.exp with
  | none =>
      rcases hrest with ⟨c, tail, hrest, hc, _, _, _, _, hdot⟩
      exact ⟨c, tail, by simp [NumberText.expText, hexp, hrest], hc, hdot⟩
  | some e =>
      refine ⟨e.letter, e.sign ++ e.digits ++ rest,
        by simp [NumberText.expText, hexp, ExponentText.text], ?_, ?_⟩
      · rcases e.letter_eq with h | h <;> rw [h] <;> decide
      · intro h
        rcases e.letter_eq with h' | h' <;> rw [h'] at h <;> exact absurd h
          (by decide)

theorem fracText_head (n : NumberText) {rest : List UInt8}
    (hrest : FractionEnd rest) :
    exists c tail, n.fracText ++ rest = c :: tail ∧ isDigit c = false := by
  by_cases hfrac : n.frac = []
  · rcases hrest with ⟨c, tail, rfl, hc, _⟩
    exact ⟨c, tail, by simp [NumberText.fracText, hfrac], hc⟩
  · exact ⟨dot, n.frac ++ rest, by simp [NumberText.fracText, hfrac], by decide⟩

/-!
# The whole number
-/

theorem int_head_ne_minus (n : NumberText) {rest : List UInt8}
    (hrest : NumberEnd rest) :
    exists c tail, n.int ++ (n.fracText ++ (n.expText ++ rest)) = c :: tail ∧
      c ≠ minus := by
  cases hint : n.int with
  | cons d ds =>
      have hd : isDigit d = true := n.int_digits d (hint ▸ List.mem_cons_self)
      exact ⟨d, _, rfl, ne_of_isDigit_ne hd (by decide)⟩
  | nil =>
      by_cases hfrac : n.frac = []
      · cases hexp : n.exp with
        | none =>
            rcases hrest with ⟨c, tail, rfl, _, _, _, _, hminus, _⟩
            exact ⟨c, tail, by simp [NumberText.fracText, NumberText.expText,
              hfrac, hexp], hminus⟩
        | some e =>
            refine ⟨e.letter, e.sign ++ e.digits ++ rest,
              by simp [NumberText.fracText, NumberText.expText, hfrac, hexp,
                ExponentText.text], ?_⟩
            rcases e.letter_eq with h | h <;> rw [h] <;> decide
      · exact ⟨dot, n.frac ++ (n.expText ++ rest), by simp [NumberText.fracText,
          hfrac], by decide⟩

theorem parseNumber_append (n : NumberText) {rest : List UInt8}
    (hrest : NumberEnd rest) :
    parseNumber (n.text ++ rest) = .ok (n.item : Item double) rest := by
  have hfracEnd := expText_fractionEnd n hrest
  rcases fracText_head n hfracEnd with ⟨c, tail, hhead, hc⟩
  have htext : n.text ++ rest =
      n.signText ++ (n.int ++ (n.fracText ++ (n.expText ++ rest))) := by
    simp [NumberText.text]
  have hsign : accept minus (n.text ++ rest) =
      .ok n.negative (n.int ++ (n.fracText ++ (n.expText ++ rest))) := by
    rw [htext]
    cases hneg : n.negative with
    | true =>
        simp [NumberText.signText, hneg, accept_self]
    | false =>
        rcases int_head_ne_minus n hrest with ⟨d, tail', hd, hminus⟩
        simp [NumberText.signText, hneg, hd, accept_other hminus]
  simp only [parseNumber, bind_apply, hsign, andThen_ok]
  rw [hhead, integerPart_append n hc, ← hhead]
  simp only [andThen_ok, bind_apply, fractionPart_append n hfracEnd,
    exponentPart_append n hrest]
  rfl

end CJson
end Lepd
