import Lepd.CJson.StringUnits

/-!
# The parser moves forward

Every function of the parser leaves its cursor on a suffix of the text it was given,
so the end pointer is never in front of the text.
-/

namespace Lepd
namespace CJson

open Foundation
open Foundation.Scan

theorem forward_skip : Forward skip := by
  intro cur
  induction cur with
  | nil =>
      trivial
  | cons c cur ih =>
      unfold skip
      split
      · exact ih.append [c]
      · exact List.suffix_refl _

theorem forward_streamCmp (str : List UInt8) : Forward (streamCmp str) := by
  induction str with
  | nil =>
      intro cur
      trivial
  | cons s str ih =>
      intro cur
      cases cur with
      | nil =>
          trivial
      | cons c cur =>
          unfold streamCmp
          split
          · exact (ih cur).append [c]
          · split
            · exact List.suffix_refl _
            · exact List.suffix_refl _

theorem forward_accept (byte : UInt8) : Forward (accept byte) :=
  forward_bind (forward_peek _) fun _ =>
    forward_ite (forward_bind forward_advance fun _ => forward_pure _)
      (forward_pure _)

/-!
# Strings
-/

theorem forward_lookahead {value : Type} (m : Parse value) :
    Forward (lookahead m) := by
  intro cur
  unfold lookahead
  cases m cur with
  | ok a rest =>
      exact List.suffix_refl cur
  | null rest =>
      exact List.suffix_refl cur
  | fault reason =>
      trivial

theorem forward_copyPass (cells : Cells) (out : List UInt8) :
    Forward (copyPass cells out) := by
  intro cur
  fun_induction copyPass cells out cur with
  | case1 | case4 | case5 | case7 | case9 =>
      trivial
  | case2 =>
      exact List.suffix_refl _
  | case3 _ _ c _ _ _ ih =>
      exact ih.append [c]
  | case6 _ _ e _ _ _ a b c d _ a' b' c' d' e' f' _ _ ih =>
      exact ih.append [e, lowerU, a, b, c, d, a', b', c', d', e', f']
  | case8 _ _ e _ _ _ a b c d _ _ _ ih =>
      exact ih.append [e, lowerU, a, b, c, d]
  | case10 _ _ e _ _ d _ _ ih =>
      exact ih.append [e, d]

theorem forward_parseString (cells : Cells) : Forward (parseString cells) :=
  forward_bind (forward_peek _) fun _ =>
    forward_ite forward_fail <|
      forward_bind forward_advance fun _ =>
        forward_bind (forward_lookahead _) fun _ =>
          forward_bind (forward_copyPass cells []) fun _ =>
            forward_bind (forward_accept quote) fun _ => forward_pure _

theorem forward_parseStringAt (stack : Stack) : Forward (parseStringAt stack) :=
  fun cur => forward_parseString _ cur

/-!
# Containers
-/

section Items

variable {item : Type} {closing : UInt8} {parseItem : Parse item}

theorem forward_closeItems (items : List item) :
    Forward (closeItems closing items) :=
  forward_bind (forward_peek _) fun _ =>
    forward_ite forward_fail (forward_bind forward_advance fun _ => forward_pure _)

theorem forward_itemsLoop (h : Forward parseItem) (fuel : Nat) (items : List item) :
    Forward (itemsLoop closing parseItem fuel items) := by
  induction fuel generalizing items with
  | zero =>
      exact forward_undefined _
  | succ fuel ih =>
      refine forward_bind (forward_peek _) fun _ =>
        forward_ite ?_ (forward_closeItems items)
      refine forward_bind forward_advance fun _ =>
        forward_bind forward_skip fun _ => ?_
      refine forward_bind (forward_peek _) fun _ => forward_ite ?_ ?_
      · exact forward_bind forward_advance fun _ => forward_closeItems items
      · exact forward_bind h fun child => ih (items ++ [child])

theorem forward_parseItems {opening : UInt8} (h : Forward parseItem) :
    Forward (parseItems opening closing parseItem) := by
  refine forward_bind (forward_peek _) fun _ => forward_ite forward_fail ?_
  refine forward_bind forward_advance fun _ => forward_bind forward_skip fun _ => ?_
  refine forward_bind (forward_peek _) fun _ => forward_ite ?_ ?_
  · exact forward_bind forward_advance fun _ => forward_pure _
  · exact forward_bind h fun child => forward_length fun fuel =>
      forward_itemsLoop h fuel [child]

end Items

variable {double : Type}

theorem forward_parseElement {parseValue : Parse (Item double)}
    (h : Forward parseValue) :
    Forward (parseElement parseValue) :=
  forward_bind h fun _ => forward_bind forward_skip fun _ => forward_pure _

theorem forward_parseMember (stack : Stack) {parseValue : Parse (Item double)}
    (h : Forward parseValue) : Forward (parseMember stack parseValue) := by
  refine forward_bind (forward_parseStringAt stack) fun _ =>
    forward_bind forward_skip fun _ => ?_
  refine forward_bind (forward_peek _) fun _ => forward_ite forward_fail ?_
  refine forward_bind forward_advance fun _ => forward_bind forward_skip fun _ => ?_
  exact forward_bind h fun _ => forward_bind forward_skip fun _ => forward_pure _

variable [CDouble double]

/-!
# Numbers
-/

theorem forward_numberDigits (n : double) (count : Nat) :
    Forward (numberDigits n count) := by
  intro cur
  fun_induction numberDigits n count cur with
  | case1 =>
      trivial
  | case2 _ _ c _ _ ih =>
      exact ih.append [c]
  | case3 =>
      exact List.suffix_refl _

theorem forward_exponentDigits (subscale : Int) :
    Forward (exponentDigits subscale) := by
  intro cur
  fun_induction exponentDigits subscale cur with
  | case1 =>
      trivial
  | case2 _ c _ _ ih =>
      exact ih.append [c]
  | case3 =>
      exact List.suffix_refl _

theorem forward_integerPart : Forward (integerPart : Parse double) :=
  forward_bind (forward_accept zeroDigit) fun _ =>
    forward_bind (forward_peek _) fun _ =>
      forward_ite (forward_bind (forward_numberDigits _ 0) fun _ => forward_pure _)
        (forward_pure _)

theorem forward_fractionPart (n : double) : Forward (fractionPart n) := by
  refine forward_bind (forward_peek _) fun _ => forward_ite ?_ (forward_pure _)
  refine forward_bind (forward_peekNext _) fun _ => forward_ite ?_ (forward_pure _)
  exact forward_bind forward_advance fun _ => forward_numberDigits n 0

theorem forward_exponentSign : Forward exponentSign :=
  forward_bind (forward_peek _) fun _ =>
    forward_ite (forward_bind forward_advance fun _ => forward_pure _)
      (forward_ite (forward_bind forward_advance fun _ => forward_pure _)
        (forward_pure _))

theorem forward_exponentPart : Forward exponentPart := by
  refine forward_bind (forward_peek _) fun _ => forward_ite ?_ (forward_pure _)
  refine forward_bind forward_advance fun _ =>
    forward_bind forward_exponentSign fun _ => ?_
  exact forward_bind (forward_exponentDigits 0) fun _ => forward_pure _

theorem forward_parseNumber : Forward (parseNumber : Parse (Item double)) := by
  refine forward_bind (forward_accept minus) fun _ =>
    forward_bind forward_integerPart fun n => ?_
  refine forward_bind (forward_fractionPart n) fun _ => ?_
  exact forward_bind forward_exponentPart fun _ => forward_pure _

/-!
# Values
-/

theorem forward_parseValue (stack : Stack) (depth : Nat) :
    Forward (parseValue stack depth : Parse (Item double)) := by
  induction depth with
  | zero =>
      exact forward_undefined _
  | succ depth ih =>
      refine forward_bind (forward_streamCmp _) fun _ =>
        forward_ite (forward_pure _) ?_
      refine forward_bind (forward_streamCmp _) fun _ =>
        forward_ite (forward_pure _) ?_
      refine forward_bind (forward_streamCmp _) fun _ =>
        forward_ite (forward_pure _) ?_
      refine forward_bind (forward_peek _) fun _ => forward_ite ?_ ?_
      · exact forward_bind (forward_parseStringAt stack) fun _ => forward_pure _
      · refine forward_ite forward_parseNumber
          (forward_ite ?_ (forward_ite ?_ forward_fail))
        · exact forward_bind (forward_parseItems (forward_parseElement ih))
            fun _ => forward_pure _
        · exact forward_bind (forward_parseItems (forward_parseMember stack ih))
            fun _ =>
            forward_pure _

theorem forward_cJSONParseStream (stack : Stack) :
    Forward (cJSONParseStream stack : Parse (Item double)) :=
  forward_bind forward_skip fun _ => forward_length fun depth =>
    forward_parseValue stack depth

end CJson
end Lepd
