import Lepd.CJson.Brackets
import Lepd.CJson.Overrun

/-!
# Soundness of acceptance

What the parser accepts is a value of the grammar, possibly with trailing
commas, exactly when its reading takes no liberty.  One half is the soundness of
readings without a liberty.  For the other half the text has no trailing comma,
since its brackets balance; and the reading of a text of the grammar without
trailing commas takes no liberty.
-/

namespace Lepd
namespace CJson

open Foundation
open Foundation.Scan

/-!
# Numbers of the grammar
-/

theorem length_le_of_wordRun {cur rest : List UInt8} (h : WordRun cur rest) :
    rest.length <= cur.length := by
  rcases h with ⟨text, rfl, _⟩
  rw [List.length_append]
  exact Nat.le_add_left _ _

theorem length_afterInteger {n : NumberText} (hn : n.Complete) (rest : List UInt8) :
    (afterInteger (n.int ++ rest)).length <= rest.length := by
  rcases n.int_leading with hint | hint | ⟨d, ds, hint, hd⟩
  · exact absurd hint hn.left
  · rw [hint]
    exact length_le_of_wordRun (wordRun_afterInteger rfl rest)
  · have hdigits : forall c, c ∈ d :: ds -> isDigit c = true := by
      rw [← hint]
      exact n.int_digits
    have hdigit : isDigit d = true ∧ d ≠ zeroDigit :=
      ⟨hdigits d List.mem_cons_self, hd⟩
    have hafter : afterInteger (n.int ++ rest) = rest.dropWhile isDigit := by
      rw [hint, List.cons_append]
      simp only [afterInteger, dropByte, if_neg hd, if_pos hdigit]
      rw [← List.cons_append, List.dropWhile_append_of_pos hdigits]
    rw [hafter]
    exact length_le_of_wordRun (wordRun_digits rest)

theorem dropByte_signText {n : NumberText} (hn : n.Complete) (rest : List UInt8) :
    dropByte minus (n.text ++ rest) = n.int ++
      (n.fracText ++ (n.expText ++ rest)) := by
  have htext : n.text ++ rest =
      n.signText ++ (n.int ++ (n.fracText ++ (n.expText ++ rest))) := by
    simp [NumberText.text]
  rw [htext, NumberText.signText]
  cases n.negative with
  | true =>
      rfl
  | false =>
      cases hint : n.int with
      | nil =>
          exact absurd hint hn.left
      | cons d ds =>
          have hd : isDigit d = true := n.int_digits d (hint ▸ List.mem_cons_self)
          have hminus : d ≠ minus := ne_of_isDigit_ne hd (by decide)
          simp [dropByte, hminus]

theorem afterInteger_append {n : NumberText} {rest : List UInt8} {c : UInt8}
    {tail : List UInt8} (hrest : rest = c :: tail) (hc : isDigit c = false)
    (hnul : nul ∈ rest) :
    afterInteger (n.int ++ rest) = rest := by
  have hread : integerPart (n.int ++ rest) = .ok (n.intValue : Rat) rest := by
    rw [hrest]
    exact integerPart_append n hc tail
  have htotal : (exists v : Rat, integerPart (n.int ++ rest) =
      .ok v (afterInteger (n.int ++ rest))) ∧ _ :=
    integerPart_total (List.mem_append.mpr (Or.inr hnul))
  rcases htotal with ⟨⟨v, hv⟩, _⟩
  rw [hread] at hv
  injection hv with _ hrest'
  exact hrest'.symm

theorem afterFraction_append {n : NumberText} {rest : List UInt8}
    (hrest : FractionEnd rest)
    (hnul : nul ∈ rest) : afterFraction (n.fracText ++ rest) = rest := by
  have hread := fractionPart_append n hrest (0 : Rat)
  have htotal := fractionPart_total
    (List.mem_append.mpr (Or.inr hnul) : nul ∈ n.fracText ++ rest) (0 : Rat)
  rcases htotal with ⟨⟨v, hv⟩, _⟩
  rw [hread] at hv
  injection hv with _ hrest'
  exact hrest'.symm

theorem length_afterFraction {n : NumberText} (hn : n.Complete) {rest : List UInt8}
    (hnul : nul ∈ rest) :
    (afterFraction (afterInteger (n.int ++ (n.fracText ++ rest)))).length <=
    rest.length := by
  by_cases hfrac : n.frac = []
  · rw [NumberText.fracText, if_pos hfrac, List.nil_append]
    exact (length_le_of_wordRun (wordRun_afterFraction _)).trans
      (length_afterInteger hn rest)
  · have htext : n.fracText ++ rest = dot :: (n.frac ++ rest) := by
      rw [NumberText.fracText, if_neg hfrac, List.cons_append]
    have hmem : nul ∈ n.fracText ++ rest := List.mem_append.mpr (Or.inr hnul)
    rw [afterInteger_append htext (by decide) hmem, htext]
    cases hdigits : n.frac with
    | nil =>
        exact absurd hdigits hfrac
    | cons d ds =>
        have hall : forall c, c ∈ d :: ds -> isDigit c = true := by
          rw [← hdigits]
          exact n.frac_digits
        have hdot : dot = dot ∧ isDigit d = true := ⟨rfl, hall d List.mem_cons_self⟩
        rw [List.cons_append, afterFraction, if_pos hdot, ← List.cons_append,
          List.dropWhile_append_of_pos hall]
        exact length_le_of_wordRun (wordRun_digits rest)

theorem afterFraction_exponent {n : NumberText} {e : ExponentText}
    (he : n.exp = some e)
    {rest : List UInt8} (hnul : nul ∈ rest) :
    afterFraction (afterInteger (n.int ++ (n.fracText ++ (n.expText ++ rest)))) =
      e.text ++ rest := by
  have htext : n.expText = e.text := by
    rw [NumberText.expText, he]
  have hletter : isDigit e.letter = false ∧ e.letter ≠ dot := by
    rcases e.letter_eq with h | h <;> rw [h] <;> exact ⟨rfl, by decide⟩
  have hend : FractionEnd (n.expText ++ rest) := by
    rw [htext]
    exact ⟨e.letter, e.sign ++ e.digits ++ rest, rfl, hletter.left,
      fun h => absurd h hletter.right⟩
  have hmem : nul ∈ n.expText ++ rest := List.mem_append.mpr (Or.inr hnul)
  rcases fracText_head n hend with ⟨c, tail, hhead, hc⟩
  rw [afterInteger_append hhead hc (List.mem_append.mpr (Or.inr hmem)),
    afterFraction_append hend hmem, htext]

theorem dropSign_digits {sign digits : List UInt8}
    (hsign : sign = [] ∨ sign = [plus] ∨ sign = [minus]) (hdigits : Digits digits)
    (hne : digits ≠ []) (rest : List UInt8) :
    exists d tail, dropSign (sign ++ (digits ++ rest)) = d :: tail ∧
      isDigit d = true := by
  cases digits with
  | nil =>
      exact absurd rfl hne
  | cons d ds =>
      have hd := hdigits d List.mem_cons_self
      have hplus : d ≠ plus := ne_of_isDigit_ne hd (by decide)
      have hminus : d ≠ minus := ne_of_isDigit_ne hd (by decide)
      refine ⟨d, ds ++ rest, ?_, hd⟩
      rcases hsign with rfl | rfl | rfl
      · simp [dropSign, hplus, hminus]
      · rfl
      · rfl

/-- A complete number that is read to its end, and no further, has no slip. -/
theorem not_numberSlip {n : NumberText} (hn : n.Complete) {rest : List UInt8}
    (hnul : nul ∈ rest)
    (hexact : afterNumber (n.text ++ rest) = rest) :
    ¬ NumberSlip (n.text ++ rest) := by
  have hsign := dropByte_signText hn rest
  rw [afterNumber, hsign] at hexact
  intro hslip
  cases hslip with
  | noDigits hdrop hc =>
      rw [hsign] at hdrop
      cases hint : n.int with
      | nil =>
          exact hn.left hint
      | cons d ds =>
          rw [hint, List.cons_append] at hdrop
          injection hdrop with hd _
          have hdigit := n.int_digits d (hint ▸ List.mem_cons_self)
          rw [hd, hc] at hdigit
          cases hdigit
  | @leadingZero c s hdrop hc hne =>
      rw [hsign] at hdrop
      rcases n.int_leading with hint | hint | ⟨d, ds, hint, hd⟩
      · exact hn.left hint
      · rw [hint, List.singleton_append] at hdrop
        injection hdrop with _ hdrop
        have hrest : rest = c :: s := by
          by_cases hfrac : n.frac = []
          · rw [NumberText.fracText, if_pos hfrac, List.nil_append] at hdrop
            cases hexp : n.exp with
            | none =>
                rw [NumberText.expText, hexp] at hdrop
                exact hdrop
            | some e =>
                rw [NumberText.expText, hexp] at hdrop
                injection hdrop with hletter _
                rcases e.letter_eq with h | h
                · rw [← hletter, h] at hc
                  cases hc
                · rw [← hletter, h] at hc
                  cases hc
          · rw [NumberText.fracText, if_neg hfrac] at hdrop
            injection hdrop with hdot _
            rw [← hdot] at hc
            cases hc
        have hafter : afterInteger (zeroDigit :: c :: s) = s.dropWhile isDigit := by
          simp only [afterInteger, dropByte, if_true, hc, hne, ne_eq,
            not_false_eq_true, and_self]
          exact List.dropWhile_cons_of_pos hc
        rw [hint, List.singleton_append, hdrop, hafter] at hexact
        have hlength := length_le_of_wordRun ((wordRun_digits s).trans
          ((wordRun_afterFraction _).trans (wordRun_afterExponent _)))
        rw [hexact, hrest, List.length_cons] at hlength
        omega
      · rw [hint, List.cons_append] at hdrop
        injection hdrop with hzero _
        exact hd hzero
  | @noExponent c d s t hafter hc hsigned hd =>
      rw [hsign] at hafter
      cases hexp : n.exp with
      | none =>
          have hnone : n.expText = [] := by
            rw [NumberText.expText, hexp]
          rw [hnone, List.nil_append] at hafter hexact
          have hshort := length_afterFraction hn hnul
          rw [hafter] at hshort hexact
          rw [afterExponent_letter hc] at hexact
          have hlength := length_le_of_wordRun
            ((wordRun_dropSign s).trans (wordRun_digits _))
          rw [hexact] at hlength
          rw [List.length_cons] at hshort
          omega
      | some e =>
          rw [afterFraction_exponent hexp hnul, ExponentText.text, List.cons_append,
            List.append_assoc] at hafter
          injection hafter with _ htail
          rcases dropSign_digits e.sign_eq e.digits_digits
            (hn.right e hexp) rest with
            ⟨d', tail', hdrop, hdigit⟩
          rw [htail, hsigned] at hdrop
          injection hdrop with hsame _
          rw [← hsame, hd] at hdigit
          cases hdigit

/-- Where a number of the grammar is followed by what ends a number, it is read
to its end. -/
theorem afterNumber_append {n : NumberText} {rest : List UInt8}
    (hrest : NumberEnd rest)
    (hnul : nul ∈ rest) : afterNumber (n.text ++ rest) = rest := by
  have hread : parseNumber (n.text ++ rest) = .ok (n.item : Item Rat) rest :=
    parseNumber_append n hrest
  have htotal : (exists v : Item Rat, parseNumber (n.text ++ rest) =
      .ok v (afterNumber (n.text ++ rest))) ∧ _ :=
    parseNumber_total (List.mem_append.mpr (Or.inr hnul))
  rcases htotal with ⟨⟨v, hv⟩, _⟩
  rw [hread] at hv
  injection hv with _ hrest'
  exact hrest'.symm

/-!
# Strings of the grammar
-/

theorem stringEnd_charsText (cs : List StringChar) {rest : List UInt8}
    (hrest : Terminated rest) :
    stringEnd (charsText cs ++ quote :: rest) = some rest := by
  have hread := parseStringAt_stringText (fun _ => (0, 0)) cs hrest.right
  have htext : stringText cs ++ rest = quote ::
      (charsText cs ++ quote :: rest) := by
    simp [stringText]
  have hend : Ended (charsText cs ++ quote :: rest) := by
    intro c hc
    have hne : quote :: rest ≠ [] := by simp
    rw [List.getLast?_append_of_ne_nil _ hne, List.getLast?_cons_of_ne_nil
      (List.ne_nil_of_mem hrest.right)] at hc
    exact hrest.left c hc
  rw [htext] at hread
  rcases parseStringAt_eq (fun _ => (0, 0)) hend with
    ⟨_, hfault⟩ | ⟨s, rest', hstop, hok⟩
  · rw [hfault] at hread
    cases hread
  · rw [hok] at hread
    injection hread with _ hsame
    rw [hstop, hsame]

theorem stringChar_append_inj {x y : StringChar} {rest rest' : List UInt8}
    (h : x.text ++ rest = y.text ++ rest') : rest = rest' := by
  cases x with
  | raw c hc =>
      cases y with
      | raw d hd =>
          injection h
      | short d hd =>
          injection h with hhead _
          exact absurd hhead hc.right.right
      | unicode a b d e hd =>
          injection h with hhead _
          exact absurd hhead hc.right.right
  | short c hc =>
      cases y with
      | raw d hd =>
          injection h with hhead _
          exact absurd hhead.symm hd.right.right
      | short d hd =>
          injection h with _ htail
          injection htail
      | unicode a b d e hd =>
          injection h with _ htail
          injection htail with hletter _
          exact absurd hletter (escapeLetters_ne_lowerU hc)
  | unicode a b c d hc =>
      cases y with
      | raw e he =>
          injection h with hhead _
          exact absurd hhead.symm he.right.right
      | short e he =>
          injection h with _ htail
          injection htail with hletter _
          exact absurd hletter.symm (escapeLetters_ne_lowerU he)
      | unicode e f g i he =>
          simpa [StringChar.text] using (List.append_inj h rfl).right

theorem stringChar_head {x : StringChar} {s rest : List UInt8}
    (h : x.text ++ s = quote :: rest) :
    False := by
  cases x with
  | raw c hc =>
      injection h with hhead _
      exact hc.right.left hhead
  | short d hd =>
      injection h with hhead _
      exact absurd hhead (by decide)
  | unicode a b c d hd =>
      injection h with hhead _
      exact absurd hhead (by decide)

theorem not_charSlip (cs : List StringChar) (rest : List UInt8) :
    ¬ CharSlip (charsText cs ++ quote :: rest) := by
  induction cs with
  | nil =>
      intro hslip
      generalize hcur : charsText [] ++ quote :: rest = cur at hslip
      have hquote : quote :: rest = cur := hcur
      cases hslip with
      | control hc =>
          injection hquote with hhead _
          rw [← hhead] at hc
          exact absurd hc (by decide)
      | escape | digits =>
          injection hquote with hhead _
          exact absurd hhead (by decide)
      | later x =>
          exact stringChar_head hquote.symm
  | cons x cs ih =>
      intro hslip
      rw [charsText_cons, List.append_assoc] at hslip
      generalize hcur : x.text ++ (charsText cs ++ quote :: rest) = cur at hslip
      cases hslip with
      | later y hlater =>
          rw [← stringChar_append_inj hcur] at hlater
          exact ih hlater
      | @control c s hc =>
          cases x with
          | raw d hd =>
              injection hcur with hhead _
              rw [← hhead] at hc
              exact absurd hd.left (UInt8.not_le.mpr hc)
          | short | unicode =>
              injection hcur with hhead _
              rw [← hhead] at hc
              exact absurd hc (by decide)
      | escape hu hletters =>
          cases x with
          | raw d hd =>
              injection hcur with hhead _
              exact hd.right.right hhead
          | short d hd =>
              injection hcur with _ htail
              injection htail with hletter _
              exact hletters (hletter ▸ hd)
          | unicode a b c d hd =>
              injection hcur with _ htail
              injection htail with hletter _
              exact hu hletter.symm
      | digits hhex =>
          cases x with
          | raw d hd =>
              injection hcur with hhead _
              exact hd.right.right hhead
          | short d hd =>
              injection hcur with _ htail
              injection htail with hletter _
              exact escapeLetters_ne_lowerU hd hletter
          | unicode a b c d hd =>
              injection hcur with _ htail
              injection htail with _ htail
              injection htail with ha htail
              injection htail with hb htail
              injection htail with hc htail
              injection htail with hd' _
              exact hhex (ha ▸ hb ▸ hc ▸ hd' ▸ hd)

theorem not_stringSlip {cs : List StringChar} (hutf : Utf8 (stringText cs))
    {rest : List UInt8}
    (hrest : Terminated rest) : ¬ StringSlip (charsText cs ++ quote :: rest) := by
  rintro (hslip | ⟨text, rest', hend, htext, hnot⟩)
  · exact not_charSlip cs rest hslip
  · rw [stringEnd_charsText cs hrest] at hend
    cases hend
    have hsame : stringText cs ++ rest = text ++ rest := by
      rw [← htext]
      simp [stringText]
    rw [← List.append_cancel_right hsame] at hnot
    exact hnot hutf

/-!
# Readings are determined
-/

theorem Reads.unique {place : Place} {cur rest rest' : List UInt8}
    (h : Reads place cur rest)
    (h' : Reads place cur rest') (hcur : Terminated cur) : rest = rest' := by
  have hparsed : ParsedTo (fun _ => (0, 0)) Rat rest place cur :=
    parsedTo_of_reads _ h hcur
  have hparsed' : ParsedTo (fun _ => (0, 0)) Rat rest' place cur :=
    parsedTo_of_reads _ h' hcur
  have hlt := Nat.lt_succ_self cur.length
  cases place with
  | value =>
      rcases hparsed _ hlt with ⟨v, hv⟩
      rcases hparsed' _ hlt with ⟨v', hv'⟩
      rw [hv] at hv'
      injection hv'
  | entry kind =>
      rcases hparsed _ hlt with ⟨v, hv⟩
      rcases hparsed' _ hlt with ⟨v', hv'⟩
      rw [hv] at hv'
      injection hv'
  | items kind =>
      rcases hparsed _ _ [] hlt hlt with ⟨v, hv⟩
      rcases hparsed' _ _ [] hlt hlt with ⟨v', hv'⟩
      rw [hv] at hv'
      injection hv'

/-- A byte that begins no literal is left where it is by the comparisons. -/
theorem valueAt_self {c : UInt8} (h : c ≠ 110 ∧ c ≠ 102 ∧ c ≠ 116)
    (s : List UInt8) :
    ValueAt (c :: s) (c :: s) := by
  have hnull : dropCommon nullText (c :: s) = c :: s := dropCommon_other h.left _ s
  have hfalse : dropCommon falseText (c :: s) = c :: s :=
    dropCommon_other h.right.left _ s
  have htrue : dropCommon trueText (c :: s) = c :: s :=
    dropCommon_other h.right.right _ s
  constructor
  · intro after hliteral
    generalize hcur : c :: s = cur at hliteral
    cases hliteral with
    | null =>
        injection hcur with hhead _
        exact h.left hhead
    | false _ hdrop =>
        rw [← hcur, hnull] at hdrop
        injection hdrop with hhead _
        exact h.right.left hhead
    | true _ _ hdrop =>
        rw [← hcur, hnull, hfalse] at hdrop
        injection hdrop with hhead _
        exact h.right.right hhead
  · rw [afterLiterals, hnull, hfalse, htrue]

theorem ValueAt.unique {cur rest rest' : List UInt8} (h : ValueAt cur rest)
    (h' : ValueAt cur rest') : rest = rest' :=
  h.right.symm.trans h'.right

theorem number_other {c : UInt8} (h : c = minus ∨ isDigit c = true) :
    (c ≠ 110 ∧ c ≠ 102 ∧ c ≠ 116) ∧ c ≠ quote ∧ forall kind : Kind,
    c ≠ kind.opening := by
  rcases h with rfl | h
  · exact ⟨by decide, by decide, fun kind => by cases kind <;> decide⟩
  · have hne : forall d, isDigit d = false -> c ≠ d :=
      fun d hd => ne_of_isDigit_ne h hd
    refine ⟨⟨hne _ rfl, hne _ rfl, hne _ rfl⟩, hne _ rfl, ?_⟩
    intro kind
    cases kind <;> exact hne _ rfl

theorem Kind.opening_inj {kind kind' : Kind}
    (h : kind.opening = kind'.opening) : kind = kind' := by
  cases kind <;> cases kind' <;> first | rfl | exact absurd h (by decide)

/-!
# Places of the grammar, one by one
-/

theorem clean_literal {cur rest : List UInt8} (h : LiteralAt cur rest)
    (hfront : nullText <+: cur ∨ falseText <+: cur ∨ trueText <+: cur) :
    ¬ TakesLiberty .value cur := by
  intro hliberty
  cases hliberty with
  | here hslip =>
      cases hslip with
      | literal _ hnull hfalse htrue =>
          rcases hfront with hfront | hfront | hfront
          · exact hnull hfront
          · exact hfalse hfront
          · exact htrue hfront
      | letters hvalue | number hvalue | string hvalue | opening _ hvalue =>
          exact hvalue.left _ h
  | later hleads =>
      cases hleads with
      | first _ hvalue | behind _ hvalue =>
          exact hvalue.left _ h

theorem reads_literal {cur after rest : List UInt8} (h : LiteralAt cur after)
    (hread : Reads .value cur rest) : exists c tail, rest = c :: tail ∧
    c ≠ nul := by
  cases hread with
  | literal _ hc =>
      exact ⟨_, _, rfl, hc⟩
  | string hvalue | number hvalue | empty _ hvalue | container _ hvalue =>
      exact absurd h (hvalue.left _)

/-- A value other than a literal is clean when its token and what is inside of
it are. -/
theorem clean_value {c : UInt8} {s : List UInt8} (hc : c ≠ 110 ∧ c ≠ 102 ∧ c ≠ 116)
    (hnumber : c = minus ∨ isDigit c = true -> ¬ NumberSlip (c :: s))
    (hstring : c = quote -> ¬ StringSlip s)
    (hopening : forall kind : Kind, c = kind.opening -> ¬ SpaceSlip s)
    (hfirst : forall (kind : Kind) d next, c = kind.opening ->
    dropSpace s = d :: next ->
      d ≠ kind.closing -> ¬ TakesLiberty (.entry kind) (d :: next) ∧
        forall mid, Reads (.entry kind) (d :: next) mid ->
          ¬ TakesLiberty (.items kind) mid) :
    ¬ TakesLiberty .value (c :: s) := by
  have hself := valueAt_self hc s
  intro hliberty
  cases hliberty with
  | here hslip =>
      cases hslip with
      | literal hliteral =>
          exact hself.left _ hliteral
      | letters hvalue hne =>
          exact hne (hvalue.unique hself)
      | number hvalue hnum hslip =>
          cases hvalue.unique hself
          exact hnumber hnum hslip
      | string hvalue hslip =>
          cases hvalue.unique hself
          exact hstring rfl hslip
      | opening kind hvalue hslip =>
          cases hvalue.unique hself
          exact hopening kind rfl hslip
  | later hleads hlater =>
      cases hleads with
      | first kind hvalue hspace hd =>
          cases hvalue.unique hself
          exact (hfirst kind _ _ rfl hspace hd).left hlater
      | behind kind hvalue hspace hd hentry =>
          cases hvalue.unique hself
          exact (hfirst kind _ _ rfl hspace hd).right _ hentry hlater

theorem clean_element {cur : List UInt8} (hvalue : ¬ TakesLiberty .value cur)
    (hspace : forall mid, Reads .value cur mid -> ¬ SpaceSlip mid) :
    ¬ TakesLiberty (.entry .array) cur := by
  intro hliberty
  cases hliberty with
  | here hslip =>
      cases hslip with
      | element hread hslip =>
          exact hspace _ hread hslip
  | later hleads hlater =>
      cases hleads with
      | element =>
          exact hvalue hlater

theorem clean_member {s mid v : List UInt8} (hstring : stringEnd s = some mid)
    (hcolon : dropSpace mid = colon :: v) (hname : ¬ StringSlip s)
    (hspace : ¬ SpaceSlip mid)
    (hspace' : ¬ SpaceSlip v) (hvalue : ¬ TakesLiberty .value (dropSpace v))
    (hbehind : forall rest, Reads .value (dropSpace v) rest -> ¬ SpaceSlip rest) :
    ¬ TakesLiberty (.entry .object) (quote :: s) := by
  intro hliberty
  cases hliberty with
  | here hslip =>
      cases hslip with
      | name hslip =>
          exact hname hslip
      | nameSpace hstring' hslip =>
          rw [hstring] at hstring'
          cases hstring'
          exact hspace hslip
      | colonSpace hstring' hcolon' hslip =>
          rw [hstring] at hstring'
          cases hstring'
          rw [hcolon] at hcolon'
          cases hcolon'
          exact hspace' hslip
      | member hstring' hcolon' hread hslip =>
          rw [hstring] at hstring'
          cases hstring'
          rw [hcolon] at hcolon'
          cases hcolon'
          exact hbehind _ hread hslip
  | later hleads hlater =>
      cases hleads with
      | member hstring' hcolon' =>
          rw [hstring] at hstring'
          cases hstring'
          rw [hcolon] at hcolon'
          cases hcolon'
          exact hvalue hlater

theorem clean_close (kind : Kind) (rest : List UInt8) :
    ¬ TakesLiberty (.items kind) (kind.closing :: rest) := by
  intro hliberty
  generalize hcur : kind.closing :: rest = cur at hliberty
  cases hliberty with
  | here hslip =>
      cases hslip with
      | bracket | commaSpace =>
          injection hcur with hhead _
          exact kind.closing_ne_comma hhead
  | later hleads =>
      cases hleads with
      | next | later =>
          injection hcur with hhead _
          exact kind.closing_ne_comma hhead

theorem clean_more {kind : Kind} {s next : List UInt8} {c : UInt8}
    (hspace : ¬ SpaceSlip s)
    (hdrop : dropSpace s = c :: next) (hc : c ≠ kind.closing)
    (hentry : ¬ TakesLiberty (.entry kind) (c :: next))
    (hitems : forall mid, Reads (.entry kind) (c :: next) mid ->
    ¬ TakesLiberty (.items kind) mid) :
    ¬ TakesLiberty (.items kind) (comma :: s) := by
  intro hliberty
  cases hliberty with
  | here hslip =>
      cases hslip with
      | bracket _ hdrop' =>
          rw [hdrop] at hdrop'
          injection hdrop' with hhead _
          exact hc hhead
      | commaSpace _ hslip =>
          exact hspace hslip
  | later hleads hlater =>
      cases hleads with
      | next _ hdrop' =>
          rw [hdrop] at hdrop'
          cases hdrop'
          exact hentry hlater
      | later _ hdrop' _ hread =>
          rw [hdrop] at hdrop'
          cases hdrop'
          exact hitems _ hread hlater

/-!
# Texts of the grammar
-/

theorem spaced {w : List UInt8} (hw : Ws w) {rest : List UInt8} {c : UInt8}
    {tail : List UInt8}
    (hrest : rest = c :: tail) (hc : isspace c = false) :
    dropSpace (w ++ rest) = rest ∧ ¬ SpaceSlip (w ++ rest) := by
  have hspaces : forall d, d ∈ w -> isspace d = true := fun d hd =>
    isspace_of_isWs (hw d hd)
  have hneg : ¬ isspace c = true := by simp [hc]
  constructor
  · rw [dropSpace, List.dropWhile_append_of_pos hspaces, hrest,
      List.dropWhile_cons_of_neg hneg]
  · rintro ⟨d, hd, hslip⟩
    rw [List.takeWhile_append_of_pos hspaces, hrest,
      List.takeWhile_cons_of_neg hneg,
      List.append_nil] at hd
    exact hslip (hw d hd)

/-- What a value or an entry starts with, and what the items of a container
start with. -/
def HeadAt : Place -> UInt8 -> Prop
  | .items kind, c => c = comma ∨ c = kind.closing
  | _, c => Starts c

theorem jsonText_head {extended : Prop} {place : Place} {text : List UInt8}
    (h : JsonText extended place text) : exists c tail, text = c :: tail ∧
    HeadAt place c := by
  induction h with
  | null | false | true | string =>
      exact ⟨_, _, rfl, rfl, fun kind => by cases kind <;> decide⟩
  | number n hn =>
      rcases numberText_head hn with ⟨c, tail, htext, hc⟩
      exact ⟨c, tail, htext, starts_of_number hc⟩
  | empty kind | container kind =>
      exact ⟨_, _, rfl, starts_opening kind⟩
  | element hvalue hw ih =>
      rcases ih with ⟨c, tail, rfl, hc⟩
      exact ⟨c, _, rfl, hc⟩
  | member =>
      exact ⟨_, _, rfl, rfl, fun kind => by cases kind <;> decide⟩
  | close kind =>
      exact ⟨_, _, rfl, Or.inr rfl⟩
  | trailing | more =>
      exact ⟨_, _, rfl, Or.inl rfl⟩

/-- What may stand behind a text at a place: what ends it there, or where its
reading ends. -/
def BehindAt (place : Place) (text rest : List UInt8) : Prop :=
  match place with
  | .value => Follows rest ∨ Reads .value (text ++ rest) rest
  | .entry kind => EntryEnd kind rest
  | .items _ => True

def ReadCleanly (place : Place) (text rest : List UInt8) : Prop :=
  Reads place (text ++ rest) rest ∧ ¬ TakesLiberty place (text ++ rest)

theorem Terminated.append {rest : List UInt8} (h : Terminated rest)
    (text : List UInt8) :
    Terminated (text ++ rest) := by
  refine ⟨?_, List.mem_append.mpr (Or.inr h.right)⟩
  intro c hc
  rw [List.getLast?_append_of_ne_nil _ (List.ne_nil_of_mem h.right)] at hc
  exact h.left c hc

theorem readCleanly_literal {text rest : List UInt8}
    (h : LiteralAt (text ++ rest) rest)
    (hfront : text = nullText ∨ text = falseText ∨ text = trueText)
    (hbehind : BehindAt .value text rest) : ReadCleanly .value text rest := by
  have hnext : exists c tail, rest = c :: tail ∧ c ≠ nul := by
    rcases hbehind with hfollows | hread
    · exact hfollows.ne_nul
    · exact reads_literal h hread
  have hstarts : nullText <+: text ++ rest ∨ falseText <+: text ++ rest ∨
      trueText <+: text ++ rest := by
    rcases hfront with rfl | rfl | rfl
    · exact Or.inl (List.prefix_append _ _)
    · exact Or.inr (Or.inl (List.prefix_append _ _))
    · exact Or.inr (Or.inr (List.prefix_append _ _))
  rcases hnext with ⟨c, tail, rfl, hc⟩
  exact ⟨.literal h hc, clean_literal h hstarts⟩

theorem readCleanly_number {n : NumberText} (hn : n.Complete) {rest : List UInt8}
    (hrest : Terminated rest) (hbehind : BehindAt .value n.text rest) :
    ReadCleanly .value n.text rest := by
  rcases numberText_head hn with ⟨c, tail, htext, hc⟩
  rcases number_other hc with ⟨hletters, hquote, hopening⟩
  have hcur : n.text ++ rest = c :: (tail ++ rest) := by
    rw [htext, List.cons_append]
  have hself := valueAt_self hletters (tail ++ rest)
  have hexact : afterNumber (n.text ++ rest) = rest := by
    rcases hbehind with hfollows | hread
    · exact afterNumber_append hfollows.numberEnd hrest.right
    · have hread' := Reads.number hself hc
      rw [← hcur] at hread'
      exact hread'.unique hread (hrest.append n.text)
  have hslip := not_numberSlip hn hrest.right hexact
  constructor
  · have hread := Reads.number hself hc
    rw [← hcur, hexact] at hread
    exact hread
  · rw [hcur] at hslip ⊢
    exact clean_value hletters (fun _ => hslip) (fun h => absurd h hquote)
      (fun kind h => absurd h (hopening kind))
        (fun kind _ _ h => absurd h (hopening kind))

theorem readCleanly_string {cs : List StringChar} (hutf : Utf8 (stringText cs))
    {rest : List UInt8}
    (hrest : Terminated rest) : ReadCleanly .value (stringText cs) rest := by
  have hcur : stringText cs ++ rest = quote :: (charsText cs ++ quote :: rest) := by
    simp [stringText]
  have hletters : quote ≠ 110 ∧ quote ≠ 102 ∧ quote ≠ 116 := by decide
  have hslip := not_stringSlip hutf hrest
  rw [ReadCleanly, hcur]
  constructor
  · exact .string (valueAt_self hletters _) (stringEnd_charsText cs hrest)
  · refine clean_value hletters ?_ (fun _ => hslip) ?_ ?_
    · intro hnumber
      exact absurd rfl (number_other hnumber).right.left
    · intro kind hkind
      cases kind <;> exact absurd hkind (by decide)
    · intro kind d next hkind
      cases kind <;> exact absurd hkind (by decide)

theorem opening_no_number (kind : Kind) :
    ¬ (kind.opening = minus ∨ isDigit kind.opening = true) :=
  fun h => (number_other h).right.right kind rfl

theorem opening_no_quote (kind : Kind) : kind.opening ≠ quote := by
  cases kind <;> decide

theorem readCleanly_empty (kind : Kind) {w : List UInt8} (hw : Ws w)
    (rest : List UInt8) :
    ReadCleanly .value (kind.opening :: (w ++ [kind.closing])) rest := by
  have hcur : kind.opening :: (w ++ [kind.closing]) ++ rest =
      kind.opening :: (w ++ kind.closing :: rest) := by
    simp
  have hclosing : isspace kind.closing = false := by
    cases kind <;> rfl
  have hbracket : kind.closing :: rest = kind.closing :: rest := rfl
  rcases spaced hw hbracket hclosing with ⟨hdrop, hslip⟩
  rw [ReadCleanly, hcur]
  constructor
  · exact .empty kind (valueAt_self kind.opening_other _) hdrop
  · refine clean_value kind.opening_other (fun h =>
      absurd h (opening_no_number kind))
      (fun h => absurd h (opening_no_quote kind)) (fun _ _ => hslip) ?_
    intro kind' d next hkind hspace hd
    cases Kind.opening_inj hkind
    rw [hdrop] at hspace
    injection hspace with hhead _
    exact absurd hhead.symm hd

/-- The first entry of a container, or a later one, with what follows it. -/
theorem readCleanly_entries {kind : Kind} {w entry items rest : List UInt8}
    (hw : Ws w)
    (hentry : JsonText False (.entry kind) entry)
    (hitems : JsonText False (.items kind) items)
    (hrest : Terminated rest)
    (hread : forall after, Terminated after -> BehindAt (.entry kind) entry after ->
      ReadCleanly (.entry kind) entry after)
    (hreadItems : ReadCleanly (.items kind) items rest) :
    exists c next, dropSpace (w ++ (entry ++ (items ++ rest))) = c :: next ∧
      c ≠ kind.closing ∧
      ¬ SpaceSlip (w ++ (entry ++ (items ++ rest))) ∧
      Reads (.entry kind) (c :: next) (items ++ rest) ∧
        ¬ TakesLiberty (.entry kind) (c :: next) ∧
      forall mid, Reads (.entry kind) (c :: next) mid ->
        ¬ TakesLiberty (.items kind) mid := by
  rcases jsonText_head hentry with ⟨c, tail, htext, hstarts⟩
  rcases jsonText_head hitems with ⟨d, tail', htext', hd⟩
  have hafter : Terminated (items ++ rest) := hrest.append items
  have hend : EntryEnd kind (items ++ rest) :=
    ⟨d, tail' ++ rest, by rw [htext']; rfl, hd⟩
  have hcur : entry ++ (items ++ rest) = c :: (tail ++ (items ++ rest)) := by
    rw [htext, List.cons_append]
  rcases spaced hw hcur hstarts.left with ⟨hdrop, hslip⟩
  rcases hread _ hafter hend with ⟨hreads, hclean⟩
  have hunique : forall mid, Reads (.entry kind) (entry ++ (items ++ rest)) mid ->
      ¬ TakesLiberty (.items kind) mid := by
    intro mid hmid
    rw [← hreads.unique hmid (hafter.append entry)]
    exact hreadItems.right
  rw [hcur] at hdrop hreads hclean hunique
  refine ⟨c, tail ++ (items ++ rest), ?_, hstarts.right kind, hslip, hreads,
    hclean, hunique⟩
  rw [hcur, hdrop]

/-- A text of the grammar without trailing commas is read to its end without a
liberty. -/
theorem readCleanly_of_jsonText {place : Place} {text : List UInt8}
    (h : JsonText False place text) {rest : List UInt8} (hrest : Terminated rest)
    (hbehind : BehindAt place text rest) : ReadCleanly place text rest := by
  induction h generalizing rest with
  | null =>
      exact readCleanly_literal .null (Or.inl rfl) hbehind
  | false =>
      exact readCleanly_literal (literalAt_false rest) (Or.inr (Or.inl rfl)) hbehind
  | true =>
      exact readCleanly_literal (literalAt_true rest) (Or.inr (Or.inr rfl)) hbehind
  | number n hn =>
      exact readCleanly_number hn hrest hbehind
  | string cs hutf =>
      exact readCleanly_string hutf hrest
  | empty kind hw =>
      exact readCleanly_empty kind hw rest
  | @container kind w entry items hw hentry hitems ih ihitems =>
      rcases readCleanly_entries hw hentry hitems hrest (fun after => ih)
        (ihitems hrest trivial) with
          ⟨c, next, hdrop, hc, hslip, hreads, hclean, hunique⟩
      have hcur : kind.opening :: (w ++ (entry ++ items)) ++ rest =
          kind.opening :: (w ++ (entry ++ (items ++ rest))) := by
        simp
      rw [ReadCleanly, hcur]
      constructor
      · exact .container kind (valueAt_self kind.opening_other _) hdrop hc hreads
          (ihitems hrest trivial).left
      · refine clean_value kind.opening_other (fun h =>
          absurd h (opening_no_number kind))
          (fun h => absurd h (opening_no_quote kind)) (fun _ _ => hslip) ?_
        intro kind' d next' hkind hspace _
        cases Kind.opening_inj hkind
        rw [hdrop] at hspace
        cases hspace
        exact ⟨hclean, hunique⟩
  | @element text w hvalue hw ih =>
      rcases hbehind with ⟨c, tail, hend, hc⟩
      have hspace : isspace c = false := by
        rcases hc with rfl | rfl <;> rfl
      have hentryEnd : EntryEnd .array rest := ⟨c, tail, hend, hc⟩
      have hfollows : Follows (w ++ rest) := hentryEnd.follows hw
      have hafter : Terminated (w ++ rest) := hrest.append w
      rcases spaced hw hend hspace with ⟨hdrop, hslip⟩
      rcases ih hafter (Or.inl hfollows) with ⟨hreads, hclean⟩
      rw [ReadCleanly, List.append_assoc]
      constructor
      · have hread := Reads.element hreads
        rwa [hdrop] at hread
      · apply clean_element hclean
        intro mid hmid
        rw [← hreads.unique hmid (hafter.append text)]
        exact hslip
  | @member cs text w w' w'' hutf hw hw' hvalue hw'' ih =>
      rcases hbehind with ⟨c, tail, hend, hc⟩
      have hspace : isspace c = false := by
        rcases hc with rfl | rfl <;> rfl
      have hentryEnd : EntryEnd .object rest := ⟨c, tail, hend, hc⟩
      have hfollows : Follows (w'' ++ rest) := hentryEnd.follows hw''
      have hafter : Terminated (w'' ++ rest) := hrest.append w''
      rcases spaced hw'' hend hspace with ⟨hdrop, hslip⟩
      rcases ih hafter (Or.inl hfollows) with ⟨hreads, hclean⟩
      rcases jsonText_head hvalue with ⟨d, tail', htext, hstarts⟩
      have hstart : text ++ (w'' ++ rest) = d :: (tail' ++ (w'' ++ rest)) := by
        rw [htext, List.cons_append]
      rcases spaced hw' hstart hstarts.left with ⟨hdrop', hslip'⟩
      have hcolon : colon :: (w' ++ (text ++ (w'' ++ rest))) =
          colon :: (w' ++ (text ++ (w'' ++ rest))) := rfl
      rcases spaced hw hcolon rfl with ⟨hdropColon, hslipName⟩
      have hmid : Terminated (w ++ colon :: (w' ++ (text ++ (w'' ++ rest)))) := by
        have hall := hafter.append (w ++ (colon :: (w' ++ text)))
        simpa using hall
      have hcur : stringText cs ++ (w ++ (colon :: (w' ++ (text ++ w'')))) ++ rest =
          quote :: (charsText cs ++ quote ::
            (w ++ colon :: (w' ++ (text ++ (w'' ++ rest))))) := by
        simp [stringText]
      have hstring := stringEnd_charsText cs hmid
      rw [ReadCleanly, hcur]
      constructor
      · rw [← hdrop'] at hreads
        have hread := Reads.member hstring hdropColon hreads
        rwa [hdrop] at hread
      · apply clean_member hstring hdropColon (not_stringSlip hutf hmid)
          hslipName hslip'
        · rw [hdrop']
          exact hclean
        · intro mid hread
          rw [hdrop'] at hread
          rw [← hreads.unique hread (hafter.append text)]
          exact hslip
  | close kind =>
      exact ⟨.close kind, clean_close kind rest⟩
  | trailing kind hnever hw =>
      exact absurd hnever not_false
  | @more kind w entry items hw hentry hitems ih ihitems =>
      rcases readCleanly_entries hw hentry hitems hrest (fun after => ih)
        (ihitems hrest trivial) with
          ⟨c, next, hdrop, hc, hslip, hreads, hclean, hunique⟩
      have hcur : comma :: (w ++ (entry ++ items)) ++ rest =
          comma :: (w ++ (entry ++ (items ++ rest))) := by
        simp
      rw [ReadCleanly, hcur]
      exact ⟨.more kind hdrop hc hreads (ihitems hrest trivial).left,
        clean_more hslip hdrop hc hclean hunique⟩

/-!
# The whole text
-/

variable {double : Type} [CDouble double]

/-- What is accepted has been read, from the first byte that is no white space
on. -/
theorem reads_of_accepted {stack : Stack} {text rest : List UInt8} {v : Item double}
    (h : cJSONParseStream stack (text ++ [nul]) = .ok v rest) :
    Reads .value (dropSpace (text ++ [nul])) rest := by
  have htext := terminated_append text
  have hcur := htext.rest (before_dropSpace htext.right)
  have hparse : cJSONParseStream stack (text ++ [nul]) = (parseValue stack
      ((dropSpace (text ++ [nul])).length + 1) (dropSpace (text ++ [nul])) :
        Outcome _ _ (Item double)) := by
    simp only [cJSONParseStream, bind_apply, skip_dropSpace htext.right, andThen_ok]
  have hexplained : Explained .value (dropSpace (text ++ [nul])) (parseValue stack
      ((dropSpace (text ++ [nul])).length + 1) (dropSpace (text ++ [nul])) :
        Outcome _ _ (Item double)) :=
    explained_parseValue stack _ hcur (Nat.lt_succ_self _)
  rw [← hparse, h] at hexplained
  exact hexplained

/-- A text of the grammar is read without a liberty when it is read to its end. -/
theorem clean_of_sound {cur rest : List UInt8} (h : Reads .value cur rest)
    (hcur : Terminated cur)
    (hsound : SoundUpTo cur rest) : ¬ TakesLiberty .value cur := by
  rcases hsound with ⟨text, rfl, hjson⟩
  have hrest := hcur.rest (h.before hcur)
  exact (readCleanly_of_jsonText (jsonText_of_sound h rfl hjson) hrest
    (Or.inr h)).right

/--
What is accepted is a value of the grammar, with or without trailing commas,
exactly when the reading of the text takes no liberty.
-/
theorem cJSONParseStream_sound_iff (stack : Stack) (text : List UInt8)
    {v : Item double}
    {rest : List UInt8} (h : cJSONParseStream stack (text ++ [nul]) = .ok v rest) :
    SoundUpTo (dropSpace (text ++ [nul])) rest <->
      ¬ TakesLiberty .value (dropSpace (text ++ [nul])) := by
  have htext := terminated_append text
  have hcur := htext.rest (before_dropSpace htext.right)
  have hread := reads_of_accepted h
  constructor
  · intro hsound
    exact clean_of_sound hread hcur hsound
  · intro hclean
    rcases jsonText_of_reads hread hcur hclean with ⟨text', htext', hjson⟩
    exact ⟨text', htext', hjson.extend⟩

def trueElement : List UInt8 :=
  lbracket :: (trueText ++ [rbracket])

theorem cJSONParseStream_sound_true :
    SoundUpTo (dropSpace (trueElement ++ [nul])) [nul] <->
      ¬ TakesLiberty .value (dropSpace (trueElement ++ [nul])) := by
  have haccept : cJSONParseStream (fun _ => (0, 0)) (trueElement ++ [nul]) =
      .ok (.array [.true] : Item Rat) [nul] := rfl
  exact cJSONParseStream_sound_iff _ _ haccept

/-- `[nfalse]` -/
def strayLetter : List UInt8 :=
  lbracket :: 110 :: (falseText ++ [rbracket])

/-- `[nfalse]` is accepted as an array of one literal. -/
theorem cJSONParseStream_unsound :
    cJSONParseStream (fun _ => (0, 0)) (strayLetter ++ [nul]) =
      .ok (.array [.false] : Item Rat) [nul] ∧
    ¬ SoundUpTo (dropSpace (strayLetter ++ [nul])) [nul] := by
  have haccept : cJSONParseStream (fun _ => (0, 0)) (strayLetter ++ [nul]) =
      .ok (.array [.false] : Item Rat) [nul] := rfl
  have hliteral : LiteralAt (110 :: (falseText ++ [rbracket, nul]))
      [rbracket, nul] := by
    apply LiteralAt.false
    · decide
    · rfl
  have hslip : Slip .value (110 :: (falseText ++ [rbracket, nul])) := by
    apply Slip.literal hliteral <;> decide
  have hvalue : ValueAt (dropSpace (strayLetter ++ [nul]))
      (Kind.array.opening :: 110 :: (falseText ++ [rbracket, nul])) :=
    valueAt_self (by decide) _
  refine ⟨haccept, fun hsound => ?_⟩
  apply clean_of_sound (reads_of_accepted haccept) _ hsound
  · exact .later (.first .array hvalue rfl (by decide))
      (.later .element (.here hslip))
  · exact terminated_append strayLetter

end CJson
end Lepd
