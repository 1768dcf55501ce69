import Mathlib.Data.List.TakeWhile
import Lepd.CJson.Readings

/-!
# Liberties of the parser

The functions of the parser are lenient one by one.  A comparison that failed
leaves the cursor behind the letters that agreed; a number may lack its digits;
a string may hold any bytes; a form feed is white space; and behind a comma a
bracket is stepped over before the closing bracket is looked for.

The grammar below is that of RFC 8259 once more, now without the trees, with
strings in UTF-8, and with a parameter for the comma in front of a closing
bracket.  Where a reading takes no liberty it follows the grammar.
-/

namespace Lepd
namespace CJson

open Foundation
open Foundation.Scan

/-!
# The grammar, and its extension
-/

/-- The bytes are the UTF-8 encoding of some characters. -/
def Utf8 (text : List UInt8) : Prop :=
  exists cs : List Char, text = cs.flatMap String.utf8EncodeChar

/--
The texts of the grammar.  The items of a container are what follows its first
entry, up to the closing bracket.
-/
inductive JsonText (extended : Prop) : Place -> List UInt8 -> Prop where
  | null : JsonText extended .value nullText
  | false : JsonText extended .value falseText
  | true : JsonText extended .value trueText
  | number (n : NumberText) : n.Complete -> JsonText extended .value n.text
  | string (s : List StringChar) : Utf8 (stringText s) ->
      JsonText extended .value (stringText s)
  | empty (kind : Kind) {w : List UInt8} :
      Ws w -> JsonText extended .value (kind.opening :: (w ++ [kind.closing]))
  | container (kind : Kind) {w entry items : List UInt8} :
      Ws w -> JsonText extended (.entry kind) entry ->
        JsonText extended (.items kind) items ->
      JsonText extended .value (kind.opening :: (w ++ (entry ++ items)))
  | element {text w : List UInt8} :
      JsonText extended .value text -> Ws w ->
        JsonText extended (.entry .array) (text ++ w)
  | member (s : List StringChar) {text w w' w'' : List UInt8} :
      Utf8 (stringText s) -> Ws w -> Ws w' -> JsonText extended .value text ->
        Ws w'' ->
      JsonText extended (.entry .object)
        (stringText s ++ (w ++ (colon :: (w' ++ (text ++ w'')))))
  | close (kind : Kind) : JsonText extended (.items kind) [kind.closing]
  | trailing (kind : Kind) {w : List UInt8} :
      extended -> Ws w -> JsonText extended (.items kind)
        (comma :: (w ++ [kind.closing]))
  | more (kind : Kind) {w entry items : List UInt8} :
      Ws w -> JsonText extended (.entry kind) entry ->
        JsonText extended (.items kind) items ->
      JsonText extended (.items kind) (comma :: (w ++ (entry ++ items)))

/-- The text up to the rest is one value of the grammar, with trailing commas or
without. -/
def SoundUpTo (cur rest : List UInt8) : Prop :=
  exists text, cur = text ++ rest ∧ JsonText True .value text

/-!
# Slips in a token
-/

def SpaceSlip (cur : List UInt8) : Prop :=
  exists c, c ∈ cur.takeWhile isspace ∧ ¬ IsWs c

def dropSign (cur : List UInt8) : List UInt8 :=
  match cur with
  | [] => []
  | c :: rest => if c = plus ∨ c = minus then rest else c :: rest

/-- A number without digits, with a zero in front of them, or without those of
its exponent. -/
inductive NumberSlip (cur : List UInt8) : Prop where
  | noDigits {c : UInt8} {s : List UInt8} :
      dropByte minus cur = c :: s -> isDigit c = false -> NumberSlip cur
  | leadingZero {c : UInt8} {s : List UInt8} :
      dropByte minus cur = zeroDigit :: c :: s -> isDigit c = true ->
        c ≠ zeroDigit ->
      NumberSlip cur
  | noExponent {c d : UInt8} {s t : List UInt8} :
      afterFraction (afterInteger (dropByte minus cur)) = c :: s -> c = lowerE ∨
        c = upperE ->
      dropSign s = d :: t -> isDigit d = false -> NumberSlip cur

/--
Behind the quote, after characters of the grammar, comes a control byte or the
NUL at the end of the text, an unknown escape, or one without its four digits.
-/
inductive CharSlip : List UInt8 -> Prop where
  | control {c : UInt8} {s : List UInt8} : c < 32 -> CharSlip (c :: s)
  | escape {d : UInt8} {s : List UInt8} :
      d ≠ lowerU -> d ∉ escapeLetters -> CharSlip (backslash :: d :: s)
  | digits {a b c d : UInt8} {s : List UInt8} :
      ¬ HexFour a b c d -> CharSlip (backslash :: lowerU :: a :: b :: c :: d :: s)
  | later (x : StringChar) {s : List UInt8} : CharSlip s -> CharSlip (x.text ++ s)

def StringSlip (s : List UInt8) : Prop :=
  CharSlip s ∨ exists text rest, stringEnd s = some rest ∧ quote :: s = text ++
    rest ∧ ¬ Utf8 text

/-!
# Slips at a place, and the places of a reading
-/

/-- Where the parser departs from the grammar at a place. -/
inductive Slip : Place -> List UInt8 -> Prop where
  | literal {cur rest : List UInt8} :
      LiteralAt cur rest -> ¬ nullText <+: cur -> ¬ falseText <+: cur ->
        ¬ trueText <+: cur ->
      Slip .value cur
  | letters {cur rest : List UInt8} : ValueAt cur rest -> rest ≠ cur ->
      Slip .value cur
  | number {cur s : List UInt8} {c : UInt8} :
      ValueAt cur (c :: s) -> c = minus ∨ isDigit c = true ->
        NumberSlip (c :: s) -> Slip .value cur
  | string {cur s : List UInt8} : ValueAt cur (quote :: s) -> StringSlip s ->
      Slip .value cur
  | opening (kind : Kind) {cur s : List UInt8} :
      ValueAt cur (kind.opening :: s) -> SpaceSlip s -> Slip .value cur
  | element {cur mid : List UInt8} :
      Reads .value cur mid -> SpaceSlip mid -> Slip (.entry .array) cur
  | name {s : List UInt8} : StringSlip s -> Slip (.entry .object) (quote :: s)
  | nameSpace {s mid : List UInt8} :
      stringEnd s = some mid -> SpaceSlip mid -> Slip (.entry .object) (quote :: s)
  | colonSpace {s mid v : List UInt8} :
      stringEnd s = some mid -> dropSpace mid = colon :: v -> SpaceSlip v ->
      Slip (.entry .object) (quote :: s)
  | member {s mid v rest : List UInt8} :
      stringEnd s = some mid -> dropSpace mid = colon :: v ->
        Reads .value (dropSpace v) rest ->
      SpaceSlip rest -> Slip (.entry .object) (quote :: s)
  | bracket (kind : Kind) {s rest : List UInt8} :
      dropSpace s = kind.closing :: rest -> Slip (.items kind) (comma :: s)
  | commaSpace (kind : Kind) {s : List UInt8} : SpaceSlip s ->
      Slip (.items kind) (comma :: s)

inductive Leads : Place -> List UInt8 -> Place -> List UInt8 -> Prop where
  | first (kind : Kind) {cur s next : List UInt8} {c : UInt8} :
      ValueAt cur (kind.opening :: s) -> dropSpace s = c :: next ->
        c ≠ kind.closing ->
      Leads .value cur (.entry kind) (c :: next)
  | behind (kind : Kind) {cur s next mid : List UInt8} {c : UInt8} :
      ValueAt cur (kind.opening :: s) -> dropSpace s = c :: next ->
        c ≠ kind.closing ->
      Reads (.entry kind) (c :: next) mid -> Leads .value cur (.items kind) mid
  | element {cur : List UInt8} : Leads (.entry .array) cur .value cur
  | member {s mid v : List UInt8} :
      stringEnd s = some mid -> dropSpace mid = colon :: v ->
      Leads (.entry .object) (quote :: s) .value (dropSpace v)
  | next (kind : Kind) {s next : List UInt8} {c : UInt8} :
      dropSpace s = c :: next -> c ≠ kind.closing ->
      Leads (.items kind) (comma :: s) (.entry kind) (c :: next)
  | later (kind : Kind) {s next mid : List UInt8} {c : UInt8} :
      dropSpace s = c :: next -> c ≠ kind.closing ->
        Reads (.entry kind) (c :: next) mid ->
      Leads (.items kind) (comma :: s) (.items kind) mid

/-- The reading comes to a place where the parser departs from the grammar. -/
inductive TakesLiberty : Place -> List UInt8 -> Prop where
  | here {place : Place} {cur : List UInt8} : Slip place cur ->
      TakesLiberty place cur
  | later {place place' : Place} {cur cur' : List UInt8} :
      Leads place cur place' cur' -> TakesLiberty place' cur' ->
        TakesLiberty place cur

/-!
# Tokens without a slip
-/

theorem dropSpace_ws {cur : List UInt8} (h : ¬ SpaceSlip cur) :
    exists w, Ws w ∧ cur = w ++ dropSpace cur := by
  refine ⟨cur.takeWhile isspace, ?_, List.takeWhile_append_dropWhile.symm⟩
  intro c hc
  by_contra hws
  exact h ⟨c, hc, hws⟩

theorem digits_takeWhile (cur : List UInt8) : Digits (cur.takeWhile isDigit) := by
  intro c hc
  exact List.mem_takeWhile_imp hc

theorem sign_text (cur : List UInt8) :
    exists negative : Bool, cur = (if negative then [minus] else []) ++
      dropByte minus cur := by
  cases cur with
  | nil =>
      exact ⟨false, rfl⟩
  | cons c cur =>
      by_cases hc : c = minus
      · exact ⟨true, by simp [dropByte, hc]⟩
      · exact ⟨false, by simp [dropByte, hc]⟩

theorem integer_text {c : UInt8} {s : List UInt8} (hc : isDigit c = true)
    (hzero : c = zeroDigit -> forall d t, s = d :: t -> isDigit d = true ->
    d = zeroDigit) :
    exists int, Digits int ∧ int ≠ [] ∧
      (int = [] ∨ int = [zeroDigit] ∨ exists d rest, int = d :: rest ∧
        d ≠ zeroDigit) ∧
      c :: s = int ++ afterInteger (c :: s) := by
  by_cases hlead : c = zeroDigit
  · refine ⟨[zeroDigit], ?_, by simp, Or.inr (Or.inl rfl), ?_⟩
    · intro d hd
      rw [List.mem_singleton.mp hd]
      rfl
    · cases s with
      | nil =>
          simp [afterInteger, dropByte, hlead]
      | cons d t =>
          have hd : ¬ (isDigit d = true ∧ d ≠ zeroDigit) :=
            fun h => h.right (hzero hlead d t rfl h.left)
          rw [hlead]
          simp only [afterInteger, dropByte, if_true, if_neg hd,
            List.singleton_append]
  · refine ⟨(c :: s).takeWhile isDigit, digits_takeWhile _, ?_, ?_, ?_⟩
    · rw [List.takeWhile_cons_of_pos hc]
      simp
    · rw [List.takeWhile_cons_of_pos hc]
      exact Or.inr (Or.inr ⟨c, _, rfl, hlead⟩)
    · have hdigit : isDigit c = true ∧ c ≠ zeroDigit := ⟨hc, hlead⟩
      simp only [afterInteger, dropByte, if_neg hlead, if_pos hdigit]
      exact List.takeWhile_append_dropWhile.symm

theorem fraction_text (cur : List UInt8) :
    exists frac, Digits frac ∧
      cur = (if frac = [] then [] else dot :: frac) ++ afterFraction cur := by
  match cur with
  | [] | [_] =>
      exact ⟨[], digits_nil, rfl⟩
  | c :: d :: cur =>
      by_cases hc : c = dot ∧ isDigit d = true
      · refine ⟨(d :: cur).takeWhile isDigit, digits_takeWhile _, ?_⟩
        have hne : (d :: cur).takeWhile isDigit ≠ [] := by
          rw [List.takeWhile_cons_of_pos hc.right]
          simp
        rw [if_neg hne, afterFraction, if_pos hc, List.cons_append,
          List.takeWhile_append_dropWhile, hc.left]
      · refine ⟨[], digits_nil, ?_⟩
        rw [afterFraction, if_neg hc]
        rfl

theorem sign_of_exponent (cur : List UInt8) :
    exists sign, (sign = [] ∨ sign = [plus] ∨ sign = [minus]) ∧
      cur = sign ++ dropSign cur := by
  cases cur with
  | nil =>
      exact ⟨[], Or.inl rfl, rfl⟩
  | cons c rest =>
      by_cases hplus : c = plus
      · exact ⟨[plus], Or.inr (Or.inl rfl), by simp [dropSign, hplus]⟩
      · by_cases hminus : c = minus
        · exact ⟨[minus], Or.inr (Or.inr rfl), by simp [dropSign, hminus]⟩
        · exact ⟨[], Or.inl rfl, by simp [dropSign, hplus, hminus]⟩

theorem afterExponent_letter {c : UInt8} (hc : c = lowerE ∨ c = upperE)
    (s : List UInt8) :
    afterExponent (c :: s) = (dropSign s).dropWhile isDigit := by
  cases s with
  | nil =>
      simp [afterExponent, dropSign, hc]
  | cons d rest =>
      simp only [afterExponent, dropSign, if_pos hc]
      split <;> rfl

theorem afterExponent_other {c : UInt8} (hc : ¬ (c = lowerE ∨ c = upperE))
    (s : List UInt8) :
    afterExponent (c :: s) = c :: s := by
  rw [afterExponent.eq_def]
  simp only [if_neg hc]

theorem exponent_text {cur : List UInt8} (hcur : nul ∈ cur)
    (h : forall c s d t, cur = c :: s -> c = lowerE ∨ c = upperE ->
    dropSign s = d :: t ->
      isDigit d = true) :
    exists exp : Option ExponentText, (forall e, exp = some e -> e.digits ≠ []) ∧
      forall n : NumberText, n.exp = exp -> cur = n.expText ++
        afterExponent cur := by
  cases cur with
  | nil =>
      cases hcur
  | cons c s =>
      by_cases hc : c = lowerE ∨ c = upperE
      · have hne : c ≠ nul := by
          rcases hc with rfl | rfl <;> decide
        have hmem : nul ∈ s := (List.mem_cons.mp hcur).resolve_left (Ne.symm hne)
        rcases sign_of_exponent s with ⟨sign, hsign, htext⟩
        refine ⟨some ⟨c, sign, (dropSign s).takeWhile isDigit, hc, hsign,
          digits_takeWhile _⟩,
          ?_, ?_⟩
        · intro e he
          cases he
          cases hdrop : dropSign s with
          | nil =>
              rw [hdrop, List.append_nil] at htext
              rw [htext] at hmem
              rcases hsign with rfl | rfl | rfl <;> exact absurd hmem (by decide)
          | cons d t =>
              have hd : isDigit d = true := h c s d t rfl hc hdrop
              show (d :: t).takeWhile isDigit ≠ []
              rw [List.takeWhile_cons_of_pos hd]
              simp
        · intro n hn
          rw [afterExponent_letter hc, NumberText.expText, hn]
          simp only [ExponentText.text, List.cons_append, List.append_assoc,
            List.takeWhile_append_dropWhile]
          rw [← htext]
      · refine ⟨none, fun e he => ?_, ?_⟩
        · cases he
        · intro n hn
          rw [afterExponent_other hc, NumberText.expText, hn]
          rfl

theorem number_text {cur : List UInt8} (hcur : nul ∈ cur) (h : ¬ NumberSlip cur) :
    exists n : NumberText, n.Complete ∧ cur = n.text ++ afterNumber cur := by
  have hsign := (accept_total hcur (c := minus) (by decide)).right
  rcases sign_text cur with ⟨negative, hnegative⟩
  cases hdrop : dropByte minus cur with
  | nil =>
      rw [hdrop] at hsign
      cases hsign.right
  | cons c s =>
      have hc : isDigit c = true := by
        by_contra hc
        exact h (.noDigits hdrop (by simpa using hc))
      have hzero : c = zeroDigit -> forall d t, s = d :: t ->
          isDigit d = true -> d = zeroDigit := by
        rintro rfl d t rfl hd
        by_contra hne
        exact h (.leadingZero hdrop hd hne)
      rw [hdrop] at hsign
      have htotal : (exists v : Rat, integerPart (c :: s) =
        .ok v (afterInteger (c :: s))) ∧
          Before (afterInteger (c :: s)) (c :: s) := integerPart_total hsign.right
      have hint := htotal.right
      have hfrac : Before (afterFraction (afterInteger (c :: s)))
          (afterInteger (c :: s)) :=
        (fractionPart_total hint.right (0 : Rat)).right
      have hexponent : forall d t e u, afterFraction (afterInteger (c :: s)) =
          d :: t ->
          d = lowerE ∨ d = upperE -> dropSign t = e :: u -> isDigit e = true := by
        intro d t e u hfraction hd hsigned
        by_contra he
        exact h (.noExponent (hdrop ▸ hfraction) hd hsigned (by simpa using he))
      rcases integer_text hc hzero with ⟨int, hdigits, hne, hlead, htext⟩
      rcases fraction_text (afterInteger (c :: s)) with ⟨frac, hfdigits, hftext⟩
      rcases exponent_text hfrac.right hexponent with ⟨exp, hexp, hetext⟩
      refine ⟨⟨negative, int, frac, exp, hdigits, hlead, hfdigits⟩, ⟨hne, hexp⟩, ?_⟩
      rw [afterNumber, hdrop, NumberText.text, List.append_assoc, List.append_assoc,
        List.append_assoc, ← hetext _ rfl, NumberText.fracText, ← hftext,
          ← htext, ← hdrop,
        NumberText.signText]
      exact hnegative

/-- Without a slip in a character, the quote that ends the string is found
behind characters. -/
theorem chars_text {s stop : List UInt8} (hstop : unitStop s = some stop)
    (h : ¬ CharSlip s) :
    exists cs rest, stop = quote :: rest ∧ s = charsText cs ++ quote :: rest := by
  fun_induction unitStop s with
  | case1 =>
      cases hstop
  | case2 c cur hc =>
      cases hstop
      rcases hc with rfl | rfl
      · exact ⟨[], cur, rfl, rfl⟩
      · exact absurd (.control (by decide)) h
  | case3 c cur hc hback ih =>
      have hraw : 32 <= c ∧ c ≠ quote ∧ c ≠ backslash := by
        refine ⟨?_, fun hq => hc (Or.inl hq), hback⟩
        by_contra hlow
        exact h (.control (UInt8.not_le.mp hlow))
      rcases ih hstop (fun hslip => h (.later (.raw c hraw) hslip)) with
        ⟨cs, rest, rfl, rfl⟩
      exact ⟨.raw c hraw :: cs, rest, rfl, by rw [charsText_cons]; rfl⟩
  | case4 =>
      cases hstop
  | case5 c hc hback a b d e cur4 ih =>
      cases not_not.mp hback
      have hhex : HexFour a b d e := by
        by_contra hhex
        exact h (.digits hhex)
      rcases ih hstop (fun hslip => h (.later (.unicode a b d e hhex) hslip)) with
        ⟨cs, rest, rfl, rfl⟩
      exact ⟨.unicode a b d e hhex :: cs, rest, rfl, by rw [charsText_cons]; rfl⟩
  | case6 =>
      cases hstop
  | case7 c hc hback d text hd ih =>
      cases not_not.mp hback
      have hletter : d ∈ escapeLetters := by
        by_contra hletter
        exact h (.escape hd hletter)
      rcases ih hstop (fun hslip => h (.later (.short d hletter) hslip)) with
        ⟨cs, rest, rfl, rfl⟩
      exact ⟨.short d hletter :: cs, rest, rfl, by rw [charsText_cons]; rfl⟩

theorem string_text {s rest : List UInt8} (hend : stringEnd s = some rest)
    (h : ¬ StringSlip s) :
    exists cs, Utf8 (stringText cs) ∧ quote :: s = stringText cs ++ rest := by
  have hunit : (unitStop s).map afterQuote = some rest := by
    unfold stringEnd at hend
    split at hend
    · cases hend
    · exact hend
  rcases Option.map_eq_some_iff.mp hunit with ⟨stop, hstop, hafter⟩
  rcases chars_text hstop (fun hslip => h (Or.inl hslip)) with
    ⟨cs, rest', rfl, htext⟩
  have hrest : rest' = rest := by
    simpa [afterQuote] using hafter
  subst hrest
  have hquote : quote :: s = stringText cs ++ rest' := by
    rw [htext]
    simp [stringText]
  refine ⟨cs, ?_, hquote⟩
  by_contra hutf
  exact h (Or.inr ⟨stringText cs, rest', hend, hquote, hutf⟩)

/-!
# Readings without a liberty
-/

theorem literalAt_false (rest : List UInt8) :
    LiteralAt (falseText ++ rest) rest := by
  apply LiteralAt.false
  · rintro ⟨t, ht⟩
    cases ht
  · rfl

theorem literalAt_true (rest : List UInt8) : LiteralAt (trueText ++ rest) rest := by
  apply LiteralAt.true
  · rintro ⟨t, ht⟩
    cases ht
  · rintro ⟨t, ht⟩
    cases ht
  · rfl

theorem literal_text {cur rest : List UInt8} (h : LiteralAt cur rest)
    (hslip : ¬ Slip .value cur) :
    exists text, cur = text ++ rest ∧ JsonText False .value text := by
  by_cases hnull : nullText <+: cur
  · rcases hnull with ⟨t, rfl⟩
    rw [h.unique .null]
    exact ⟨nullText, rfl, .null⟩
  · by_cases hfalse : falseText <+: cur
    · rcases hfalse with ⟨t, rfl⟩
      rw [h.unique (literalAt_false t)]
      exact ⟨falseText, rfl, .false⟩
    · by_cases htrue : trueText <+: cur
      · rcases htrue with ⟨t, rfl⟩
        rw [h.unique (literalAt_true t)]
        exact ⟨trueText, rfl, .true⟩
      · exact absurd (.literal h hnull hfalse htrue) hslip

theorem ValueAt.front {cur rest : List UInt8} (h : ValueAt cur rest)
    (hslip : ¬ Slip .value cur) :
    cur = rest := by
  by_contra hne
  exact hslip (.letters h (Ne.symm hne))

/-- What a reading without a liberty reads is a text of the grammar, without
trailing commas. -/
theorem jsonText_of_reads {place : Place} {cur rest : List UInt8}
    (h : Reads place cur rest)
    (hcur : Terminated cur) (hclean : ¬ TakesLiberty place cur) :
    exists text, cur = text ++ rest ∧ JsonText False place text := by
  induction h with
  | literal hliteral hc =>
      exact literal_text hliteral (fun hslip => hclean (.here hslip))
  | string hvalue hstring =>
      rcases string_text hstring (fun hslip =>
        hclean (.here (.string hvalue hslip))) with
        ⟨cs, hutf, htext⟩
      rw [hvalue.front (fun hslip => hclean (.here hslip))]
      exact ⟨stringText cs, htext, .string cs hutf⟩
  | number hvalue hc =>
      have hbefore := hvalue.before hcur.right
      rcases number_text hbefore.right (fun hslip =>
        hclean (.here (.number hvalue hc hslip))) with
        ⟨n, hn, htext⟩
      rw [hvalue.front (fun hslip => hclean (.here hslip))]
      exact ⟨n.text, htext, .number n hn⟩
  | @empty kind cur s rest hvalue hspace =>
      rcases dropSpace_ws (fun hslip =>
        hclean (.here (.opening kind hvalue hslip))) with
        ⟨w, hw, htext⟩
      rw [hspace] at htext
      rw [hvalue.front (fun hslip => hclean (.here hslip)), htext]
      exact ⟨kind.opening :: (w ++ [kind.closing]), by simp, .empty kind hw⟩
  | @container kind cur s next mid rest c hvalue hspace hc hentry hitems ih
      ihitems =>
      have hs := (hvalue.before hcur.right).tail kind.opening_ne_nul
      have hfirst := (hspace ▸ before_dropSpace hs.right).trans hs
      have hmid := (hentry.before (hcur.rest hfirst)).trans hfirst
      rcases dropSpace_ws (fun hslip =>
        hclean (.here (.opening kind hvalue hslip))) with
        ⟨w, hw, htext⟩
      rcases ih (hcur.rest hfirst)
        (fun hlater => hclean (.later (.first kind hvalue hspace hc) hlater)) with
        ⟨entry, hentryText, hentryJson⟩
      rcases ihitems (hcur.rest hmid)
        (fun hlater =>
          hclean (.later (.behind kind hvalue hspace hc hentry) hlater)) with
        ⟨items, hitemsText, hitemsJson⟩
      rw [hspace, hentryText, hitemsText] at htext
      rw [hvalue.front (fun hslip => hclean (.here hslip)), htext]
      exact ⟨kind.opening ::
        (w ++ (entry ++ items)), by simp, .container kind hw hentryJson hitemsJson⟩
  | element hvalue ih =>
      rcases ih hcur (fun hlater => hclean (.later .element hlater)) with
        ⟨text, htext, hjson⟩
      rcases dropSpace_ws (fun hslip =>
        hclean (.here (.element hvalue hslip))) with ⟨w, hw, hspace⟩
      rw [hspace] at htext
      exact ⟨text ++ w, by rw [htext, List.append_assoc], .element hjson hw⟩
  | @member s mid v rest hstring hspace hvalue ih =>
      have hs := before_tail (by decide) hcur.right
      have hmid := (stringEnd_before (hcur.rest hs) hstring).trans hs
      have hv := ((hspace ▸ before_dropSpace hmid.right).tail (by decide)).trans
        hmid
      have hstart := (before_dropSpace hv.right).trans hv
      rcases string_text hstring (fun hslip =>
        hclean (.here (.name hslip))) with ⟨cs, hutf, hname⟩
      rcases dropSpace_ws (fun hslip =>
        hclean (.here (.nameSpace hstring hslip))) with
        ⟨w, hw, hcolon⟩
      rcases dropSpace_ws (fun hslip =>
        hclean (.here (.colonSpace hstring hspace hslip))) with
        ⟨w', hw', hafter⟩
      rcases dropSpace_ws (fun hslip =>
        hclean (.here (.member hstring hspace hvalue hslip))) with
        ⟨w'', hw'', hbehind⟩
      rcases ih (hcur.rest hstart) (fun hlater =>
        hclean (.later (.member hstring hspace) hlater))
        with ⟨text, htext, hjson⟩
      refine ⟨stringText cs ++ (w ++ (colon :: (w' ++ (text ++ w'')))), ?_,
        .member cs hutf hw hw' hjson hw''⟩
      rw [hbehind] at htext
      rw [htext] at hafter
      rw [hspace, hafter] at hcolon
      rw [hname, hcolon]
      simp
  | close kind =>
      exact ⟨[kind.closing], rfl, .close kind⟩
  | trailing kind hspace =>
      exact absurd (.here (.bracket kind hspace)) hclean
  | @more kind s next mid rest c hspace hc hentry hitems ih ihitems =>
      have hs := before_tail (by decide) hcur.right
      have hnext := (hspace ▸ before_dropSpace hs.right).trans hs
      have hmid := (hentry.before (hcur.rest hnext)).trans hnext
      rcases dropSpace_ws (fun hslip =>
        hclean (.here (.commaSpace kind hslip))) with ⟨w, hw, htext⟩
      rcases ih (hcur.rest hnext) (fun hlater =>
        hclean (.later (.next kind hspace hc) hlater)) with
        ⟨entry, hentryText, hentryJson⟩
      rcases ihitems (hcur.rest hmid)
        (fun hlater => hclean (.later (.later kind hspace hc hentry) hlater)) with
        ⟨items, hitemsText, hitemsJson⟩
      rw [hspace, hentryText, hitemsText] at htext
      rw [htext]
      exact ⟨comma ::
        (w ++ (entry ++ items)), by simp, .more kind hw hentryJson hitemsJson⟩

theorem JsonText.extend {extended : Prop} {place : Place} {text : List UInt8}
    (h : JsonText False place text) : JsonText extended place text := by
  induction h with
  | null =>
      exact .null
  | false =>
      exact .false
  | true =>
      exact .true
  | number n hn =>
      exact .number n hn
  | string s hs =>
      exact .string s hs
  | empty kind hw =>
      exact .empty kind hw
  | container kind hw hentry hitems ih ihitems =>
      exact .container kind hw ih ihitems
  | element hvalue hw ih =>
      exact .element ih hw
  | member s hs hw hw' hvalue hw'' ih =>
      exact .member s hs hw hw' ih hw''
  | close kind =>
      exact .close kind
  | trailing kind hnever hw =>
      exact absurd hnever not_false
  | more kind hw hentry hitems ih ihitems =>
      exact .more kind hw ih ihitems

end CJson
end Lepd
