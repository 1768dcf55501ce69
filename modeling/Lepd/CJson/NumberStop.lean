import Lepd.CJson.NumberText

/-!
# Where a number stops

The number parser answers a number on every text that has a NUL ahead.  Where it
leaves the cursor is a function of the bytes.
-/

namespace Lepd
namespace CJson

open Foundation
open Foundation.Scan

/-!
# The stops
-/

def dropByte (c : UInt8) : List UInt8 -> List UInt8
  | [] => []
  | d :: cur => if d = c then cur else d :: cur

def afterInteger (cur : List UInt8) : List UInt8 :=
  match dropByte zeroDigit cur with
  | [] => []
  | c :: rest => if isDigit c ∧ c ≠ zeroDigit then (c :: rest).dropWhile isDigit
      else c :: rest

def afterFraction : List UInt8 -> List UInt8
  | c :: d :: cur =>
      if c = dot ∧ isDigit d then (d :: cur).dropWhile isDigit else c :: d :: cur
  | cur => cur

def afterExponent : List UInt8 -> List UInt8
  | [] => []
  | c :: cur =>
      if c = lowerE ∨ c = upperE then
        match cur with
        | [] => []
        | d :: rest =>
            if d = plus ∨ d = minus then rest.dropWhile isDigit
            else (d :: rest).dropWhile isDigit
      else c :: cur

def afterNumber (cur : List UInt8) : List UInt8 :=
  afterExponent (afterFraction (afterInteger (dropByte minus cur)))

def Before (rest cur : List UInt8) : Prop :=
  rest <:+ cur ∧ nul ∈ rest

theorem before_dropWhile {cur : List UInt8} (h : nul ∈ cur) {test : UInt8 -> Bool}
    (htest : test nul = false) : Before (cur.dropWhile test) cur := by
  refine ⟨List.dropWhile_suffix test, ?_⟩
  induction cur with
  | nil =>
      cases h
  | cons c cur ih =>
      by_cases hc : test c = true
      · rw [List.dropWhile_cons_of_pos hc]
        apply ih
        rcases List.mem_cons.mp h with rfl | h
        · rw [htest] at hc
          cases hc
        · exact h
      · rw [List.dropWhile_cons_of_neg hc]
        exact h

theorem Before.trans {a b c : List UInt8} (h : Before a b) (h' : Before b c) :
    Before a c :=
  ⟨h.left.trans h'.left, h.right⟩

theorem before_self {cur : List UInt8} (h : nul ∈ cur) : Before cur cur :=
  ⟨List.suffix_rfl, h⟩

theorem before_tail {c : UInt8} (hc : c ≠ nul) {cur : List UInt8}
    (h : nul ∈ c :: cur) :
    Before cur (c :: cur) :=
  ⟨List.suffix_cons c cur, (List.mem_cons.mp h).resolve_left (Ne.symm hc)⟩

/-!
# The parts of a number
-/

variable {double : Type} [CDouble double]

theorem numberDigits_total {cur : List UInt8} (h : nul ∈ cur) (x : double)
    (count : Nat) :
    exists r, numberDigits x count cur = .ok r (cur.dropWhile isDigit) := by
  induction cur generalizing x count with
  | nil =>
      cases h
  | cons c cur ih =>
      by_cases hc : isDigit c = true
      · have hmem : nul ∈ cur :=
          (List.mem_cons.mp h).resolve_left
            (Ne.symm (ne_of_isDigit_ne hc (by decide)))
        rw [List.dropWhile_cons_of_pos hc, numberDigits, if_pos hc]
        exact ih hmem _ _
      · rw [List.dropWhile_cons_of_neg hc, numberDigits, if_neg hc]
        exact ⟨_, rfl⟩

theorem exponentDigits_total {cur : List UInt8} (h : nul ∈ cur) (k : Int) :
    exists r, exponentDigits k cur = .ok r (cur.dropWhile isDigit) := by
  induction cur generalizing k with
  | nil =>
      cases h
  | cons c cur ih =>
      by_cases hc : isDigit c = true
      · have hmem : nul ∈ cur :=
          (List.mem_cons.mp h).resolve_left
            (Ne.symm (ne_of_isDigit_ne hc (by decide)))
        rw [List.dropWhile_cons_of_pos hc, exponentDigits, if_pos hc]
        exact ih hmem _
      · rw [List.dropWhile_cons_of_neg hc, exponentDigits, if_neg hc]
        exact ⟨_, rfl⟩

theorem accept_total {cur : List UInt8} (h : nul ∈ cur) {c : UInt8} (hc : c ≠ nul) :
    (exists b, accept c cur = .ok b (dropByte c cur)) ∧ Before
    (dropByte c cur) cur := by
  cases cur with
  | nil =>
      cases h
  | cons d cur =>
      by_cases hd : d = c
      · subst hd
        simp only [dropByte, if_true]
        exact ⟨⟨_, accept_self d cur⟩, before_tail hc h⟩
      · simp only [dropByte, if_neg hd]
        exact ⟨⟨_, accept_other hd cur⟩, before_self h⟩

theorem integerPart_total {cur : List UInt8} (h : nul ∈ cur) :
    (exists n : double, integerPart cur = .ok n (afterInteger cur)) ∧
      Before (afterInteger cur) cur := by
  rcases accept_total h (c := zeroDigit) (by decide) with ⟨⟨b, haccept⟩, hbefore⟩
  unfold afterInteger
  match hdrop : dropByte zeroDigit cur with
  | [] =>
      rw [hdrop] at hbefore
      cases hbefore.right
  | c :: rest =>
      rw [hdrop] at haccept hbefore
      by_cases hc : isDigit c = true ∧ c ≠ zeroDigit
      · have hdigits : exists r, numberDigits (CDouble.ofInt 0 : double) 0
            (c :: rest) =
            .ok r ((c :: rest).dropWhile isDigit) :=
              numberDigits_total hbefore.right _ 0
        rcases hdigits with ⟨r, hr⟩
        refine ⟨⟨r.1, ?_⟩, ?_⟩
        · simp only [integerPart, bind_apply, haccept, andThen_ok, peek,
            peek_cons, if_pos hc, hr]
          rfl
        · simp only [if_pos hc]
          exact (before_dropWhile hbefore.right rfl).trans hbefore
      · refine ⟨⟨CDouble.ofInt 0, ?_⟩, ?_⟩
        · simp only [integerPart, bind_apply, haccept, andThen_ok, peek,
            peek_cons, if_neg hc]
          rfl
        · simp only [if_neg hc]
          exact hbefore

theorem fractionPart_total {cur : List UInt8} (h : nul ∈ cur) (x : double) :
    (exists r, fractionPart x cur = .ok r (afterFraction cur)) ∧
      Before (afterFraction cur) cur := by
  match cur, h with
  | [c], h =>
      rw [← List.mem_singleton.mp h]
      exact ⟨⟨(x, 0), rfl⟩, before_self (List.mem_singleton_self nul)⟩
  | c :: d :: cur, h =>
      by_cases hc : c = dot ∧ isDigit d = true
      · have hmem : Before (d :: cur) (c :: d :: cur) :=
          before_tail (by rw [hc.left]; decide) h
        rcases numberDigits_total hmem.right x 0 with ⟨r, hr⟩
        have hafter : afterFraction (c :: d :: cur) =
            (d :: cur).dropWhile isDigit := by
          rw [afterFraction, if_pos hc]
        rw [hafter]
        refine ⟨⟨r, ?_⟩, (before_dropWhile hmem.right rfl).trans hmem⟩
        simp only [fractionPart, bind_apply, peek, peek_cons, andThen_ok,
          if_pos hc.left,
          peekNext_cons, if_pos hc.right, advance_apply, List.tail_cons, hr]
      · have hafter : afterFraction (c :: d :: cur) = c :: d :: cur := by
          rw [afterFraction, if_neg hc]
        rw [hafter]
        refine ⟨⟨(x, 0), ?_⟩, before_self h⟩
        by_cases hdot : c = dot
        · have hd : ¬ isDigit d = true := fun hd => hc ⟨hdot, hd⟩
          simp only [fractionPart, bind_apply, peek, peek_cons, andThen_ok,
            if_pos hdot,
            peekNext_cons, if_neg hd, pure_apply]
        · simp only [fractionPart, bind_apply, peek, peek_cons, andThen_ok,
            if_neg hdot, pure_apply]

theorem exponentSign_total {c : UInt8} {cur : List UInt8} (h : nul ∈ c :: cur) :
    (exists k, exponentSign (c :: cur) =
        .ok k (if c = plus ∨ c = minus then cur else c :: cur)) ∧
      Before (if c = plus ∨ c = minus then cur else c :: cur) (c :: cur) := by
  by_cases hplus : c = plus
  · subst hplus
    exact ⟨⟨1, rfl⟩, before_tail (by decide) h⟩
  · by_cases hminus : c = minus
    · subst hminus
      exact ⟨⟨-1, rfl⟩, before_tail (by decide) h⟩
    · rw [if_neg (fun hc => hc.elim hplus hminus)]
      refine ⟨⟨1, ?_⟩, before_self h⟩
      simp only [exponentSign, bind_apply, peek, peek_cons, andThen_ok,
        if_neg hplus, if_neg hminus,
        pure_apply]

theorem exponentPart_total {cur : List UInt8} (h : nul ∈ cur) :
    (exists r, exponentPart cur = .ok r (afterExponent cur)) ∧
      Before (afterExponent cur) cur := by
  cases cur with
  | nil =>
      cases h
  | cons c cur =>
      by_cases hc : c = lowerE ∨ c = upperE
      · have hne : c ≠ nul := by
          rcases hc with rfl | rfl <;> decide
        have hmem := before_tail hne h
        cases cur with
        | nil =>
            cases hmem.right
        | cons d rest =>
            rcases exponentSign_total hmem.right with ⟨⟨k, hk⟩, hsign⟩
            rcases exponentDigits_total hsign.right 0 with ⟨r, hr⟩
            have hafter : afterExponent (c :: d :: rest) =
                (if d = plus ∨ d = minus then rest else d :: rest).dropWhile
                  isDigit := by
              simp only [afterExponent, if_pos hc]
              split <;> rfl
            rw [hafter]
            refine ⟨⟨toInt32 (r * k), ?_⟩,
              ((before_dropWhile hsign.right rfl).trans hsign).trans hmem⟩
            simp only [exponentPart, bind_apply, peek, peek_cons, andThen_ok,
              if_pos hc,
              advance_apply, List.tail_cons, hk, hr]
            rfl
      · have hafter : afterExponent (c :: cur) = c :: cur := by
          rw [afterExponent.eq_def]
          simp only [if_neg hc]
        rw [hafter]
        refine ⟨⟨0, ?_⟩, before_self h⟩
        simp only [exponentPart, bind_apply, peek, peek_cons, andThen_ok,
          if_neg hc, pure_apply]

theorem parseNumber_total {cur : List UInt8} (h : nul ∈ cur) :
    (exists v : Item double, parseNumber cur = .ok v (afterNumber cur)) ∧
      Before (afterNumber cur) cur := by
  rcases accept_total h (c := minus) (by decide) with ⟨⟨b, haccept⟩, hsign⟩
  have hinteger : (exists n : double, integerPart (dropByte minus cur) =
      .ok n (afterInteger (dropByte minus cur))) ∧ _ :=
        integerPart_total hsign.right
  rcases hinteger with ⟨⟨n, hn⟩, hint⟩
  rcases fractionPart_total hint.right n with ⟨⟨r, hr⟩, hfrac⟩
  rcases exponentPart_total hfrac.right with ⟨⟨e, he⟩, hexp⟩
  refine ⟨?_, ((hexp.trans hfrac).trans hint).trans hsign⟩
  simp only [parseNumber, bind_apply, haccept, andThen_ok, hn, hr, he]
  exact ⟨_, rfl⟩

theorem afterNumber_before {cur : List UInt8} (h : nul ∈ cur) :
    Before (afterNumber cur) cur := by
  have htotal : (exists v : Item Rat, parseNumber cur =
    .ok v (afterNumber cur)) ∧ _ :=
    parseNumber_total h
  exact htotal.right

end CJson
end Lepd
