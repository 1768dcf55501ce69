import Mathlib.Data.Nat.Digits.Lemmas
import Lepd.CJson.Completeness
import Lepd.CJson.Printer

/-!
# Printed text is read back

What the printer makes of a tree is a text of the grammar, and it denotes the
tree it was made of.
-/

namespace Lepd
namespace CJson

open Foundation

variable {double : Type}

/-!
# Whole numbers in floating point
-/

def Exact (i : Int) : Prop :=
  -(2 ^ 53) <= i ∧ i <= 2 ^ 53

def IsInt (i : Int) : Prop :=
  -(2 ^ 31) <= i ∧ i < 2 ^ 31

/-- The laws of whole numbers that printing and reading a number rests on. -/
class LawfulDouble (double : Type) [CPrintf double] : Prop where
  add_ofInt : forall a b : Int, Exact a -> Exact b -> Exact (a + b) ->
    CDouble.add (CDouble.ofInt a : double) (CDouble.ofInt b) = CDouble.ofInt (a + b)
  /-- A product that is zero keeps its sign. -/
  mul_ofInt : forall a b : Int, Exact a -> Exact b -> Exact (a * b) ->
    (a * b ≠ 0 ∨ 0 <= a ∧ 0 <= b) ->
    CDouble.mul (CDouble.ofInt a : double) (CDouble.ofInt b) = CDouble.ofInt (a * b)
  powTen_zero : (CDouble.powTen 0 : double) = CDouble.ofInt 1
  toInt_ofInt : forall i : Int, IsInt i ->
    CDouble.toInt (CDouble.ofInt i : double) = i
  toInt_range : forall x : double, IsInt (CDouble.toInt x)
  /-- A negative zero is converted to zero. -/
  toInt_zero :
    CDouble.toInt
      (CDouble.mul (CDouble.mul (CDouble.ofInt (-1)) (CDouble.ofInt 0))
      (CDouble.ofInt 1) : double) = 0
  sub_self : forall i : Int, IsInt i ->
    CPrintf.le
      (CPrintf.fabs (CPrintf.sub (CDouble.ofInt i : double) (CDouble.ofInt i)))
      CPrintf.epsilon = true
  le_ofInt : forall i j : Int, IsInt i -> IsInt j -> i <= j ->
    CPrintf.le (CDouble.ofInt i : double) (CDouble.ofInt j) = true

theorem ratToInt_ofInt {i : Int} (h : IsInt i) : ratToInt i = i := by
  have hdiv : Int.tdiv (i : Rat).num (i : Rat).den = i := by
    rw [Rat.num_intCast, Rat.den_intCast, Nat.cast_one, Int.tdiv_one]
  unfold ratToInt
  rw [hdiv]
  exact if_pos h

theorem ratToInt_range (x : Rat) : IsInt (ratToInt x) := by
  by_cases h : IsInt (Int.tdiv x.num x.den)
  · have hsame : ratToInt x = Int.tdiv x.num x.den := if_pos h
    rw [hsame]
    exact h
  · have hleast : ratToInt x = -(2 ^ 31) := if_neg h
    rw [hleast]
    exact ⟨le_refl _, by decide⟩

instance : LawfulDouble Rat where
  add_ofInt a b _ _ _ := (Int.cast_add a b).symm
  mul_ofInt a b _ _ _ _ := (Int.cast_mul a b).symm
  powTen_zero := by
    show (10 : Rat) ^ (0 : Int) = ((1 : Int) : Rat)
    rw [zpow_zero, Int.cast_one]
  toInt_ofInt _ h := ratToInt_ofInt h
  toInt_range := ratToInt_range
  toInt_zero := by
    show ratToInt (((-1 : Int) : Rat) * ((0 : Int) : Rat) * ((1 : Int) : Rat)) = 0
    rw [Int.cast_zero, mul_zero, zero_mul]
    rfl
  sub_self i _ := by
    show decide (|(i : Rat) - (i : Rat)| <= 1 / 2 ^ 52) = true
    rw [sub_self, abs_zero]
    exact decide_eq_true (div_nonneg zero_le_one (pow_nonneg zero_le_two 52))
  le_ofInt i j _ _ h := decide_eq_true (Int.cast_le.mpr h)

/-!
# Digits
-/

theorem digitsText_of_pos {n : Nat} (h : n ≠ 0) :
    digitsText n = (Nat.digits 10 n).reverse.map (fun d =>
      zeroDigit + UInt8.ofNat d) :=
  if_neg h

theorem digit_byte {d : Nat} (h : d < 10) :
    isDigit (zeroDigit + UInt8.ofNat d) = true ∧
      (zeroDigit + UInt8.ofNat d).toNat = 48 + d ∧
      (zeroDigit + UInt8.ofNat d = zeroDigit -> d = 0) := by
  revert d
  decide

theorem digitsText_digits (n : Nat) : Digits (digitsText n) := by
  unfold digitsText
  split
  · intro c hc
    rw [List.mem_singleton.mp hc]
    rfl
  · intro c hc
    rcases List.mem_map.mp hc with ⟨d, hd, rfl⟩
    exact (digit_byte (Nat.digits_lt_base (by decide)
      (List.mem_reverse.mp hd))).left

theorem digitsText_leading (n : Nat) :
    digitsText n = [zeroDigit] ∨ exists c rest, digitsText n = c :: rest ∧
      c ≠ zeroDigit := by
  by_cases h : n = 0
  · exact Or.inl (if_pos h)
  · right
    have hne : Nat.digits 10 n ≠ [] := Nat.digits_ne_nil_iff_ne_zero.mpr h
    have hlast := Nat.getLast_digit_ne_zero 10 h
    rw [digitsText_of_pos h, ← List.dropLast_append_getLast hne,
      List.reverse_append]
    refine ⟨_, _, rfl, ?_⟩
    intro heq
    exact hlast
      ((digit_byte (Nat.digits_lt_base (by decide)
      (List.getLast_mem hne))).right.right heq)

def digitsValue (a : Nat) (ds : List UInt8) : Nat :=
  ds.foldl (fun n c => n * 10 + (c.toNat - 48)) a

theorem digitsValue_cons (a : Nat) (c : UInt8) (ds : List UInt8) :
    digitsValue a (c :: ds) = digitsValue (a * 10 + (c.toNat - 48)) ds := by
  rw [digitsValue, List.foldl_cons, digitsValue]

theorem le_digitsValue (a : Nat) (ds : List UInt8) : a <= digitsValue a ds := by
  induction ds generalizing a with
  | nil =>
      exact le_refl a
  | cons c ds ih =>
      exact le_trans (by omega) (ih (a * 10 + (c.toNat - 48)))

theorem digitsValue_digits (n : Nat) : digitsValue 0 (digitsText n) = n := by
  by_cases h : n = 0
  · rw [h]
    rfl
  · have hbytes : forall (ds : List Nat) (a : Nat), (forall d, d ∈ ds -> d < 10) ->
        digitsValue a (ds.map (fun d => zeroDigit + UInt8.ofNat d)) =
          ds.foldl (fun n d => n * 10 + d) a := by
      intro ds
      induction ds with
      | nil =>
          intro a _
          rfl
      | cons d ds ih =>
          intro a hds
          have hbyte := (digit_byte (hds d List.mem_cons_self)).right.left
          rw [List.map_cons, digitsValue_cons, hbyte, Nat.add_sub_cancel_left,
            List.foldl_cons]
          exact ih (a * 10 + d) (fun x hx => hds x (List.mem_cons_of_mem d hx))
    have hless : forall d, d ∈ (Nat.digits 10 n).reverse -> d < 10 :=
      fun d hd => Nat.digits_lt_base (by decide) (List.mem_reverse.mp hd)
    calc
      digitsValue 0 (digitsText n)
          = (Nat.digits 10 n).reverse.foldl (fun n d => n * 10 + d) 0 := by
            rw [digitsText_of_pos h, hbytes _ 0 hless]
      _ = (Nat.digits 10 n).foldr (fun d n => n * 10 + d) 0 := List.foldl_reverse
      _ = (Nat.digits 10 n).foldr (fun d n => d + 10 * n) 0 := by
            congr 1
            funext d n
            omega
      _ = Nat.ofDigits 10 (Nat.digits 10 n) := (Nat.ofDigits_eq_foldr 10 _).symm
      _ = n := Nat.ofDigits_digits 10 n

section Accumulate

variable [CPrintf double] [LawfulDouble double]

/-- Digits are accumulated exactly as long as the number has no gaps below it. -/
theorem accumulate_digits {ds : List UInt8} (hds : Digits ds) {a : Nat}
    (h : digitsValue a ds <= 2 ^ 53) :
    NumberText.accumulate (CDouble.ofInt a : double) ds =
      CDouble.ofInt (digitsValue a ds : Nat) := by
  induction ds generalizing a with
  | nil =>
      rfl
  | cons c ds ih =>
      have hc : 48 <= c ∧ c <= 57 := by
        simpa [isDigit] using hds c List.mem_cons_self
      have hlow : 48 <= c.toNat := UInt8.le_iff_toNat_le.mp hc.left
      have hhigh : c.toNat <= 57 := UInt8.le_iff_toNat_le.mp hc.right
      rw [digitsValue_cons] at h ⊢
      have hle : a * 10 + (c.toNat - 48) <= 2 ^ 53 :=
        le_trans (le_digitsValue _ ds) h
      have hmul : CDouble.mul (CDouble.ofInt (a : Int) : double)
          (CDouble.ofInt 10) =
          CDouble.ofInt ((a : Int) * 10) :=
        LawfulDouble.mul_ofInt _ _ ⟨by omega, by omega⟩ ⟨by decide, by decide⟩
          ⟨by omega, by omega⟩
          (Or.inr ⟨by omega, by omega⟩)
      have hadd : CDouble.add (CDouble.ofInt ((a : Int) * 10) : double)
            (CDouble.ofInt ((c.toNat : Int) - 48)) =
          CDouble.ofInt ((a : Int) * 10 + ((c.toNat : Int) - 48)) :=
        LawfulDouble.add_ofInt _ _ ⟨by omega, by omega⟩ ⟨by omega, by omega⟩
          ⟨by omega, by omega⟩
      have hcast : (a : Int) * 10 + ((c.toNat : Int) - 48) =
          ((a * 10 + (c.toNat - 48) : Nat) : Int) := by
        omega
      have hrest := ih (fun x hx => hds x (List.mem_cons_of_mem c hx)) h
      rw [NumberText.accumulate, List.foldl_cons, hmul, hadd, hcast]
      exact hrest

theorem intValue_exact {n : NumberText} (h : digitsValue 0 n.int <= 2 ^ 53) :
    (n.intValue : double) = CDouble.ofInt (digitsValue 0 n.int : Nat) := by
  unfold NumberText.intValue
  split
  · next hzero =>
      rw [hzero]
      rfl
  · exact accumulate_digits n.int_digits h

def NumberText.whole (n : NumberText) : Int :=
  if n.negative then -(digitsValue 0 n.int : Int) else digitsValue 0 n.int

def NumberText.Plain (n : NumberText) : Prop :=
  n.frac = [] ∧ n.exp = none

/-- A whole number is read exactly, unless it is a negative zero or has gaps
below it. -/
theorem value_whole {n : NumberText} (hplain : n.Plain)
    (h : digitsValue 0 n.int <= 2 ^ 53)
    (hzero : n.negative = true -> n.whole ≠ 0) :
    (n.value : double) = CDouble.ofInt n.whole := by
  rcases hplain with ⟨hfrac, hexp⟩
  have hexponent : n.subscale - (n.frac.length : Int) = 0 := by
    rw [NumberText.subscale, hexp, hfrac]
    rfl
  have hdigits : NumberText.accumulate (n.intValue : double) n.frac =
      CDouble.ofInt (digitsValue 0 n.int : Nat) := by
    rw [hfrac]
    exact intValue_exact h
  rw [NumberText.value, hexponent, hdigits, LawfulDouble.powTen_zero]
  cases hnegative : n.negative with
  | false =>
      have hwhole : n.whole = (digitsValue 0 n.int : Int) := by
        rw [NumberText.whole, hnegative]
        rfl
      rw [hwhole, if_neg Bool.false_ne_true]
      rw [LawfulDouble.mul_ofInt _ _ ⟨by decide, by decide⟩ ⟨by omega, by omega⟩
        ⟨by omega, by omega⟩
        (Or.inr ⟨by decide, by omega⟩)]
      rw [LawfulDouble.mul_ofInt _ _ ⟨by omega, by omega⟩ ⟨by decide, by decide⟩
        ⟨by omega, by omega⟩
        (Or.inr ⟨by omega, by decide⟩)]
      rw [one_mul, mul_one]
  | true =>
      have hwhole : n.whole = -(digitsValue 0 n.int : Int) := by
        rw [NumberText.whole, hnegative]
        rfl
      have hpos := hzero hnegative
      rw [hwhole] at hpos ⊢
      rw [if_pos rfl]
      rw [LawfulDouble.mul_ofInt _ _ ⟨by decide, by decide⟩ ⟨by omega, by omega⟩
        ⟨by omega, by omega⟩
        (Or.inl (by omega))]
      rw [LawfulDouble.mul_ofInt _ _ ⟨by omega, by omega⟩ ⟨by decide, by decide⟩
        ⟨by omega, by omega⟩
        (Or.inl (by omega))]
      rw [neg_one_mul, mul_one]

theorem toInt_whole {n : NumberText} (hplain : n.Plain) (h : IsInt n.whole) :
    CDouble.toInt (n.value : double) = n.whole := by
  have hsmall : digitsValue 0 n.int <= 2 ^ 53 := by
    rcases h with ⟨hlow, hhigh⟩
    have hwhole : n.whole = digitsValue 0 n.int ∨
        n.whole = -(digitsValue 0 n.int : Int) := by
      rw [NumberText.whole]
      cases n.negative with
      | false =>
          exact Or.inl rfl
      | true =>
          exact Or.inr rfl
    omega
  by_cases hzero : n.negative = true -> n.whole ≠ 0
  · rw [value_whole hplain hsmall hzero, LawfulDouble.toInt_ofInt n.whole h]
  · rcases Classical.not_imp.mp hzero with ⟨hnegative, hwhole⟩
    have hwhole : n.whole = 0 := not_not.mp hwhole
    have hdigits : digitsValue 0 n.int = 0 := by
      rw [NumberText.whole, if_pos hnegative] at hwhole
      omega
    have hint : (n.intValue : double) = CDouble.ofInt 0 := by
      rw [intValue_exact hsmall, hdigits]
      rfl
    have hvalue : (n.value : double) =
        CDouble.mul (CDouble.mul (CDouble.ofInt (-1)) (CDouble.ofInt 0))
          (CDouble.ofInt 1) := by
      rw [NumberText.value, NumberText.subscale, hplain.left, hplain.right,
        if_pos hnegative, hint,
        ← LawfulDouble.powTen_zero]
      rfl
    rw [hvalue, hwhole, LawfulDouble.toInt_zero]

end Accumulate

def NumberText.exact (n : NumberText) : Rat :=
  (if n.negative then -1 else 1) * digitsValue 0 (n.int ++ n.frac) *
    10 ^ (n.expValue - (n.frac.length : Int))

theorem exact_whole {n : NumberText} (hplain : n.Plain) : n.exact = n.whole := by
  rcases hplain with ⟨hfrac, hexp⟩
  rw [NumberText.exact, NumberText.whole, NumberText.expValue, hfrac, hexp,
    List.append_nil]
  rw [List.length_nil, Nat.cast_zero, sub_zero, zpow_zero, mul_one]
  cases n.negative with
  | false =>
      rw [if_neg Bool.false_ne_true, if_neg Bool.false_ne_true, one_mul,
        Int.cast_natCast]
  | true =>
      rw [if_pos rfl, if_pos rfl, Int.cast_neg, Int.cast_natCast, neg_one_mul]

/-!
# Numbers
-/

def decimalNumber (i : Int) : NumberText where
  negative := decide (i < 0)
  int := digitsText i.natAbs
  frac := []
  exp := none
  int_digits := digitsText_digits i.natAbs
  int_leading := Or.inr (digitsText_leading i.natAbs)
  frac_digits := digits_nil

theorem decimalNumber_text (i : Int) : (decimalNumber i).text = decimalText i := by
  unfold NumberText.text NumberText.signText NumberText.fracText
    NumberText.expText decimalText
  by_cases h : i < 0
  · simp [decimalNumber, h]
  · simp [decimalNumber, h]

theorem decimalNumber_complete (i : Int) : (decimalNumber i).Complete := by
  constructor
  · intro hnil
    have hnil' : digitsText i.natAbs = [] := hnil
    rcases digitsText_leading i.natAbs with hzero | ⟨c, rest, hcons, _⟩
    · rw [hnil'] at hzero
      cases hzero
    · rw [hnil'] at hcons
      cases hcons
  · intro e he
    cases he

theorem decimalNumber_whole (i : Int) : (decimalNumber i).whole = i := by
  have hvalue : digitsValue 0 (decimalNumber i).int = i.natAbs :=
    digitsValue_digits i.natAbs
  unfold NumberText.whole
  rw [hvalue]
  by_cases h : i < 0
  · have hneg : (decimalNumber i).negative = true := decide_eq_true h
    rw [hneg, if_pos rfl]
    omega
  · have hneg : (decimalNumber i).negative = false := decide_eq_false h
    rw [hneg, if_neg Bool.false_ne_true]
    omega

section Numbers

variable [CPrintf double] [LawfulDouble double]

theorem decimalNumber_item {i : Int} (h : IsInt i) :
    ((decimalNumber i).item : Item double) = .number (CDouble.ofInt i) i := by
  have hvalue : digitsValue 0 (decimalNumber i).int = i.natAbs :=
    digitsValue_digits i.natAbs
  have hzero : (decimalNumber i).negative = true -> (decimalNumber i).whole ≠
      0 := by
    intro hneg
    have hless : i < 0 := of_decide_eq_true hneg
    rw [decimalNumber_whole]
    omega
  have hsmall : digitsValue 0 (decimalNumber i).int <= 2 ^ 53 := by
    rcases h with ⟨hlow, hhigh⟩
    rw [hvalue]
    omega
  rw [NumberText.item, value_whole ⟨rfl, rfl⟩ hsmall hzero, decimalNumber_whole,
    LawfulDouble.toInt_ofInt i h]

theorem printNumber_int {i : Int} (h : IsInt i) :
    printNumber (CDouble.ofInt i : double) i = decimalText i := by
  have hmax : IsInt (2 ^ 31 - 1) := ⟨by decide, by decide⟩
  have hmin : IsInt (-2 ^ 31) := ⟨by decide, by decide⟩
  have hle : i <= 2 ^ 31 - 1 := by
    rcases h with ⟨_, hhigh⟩
    omega
  unfold printNumber
  rw [if_pos ⟨LawfulDouble.sub_self i h, LawfulDouble.le_ofInt _ _ h hmax hle,
    LawfulDouble.le_ofInt _ _ hmin h h.left⟩]

theorem denotes_printNumber {i : Int} (h : IsInt i) :
    Denotes (.value (.number (CDouble.ofInt i) i) : Node double)
      (printNumber (CDouble.ofInt i : double) i) := by
  rw [printNumber_int h, ← decimalNumber_text, ← decimalNumber_item h]
  exact .number (decimalNumber i) (decimalNumber_complete i)

end Numbers

end CJson
end Lepd
