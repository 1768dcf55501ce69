import Lepd.CJson.StringStop
import Lepd.CJson.Transcoding

/-!
# The room of a string

The counting pass allocates one byte for each of its units and one more for the
terminator.  This module compares that with what the copying pass stores.  The
comparison follows both readings of one body at once: after a `\u` escape the
copying pass may resume in the middle of a unit of the counting pass.
-/

namespace Lepd
namespace CJson

open Foundation
open Foundation.Scan

/-!
# Counting units
-/

/-- The counting units that are whole in the bytes, and if a backslash without
successor is left. -/
def countUnits : List UInt8 -> Nat × Bool
  | [] => (0, false)
  | [c] => if c = backslash then (0, true) else (1, false)
  | c :: d :: text =>
      if c = backslash then ((countUnits text).1 + 1, (countUnits text).2)
      else ((countUnits (d :: text)).1 + 1, (countUnits (d :: text)).2)

/-- The backslash that is left. -/
def pending (ahead : Bool) : List UInt8 :=
  if ahead then [backslash] else []

theorem countUnits_plain {c : UInt8} (hc : c ≠ backslash) (text : List UInt8) :
    countUnits (c :: text) = ((countUnits text).1 + 1, (countUnits text).2) := by
  cases text with
  | nil => simp only [countUnits, if_neg hc]
  | cons d text => rw [countUnits, if_neg hc]

theorem CountBody.units {x body : List UInt8} {n : Nat}
    (h : CountBody (x ++ body) n) :
    exists m, n = (countUnits x).1 + m ∧
      CountBody (pending (countUnits x).2 ++ body) m := by
  fun_induction countUnits x generalizing n with
  | case1 =>
      exact ⟨n, (Nat.zero_add n).symm, h⟩
  | case2 =>
      exact ⟨n, (Nat.zero_add n).symm, h⟩
  | case3 c hc =>
      cases h with
      | plain _ hbody => exact ⟨_, Nat.add_comm _ _, hbody⟩
      | escape _ => exact absurd rfl hc
  | case4 d text ih =>
      cases h with
      | plain hplain _ => exact absurd rfl hplain.right.right
      | escape hbody =>
          rcases ih hbody with ⟨m, hm, hrest⟩
          exact ⟨m, by omega, hrest⟩
  | case5 c d text hc ih =>
      cases h with
      | plain _ hbody =>
          rcases ih hbody with ⟨m, hm, hrest⟩
          exact ⟨m, by omega, hrest⟩
      | escape _ => exact absurd rfl hc

theorem countUnits_le (x : List UInt8) : x.length <= 2 * (countUnits x).1 + 1 := by
  fun_induction countUnits x with
  | case1 => exact Nat.zero_le _
  | case2 => exact Nat.le_refl _
  | case3 c hc => exact Nat.le_add_left 1 2
  | case4 d text ih =>
      rw [List.length_cons, List.length_cons]
      omega
  | case5 c d text hc ih =>
      rw [List.length_cons]
      omega

theorem countUnits_two {a b c d : UInt8} (h : (countUnits [a, b, c, d]).1 = 2) :
    a = backslash ∨ b = backslash := by
  by_contra hnone
  rw [not_or] at hnone
  rw [countUnits_plain hnone.left, countUnits_plain hnone.right] at h
  have hrest := countUnits_le [c, d]
  rw [List.length_cons, List.length_singleton] at hrest
  dsimp only at h
  omega

/-!
# What an escape stores
-/

theorem utf8Length_two {uc : UInt32} (h : uc < 0x800) : utf8Length uc <= 2 := by
  unfold utf8Length
  split
  · exact Nat.le_succ 1
  · exact Nat.le_refl 2

theorem utf8Length_three {uc : UInt32} (hlow : ¬ uc < 0x800) (h : uc < 0x10000) :
    utf8Length uc = 3 := by
  unfold utf8Length
  have h80 : ¬ uc < 0x80 := fun h80 => hlow (UInt32.lt_trans h80 (by decide))
  rw [if_neg h80, if_neg hlow, if_pos h]

theorem utf8Length_four {uc : UInt32} (h : ¬ uc < 0x10000) : utf8Length uc = 4 := by
  unfold utf8Length
  have h80 : ¬ uc < 0x80 := fun h80 => h (UInt32.lt_trans h80 (by decide))
  have h800 : ¬ uc < 0x800 := fun h800 => h (UInt32.lt_trans h800 (by decide))
  rw [if_neg h80, if_neg h800, if_neg h]

theorem scanInto_eq {cell : Option UInt32} {text : List UInt8} {uc : UInt32}
    (h : scanInto cell text = .ok uc) : (sscanf4x text).or cell = some uc := by
  unfold scanInto at h
  split at h
  · cases h
  · cases hvalue : (sscanf4x text).or cell with
    | none =>
        rw [hvalue] at h
        cases h
    | some v =>
        rw [hvalue] at h
        cases h
        rfl

/-- A single escape stores what its code asks for, unless the code is refused. -/
theorem transcode_single_le {cells : Cells} {text : List UInt8}
    {done : Transcoded} {uc : UInt32}
    (h : transcode cells text = .ok done) (hpair : done.pair = false)
    (hscan : scanInto cells.uc text = .ok uc) :
    done.bytes.length <= utf8Length uc := by
  rcases transcode_cases h with ⟨uc', hscan', hcase⟩
  rw [hscan] at hscan'
  cases hscan'
  rcases hcase with ⟨_, rfl⟩ | ⟨_, _, _, _, _, rfl⟩ | ⟨_, _, _, _, _, rfl⟩ | rfl
  · exact Nat.zero_le _
  · cases hpair
  · cases hpair
  · rw [storeCode_bytes_length]

def Scalar (uc : UInt32) : Prop :=
  uc ≠ 0 ∧ (uc < 0xD800 ∨ 0xDFFF < uc)

theorem transcode_scalar {cells : Cells} {text : List UInt8} {done : Transcoded}
    {uc : UInt32}
    (h : transcode cells text = .ok done) (hscan : scanInto cells.uc text = .ok uc)
    (huc : Scalar uc) : done = storeCode uc cells.uc2 false := by
  have hvalid : ¬ ((0xDC00 <= uc ∧ uc <= 0xDFFF) ∨ uc = 0) := by
    rintro (hlow | hzero)
    · rcases huc.right with hsmall | hlarge
      · exact absurd (UInt32.lt_of_le_of_lt hlow.left hsmall) (by decide)
      · exact absurd hlow.right (UInt32.not_le.mpr hlarge)
    · exact huc.left hzero
  have hhigh : ¬ (0xD800 <= uc ∧ uc <= 0xDBFF) := by
    rintro ⟨hmin, hmax⟩
    rcases huc.right with hsmall | hlarge
    · exact absurd hmin (UInt32.not_le.mpr hsmall)
    · exact absurd (UInt32.lt_of_lt_of_le hlarge hmax) (by decide)
  rw [transcode_single hscan hvalid hhigh] at h
  cases h
  rfl

theorem scalar_wide {uc : UInt32} (h : ¬ uc < 0x10000) : Scalar uc := by
  have hle := UInt32.not_lt.mp h
  refine ⟨?_, Or.inr (UInt32.lt_of_lt_of_le (by decide) hle)⟩
  rintro rfl
  exact h (by decide)

theorem hexDigits_backslash (width : Nat) (text : List UInt8) :
    hexDigits width (backslash :: text) = [] := by
  cases width with
  | zero => rfl
  | succ width => rfl

theorem scanHex_backslash (width : Nat) (text : List UInt8) :
    scanHex width (backslash :: text) = none := by
  show hexNumber (hexDigits width (backslash :: text)) = none
  rw [hexDigits_backslash]
  rfl

theorem scanHex_one {width n : Nat} {c : UInt8} {text : List UInt8}
    (h : scanHex width (c :: backslash :: text) = some n) : n < 16 := by
  have hone : hexNumber (hexDigits width (c :: backslash :: text)) = some n := by
    unfold scanHex at h
    split at h
    · next x rest heq =>
        cases heq
        exact h
    · exact h
  have hlength : (hexDigits width (c :: backslash :: text)).length <= 1 := by
    cases width with
    | zero => exact Nat.zero_le 1
    | succ width =>
        rw [hexDigits]
        split
        · rw [hexDigits_backslash]
          exact Nat.le_refl 1
        · exact Nat.zero_le 1
  exact hexNumber_lt hexDigits_lt hlength hone

/-- With a backslash among its first two bytes, an escape has one digit at most. -/
theorem sscanf4x_backslash {a b : UInt8} {text : List UInt8} {v : UInt32}
    (hback : a = backslash ∨ b = backslash)
    (h : sscanf4x (a :: b :: text) = some v) :
    v < 0x10 := by
  have hnone : forall rest, sscanf4x (backslash :: rest) = none := by
    intro rest
    show (scanHex 4 (backslash :: rest)).map UInt32.ofNat = none
    rw [scanHex_backslash]
    rfl
  by_cases ha : a = backslash
  · rw [ha, hnone] at h
    cases h
  · rw [hback.resolve_left ha] at h
    by_cases hspace : isspace a = true
    · have hskip : sscanf4x (a :: backslash :: text) =
          sscanf4x (backslash :: text) := by
        unfold sscanf4x
        rw [List.dropWhile_cons_of_pos hspace]
      rw [hskip, hnone] at h
      cases h
    · unfold sscanf4x at h
      rw [List.dropWhile_cons_of_neg hspace] at h
      split at h
      · next heq =>
          cases heq
          rw [scanHex_backslash] at h
          cases h
      · next heq =>
          cases heq
          rw [scanHex_backslash] at h
          cases h
      · rcases Option.map_eq_some_iff.mp h with ⟨n, hn, rfl⟩
        have hlt := scanHex_one hn
        rw [UInt32.lt_iff_toNat_lt, UInt32.toNat_ofNat_of_lt'
          (Nat.lt_trans hlt (by decide))]
        exact hlt

theorem sscanf4x_negative {text : List UInt8} {v : UInt32}
    (h : sscanf4x text = some v)
    (hv : ¬ v < 0x10000) : 0x20000000 <= v := by
  unfold sscanf4x at h
  split at h
  · rcases Option.map_eq_some_iff.mp h with ⟨n, hn, rfl⟩
    have hlt := scanHex_lt hn
    rw [UInt32.lt_iff_toNat_lt] at hv
    rw [UInt32.le_iff_toNat_le]
    rw [UInt32.toNat_sub, UInt32.toNat_ofNat_of_lt'
      (Nat.lt_trans hlt (by decide))] at hv ⊢
    simp only [UInt32.reduceToNat] at hv ⊢
    omega
  · rcases Option.map_eq_some_iff.mp h with ⟨n, hn, rfl⟩
    exact absurd (ofNat_lt_of_lt (Nat.lt_trans (scanHex_lt hn) (by decide))) hv
  · rcases Option.map_eq_some_iff.mp h with ⟨n, hn, rfl⟩
    exact absurd (ofNat_lt_of_lt (scanHex_lt hn)) hv

/-!
# The code that is left
-/

/-- What is left in `uc` of a code of four bytes, or of one that was left: large
if it takes three. -/
def Shifted (large : Bool) (cells : Cells) : Prop :=
  exists uc, cells.uc = some uc ∧ uc < 0x4000 ∧ (large = true <-> 0x800 <= uc)

theorem Shifted.narrow {large : Bool} {cells : Cells} (h : Shifted large cells) :
    Narrow cells := by
  rcases h with ⟨uc, huc, hlt, _⟩
  intro v hv
  rw [huc] at hv
  cases hv
  exact UInt32.lt_trans hlt (by decide)

theorem shifted_wide {uc : UInt32} (uc2 : Option UInt32) (h : ¬ uc < 0x10000) :
    Shifted (decide (0x20000000 <= uc)) (storeCode uc uc2 false).cells := by
  refine ⟨uc >>> 6 >>> 6 >>> 6, ?_, ?_, ?_⟩
  · unfold storeCode
    rw [utf8Length_four h]
    rfl
  · have huc := uc.toNat_lt
    rw [UInt32.lt_iff_toNat_lt]
    simp only [shift_toNat, UInt32.reduceToNat]
    omega
  · rw [decide_eq_true_iff, UInt32.le_iff_toNat_le, UInt32.le_iff_toNat_le]
    simp only [shift_toNat, UInt32.reduceToNat]
    omega

theorem shifted_three {uc : UInt32} (uc2 : Option UInt32) (hlow : ¬ uc < 0x800)
    (h : uc < 0x10000) : Shifted false (storeCode uc uc2 false).cells := by
  refine ⟨uc >>> 6 >>> 6, ?_, ?_, ?_⟩
  · unfold storeCode
    rw [utf8Length_three hlow h]
    rfl
  · rw [UInt32.lt_iff_toNat_lt] at h ⊢
    simp only [shift_toNat, UInt32.reduceToNat] at h ⊢
    omega
  · rw [UInt32.lt_iff_toNat_lt] at h
    rw [UInt32.le_iff_toNat_le]
    simp only [shift_toNat, UInt32.reduceToNat] at h ⊢
    exact ⟨fun hfalse => (nomatch hfalse), fun hle => by omega⟩

/-!
# One escape
-/

theorem transcode_number {cells : Cells} {done : Transcoded} {text : List UInt8}
    {v : UInt32}
    (h : transcode cells text = .ok done) (hnumber : sscanf4x text = some v) :
    scanInto cells.uc text = .ok v := by
  rcases transcode_cases h with ⟨uc, hscan, _⟩
  have hvalue := scanInto_eq hscan
  rw [hnumber, Option.some_or] at hvalue
  cases hvalue
  exact hscan

theorem transcode_no_number {cells : Cells} {done : Transcoded}
    {text : List UInt8} {uc : UInt32}
    (h : transcode cells text = .ok done) (hnumber : sscanf4x text = none)
    (hcells : cells.uc = some uc) : scanInto cells.uc text = .ok uc := by
  rcases transcode_cases h with ⟨uc', hscan, _⟩
  have hvalue := scanInto_eq hscan
  rw [hnumber, Option.none_or, hcells] at hvalue
  cases hvalue
  exact hscan

/-- The bytes of an escape are no more than its units, unless `uc` held a code
of four bytes. -/
theorem transcode_room {cells : Cells} {done : Transcoded} {a b c d : UInt8}
    {text : List UInt8}
    (h : transcode cells (a :: b :: c :: d :: text) = .ok done)
    (hpair : done.pair = false)
    (hnarrow : sscanf4x (a :: b :: c :: d :: text) = none -> Narrow cells) :
    done.bytes.length <= (countUnits [a, b, c, d]).1 + 1 := by
  have hunits := countUnits_le [a, b, c, d]
  have hfour : [a, b, c, d].length = 4 := rfl
  rcases transcode_cases h with ⟨uc, hscan, _⟩
  have hle := transcode_single_le h hpair hscan
  by_cases hwide : uc < 0x10000
  · have hthree := utf8Length_le_three hwide
    omega
  · cases hnumber : sscanf4x (a :: b :: c :: d :: text) with
    | none =>
        have hvalue := scanInto_eq hscan
        rw [hnumber, Option.none_or] at hvalue
        exact absurd (hnarrow hnumber uc hvalue) hwide
    | some v =>
        have hmany : (countUnits [a, b, c, d]).1 ≠ 2 := by
          intro htwo
          have hvalue := scanInto_eq hscan
          rw [hnumber, Option.some_or] at hvalue
          cases hvalue
          have hsmall := sscanf4x_backslash (countUnits_two htwo) hnumber
          exact hwide (UInt32.lt_trans hsmall (by decide))
        have hbytes := utf8Length_le_four uc
        omega

/--
With what is left in its variable, an escape stores as many bytes as it has
units if it has two of them and takes the three bytes that are left, or has
three of them and a number with a minus sign.
-/
theorem transcode_full {large : Bool} {cells : Cells} {done : Transcoded}
    {a b c d : UInt8}
    {text : List UInt8} (h : transcode cells (a :: b :: c :: d :: text) = .ok done)
    (hpair : done.pair = false) (hcells : Shifted large cells) :
    (done.bytes.length = (countUnits [a, b, c, d]).1 + 1 ->
      (sscanf4x (a :: b :: c :: d :: text) = none ∧
        (countUnits [a, b, c, d]).1 = 2 ∧ large = true) ∨
        exists v, sscanf4x (a :: b :: c :: d :: text) = some v ∧ 0x10000 <= v ∧
          (countUnits [a, b, c, d]).1 = 3) := by
  have hunits := countUnits_le [a, b, c, d]
  have hfour : [a, b, c, d].length = 4 := rfl
  rcases transcode_cases h with ⟨uc, hscan, _⟩
  have hle := transcode_single_le h hpair hscan
  have hvalue := scanInto_eq hscan
  intro hfull
  cases hnumber : sscanf4x (a :: b :: c :: d :: text) with
  | none =>
      rcases hcells with ⟨left, hleft, hlt, hlarge⟩
      rw [hnumber, Option.none_or, hleft] at hvalue
      cases hvalue
      have hthree := utf8Length_le_three (UInt32.lt_trans hlt (by decide))
      refine Or.inl
        ⟨rfl, by omega, hlarge.mpr (UInt32.not_lt.mp (fun hsmall => ?_))⟩
      have htwo := utf8Length_two hsmall
      omega
  | some v =>
      rw [hnumber, Option.some_or] at hvalue
      cases hvalue
      have hmany : uc < 0x800 ∨ (countUnits [a, b, c, d]).1 ≠ 2 := by
        by_cases htwo : (countUnits [a, b, c, d]).1 = 2
        · exact Or.inl
            (UInt32.lt_trans (sscanf4x_backslash (countUnits_two htwo) hnumber)
            (by decide))
        · exact Or.inr htwo
      have hbytes := utf8Length_le_four uc
      refine Or.inr ⟨uc, rfl, UInt32.not_lt.mp (fun hnarrow => ?_), ?_⟩
      · have hthree := utf8Length_le_three hnarrow
        rcases hmany with hsmall | hmany
        · have htwo := utf8Length_two hsmall
          omega
        · omega
      · rcases hmany with hsmall | hmany
        · have htwo := utf8Length_two hsmall
          omega
        · omega

theorem transcode_unset {cells : Cells} {done : Transcoded} {text : List UInt8}
    (h : transcode cells text = .ok done) (hnumber : sscanf4x text = none)
    (hcells : Shifted true cells) :
    done.bytes.length = 3 ∧ done.pair = false ∧ Shifted false done.cells := by
  rcases hcells with ⟨uc, hleft, hlt, hlarge⟩
  have hscan := transcode_no_number h hnumber hleft
  have hlow : ¬ uc < 0x800 := UInt32.not_lt.mpr (hlarge.mp rfl)
  have hscalar : Scalar uc := by
    refine ⟨?_, Or.inl (UInt32.lt_trans hlt (by decide))⟩
    rintro rfl
    exact hlow (by decide)
  have hnarrow : uc < 0x10000 := UInt32.lt_trans hlt (by decide)
  rw [transcode_scalar h hscan hscalar]
  exact ⟨by rw [storeCode_bytes_length, utf8Length_three hlow hnarrow], rfl,
    shifted_three _ hlow hnarrow⟩

theorem transcode_wide {cells : Cells} {done : Transcoded} {text : List UInt8}
    {uc : UInt32}
    (h : transcode cells text = .ok done) (hscan : scanInto cells.uc text = .ok uc)
    (huc : ¬ uc < 0x10000) :
    done.bytes.length = 4 ∧ done.pair = false ∧
      Shifted (decide (0x20000000 <= uc)) done.cells := by
  rw [transcode_scalar h hscan (scalar_wide huc)]
  exact ⟨by rw [storeCode_bytes_length,
    utf8Length_four huc], rfl, shifted_wide _ huc⟩

/-- The first escape of a pair has a number in the upper half of the surrogates. -/
theorem transcode_pair_high {cells : Cells} {done : Transcoded} {text : List UInt8}
    {uc : UInt32} (h : transcode cells text = .ok done) (hpair : done.pair = true)
    (hscan : scanInto cells.uc text = .ok uc) : 0xD800 <= uc ∧ uc <= 0xDBFF := by
  by_contra hhigh
  by_cases hinvalid : (0xDC00 <= uc ∧ uc <= 0xDFFF) ∨ uc = 0
  · rw [transcode_invalid hscan hinvalid] at h
    cases h
    cases hpair
  · rw [transcode_single hscan hinvalid hhigh] at h
    cases h
    cases hpair

/-!
# A whole body
-/

/-- The units of the counting pass that the bytes of one unit of the copying
pass complete. -/
def unitsOf (ahead : Bool) (unit : List UInt8) : Nat × Bool :=
  countUnits (pending ahead ++ unit)

theorem CountBody.unit {ahead : Bool} {n : Nat} (unit : List UInt8)
    {body : List UInt8}
    (h : CountBody (pending ahead ++ (unit ++ body)) n) :
    exists m, n = (unitsOf ahead unit).1 + m ∧
      CountBody (pending (unitsOf ahead unit).2 ++ body) m := by
  rw [← List.append_assoc] at h
  exact h.units

theorem unitsOf_plain {c : UInt8} (hc : Plain c) (ahead : Bool) :
    unitsOf ahead [c] = (1, false) := by
  cases ahead with
  | false => exact if_neg hc.right.right
  | true => rfl

theorem unitsOf_escape (d : UInt8) :
    unitsOf false [backslash, d] = (1, false) ∧
      unitsOf true [backslash, d] = if d = backslash then (1, true)
        else (2, false) := by
  refine ⟨rfl, ?_⟩
  show ((countUnits [d]).1 + 1, (countUnits [d]).2) = _
  rw [countUnits]
  split
  · rfl
  · rfl

theorem unitsOf_unicode (ahead : Bool) (text : List UInt8) :
    unitsOf ahead (backslash :: lowerU :: text) =
      ((countUnits text).1 + 1 + ahead.toNat, (countUnits text).2) := by
  cases ahead with
  | false =>
      rfl
  | true =>
      show ((countUnits (lowerU :: text)).1 + 1,
        (countUnits (lowerU :: text)).2) = _
      rw [countUnits_plain (by decide)]
      rfl

theorem unitsOf_pair (ahead : Bool) (a b c d e f g h i j : UInt8) :
    6 <= (unitsOf ahead [backslash, lowerU, a, b, c, d, e, f, g, h, i, j]).1 := by
  have hunits := countUnits_le [a, b, c, d, e, f, g, h, i, j]
  have hten : [a, b, c, d, e, f, g, h, i, j].length = 10 := rfl
  rw [unitsOf_unicode]
  dsimp only
  omega

/--
What the copying pass stores for a body is no more than the units of the
counting pass, also where that one is in the middle of a unit.
-/
theorem copyBody_room {cells : Cells} {body after out : List UInt8}
    (h : CopyBody cells body after out) (hnarrow : Narrow cells) :
    forall {ahead : Bool} {n : Nat}, CountBody (pending ahead ++ body) n ->
      out.length <= n := by
  induction h with
  | nil =>
      intro ahead n _
      exact Nat.zero_le n
  | @plain cells c body after out hplain _ ih =>
      intro ahead n hcount
      rcases hcount.unit [c] with ⟨m, rfl, hrest⟩
      have hout := ih hnarrow hrest
      rw [unitsOf_plain hplain, List.length_cons]
      dsimp only
      omega
  | @escape cells d body after out hd _ ih =>
      intro ahead n hcount
      rcases hcount.unit [backslash, d] with ⟨m, rfl, hrest⟩
      have hout := ih hnarrow hrest
      have hone : 1 <= (unitsOf ahead [backslash, d]).1 := by
        cases ahead with
        | false => exact Nat.le_refl 1
        | true =>
            rw [(unitsOf_escape d).right]
            split <;> decide
      rw [List.length_cons]
      omega
  | @unicode cells done a b c d body after out hdone hpair _ ih =>
      intro ahead n hcount
      rcases hcount.unit [backslash, lowerU, a, b, c, d] with ⟨m, rfl, hrest⟩
      have hout := ih (transcode_narrow hdone) hrest
      have hroom := transcode_room hdone hpair (fun _ => hnarrow)
      rw [List.length_append, unitsOf_unicode]
      dsimp only
      omega
  | @surrogates cells done a b c d e f g h i j body after out hdone hpair _ ih =>
      intro ahead n hcount
      rcases hcount.unit [backslash, lowerU, a, b, c, d, e, f, g, h, i, j]
        with ⟨m, rfl, hrest⟩
      have hout := ih (transcode_narrow hdone) hrest
      have hunits := unitsOf_pair ahead a b c d e f g h i j
      have hbytes := transcode_bytes_le hdone
      rw [List.length_append]
      omega

/-!
# No room is left
-/

/--
The bytes take all of the units counted for them, when `uc` holds what is left
of a code of four bytes: only escapes without a number that have two units and
take the three bytes of a large rest, and escapes with a minus sign that have
three units.
-/
inductive Full : Bool -> Bool -> List UInt8 -> Prop where
  | stop {large : Bool} {text : List UInt8} : AtDelimiter text ->
      Full large false text
  | plain {large ahead : Bool} {c : UInt8} {text : List UInt8} :
      Plain c -> Full large false text -> Full large ahead (c :: text)
  | escape {large : Bool} {d : UInt8} {text : List UInt8} :
      d ≠ lowerU -> Full large false text ->
        Full large false (backslash :: d :: text)
  | backslashes {large : Bool} {text : List UInt8} :
      Full large true text -> Full large true (backslash :: backslash :: text)
  | unset {a b c d : UInt8} {text : List UInt8} {ahead : Bool} :
      sscanf4x (a :: b :: c :: d :: text) = none -> countUnits [a, b, c, d] =
        (2, ahead) ->
      Full false ahead text ->
      Full true false (backslash :: lowerU :: a :: b :: c :: d :: text)
  | negative {large : Bool} {a b c d : UInt8} {text : List UInt8} {v : UInt32}
      {ahead : Bool} :
      sscanf4x (a :: b :: c :: d :: text) = some v -> 0x10000 <= v ->
      countUnits [a, b, c, d] = (3, ahead) -> Full true ahead text ->
      Full large false (backslash :: lowerU :: a :: b :: c :: d :: text)

/--
The bytes take more than the units counted for them: the first escape has no
number and only two units, `uc` holds a code of four bytes, and everything
behind it takes all of its units.
-/
inductive Overfull (large : Bool) : List UInt8 -> Prop where
  | plain {c : UInt8} {text : List UInt8} : Plain c -> Overfull large text ->
      Overfull large (c :: text)
  | escape {d : UInt8} {text : List UInt8} :
      d ≠ lowerU -> Overfull large text -> Overfull large (backslash :: d :: text)
  | unset {a b c d : UInt8} {text : List UInt8} {ahead : Bool} :
      sscanf4x (a :: b :: c :: d :: text) = none -> countUnits [a, b, c, d] =
        (2, ahead) ->
      Full large ahead text -> Overfull large (backslash :: lowerU :: a :: b ::
        c :: d :: text)

theorem full_of_copyBody {cells : Cells} {body after out : List UInt8}
    (h : CopyBody cells body after out) (hafter : AtDelimiter after) :
    forall {large ahead : Bool}, Shifted large cells ->
      CountBody (pending ahead ++ body) out.length ->
      Full large ahead (body ++ after) := by
  induction h with
  | nil =>
      intro large ahead _ hcount
      cases ahead with
      | false => exact .stop hafter
      | true =>
          cases hcount
  | @plain cells c body after out hplain hbody ih =>
      intro large ahead hcells hcount
      rcases hcount.unit [c] with ⟨m, hm, hrest⟩
      rw [unitsOf_plain hplain] at hm hrest
      have heq : m = out.length := by
        rw [List.length_cons] at hm
        dsimp only at hm
        omega
      exact .plain hplain (ih hafter hcells (heq ▸ hrest))
  | @escape cells d body after out hd hbody ih =>
      intro large ahead hcells hcount
      rcases hcount.unit [backslash, d] with ⟨m, hm, hrest⟩
      have hout := copyBody_room hbody hcells.narrow hrest
      rw [List.length_cons] at hm
      cases ahead with
      | false =>
          rw [(unitsOf_escape d).left] at hm hrest
          dsimp only at hm
          have heq : m = out.length := by omega
          exact .escape hd (ih hafter hcells (heq ▸ hrest))
      | true =>
          rw [(unitsOf_escape d).right] at hm hrest
          by_cases hback : d = backslash
          · rw [if_pos hback] at hm hrest
            dsimp only at hm
            have heq : m = out.length := by omega
            rw [hback]
            exact .backslashes (ih hafter hcells (heq ▸ hrest))
          · rw [if_neg hback] at hm
            dsimp only at hm
            omega
  | @unicode cells done a b c d body after out hdone hpair hbody ih =>
      intro large ahead hcells hcount
      rcases hcount.unit [backslash, lowerU, a, b, c, d] with ⟨m, hm, hrest⟩
      have hout := copyBody_room hbody (transcode_narrow hdone) hrest
      have hroom := transcode_room hdone hpair (fun _ => hcells.narrow)
      rw [List.length_append, unitsOf_unicode] at hm
      rw [unitsOf_unicode] at hrest
      dsimp only at hm hrest
      cases ahead with
      | true =>
          rw [Bool.toNat_true] at hm
          omega
      | false =>
          rw [Bool.toNat_false] at hm
          have heq : m = out.length := by omega
          rw [heq] at hrest
          have hpart : (countUnits [a, b, c, d]) =
            ((countUnits [a, b, c, d]).1, (countUnits [a, b, c, d]).2) := rfl
          rcases transcode_full hdone hpair hcells (by omega) with
            ⟨hnumber, htwo, hlarge⟩ | ⟨v, hnumber, hv, hthree⟩
          · rw [hlarge] at hcells ⊢
            rw [htwo] at hpart
            have hshifted := (transcode_unset hdone hnumber hcells).right.right
            exact .unset hnumber hpart (ih hafter hshifted hrest)
          · rw [hthree] at hpart
            have hwide := transcode_wide hdone (transcode_number hdone hnumber)
              (UInt32.not_lt.mpr hv)
            have hshifted := hwide.right.right
            rw [decide_eq_true (sscanf4x_negative hnumber
              (UInt32.not_lt.mpr hv))] at hshifted
            exact .negative hnumber hv hpart (ih hafter hshifted hrest)
  | @surrogates cells done a b c d e f g h i j body after out hdone hpair hbody
      ih =>
      intro large ahead hcells hcount
      rcases hcount.unit [backslash, lowerU, a, b, c, d, e, f, g, h, i, j]
        with ⟨m, hm, hrest⟩
      have hout := copyBody_room hbody (transcode_narrow hdone) hrest
      have hunits := unitsOf_pair ahead a b c d e f g h i j
      have hbytes := transcode_bytes_le hdone
      rw [List.length_append] at hm
      omega

theorem not_atDelimiter_backslash (text : List UInt8) :
    ¬ AtDelimiter (backslash :: text) := by
  rintro ⟨c, rest, heq, hquote | hnul⟩
  · cases heq
    cases hquote
  · cases heq
    cases hnul

theorem Full.of_plain {large ahead : Bool} {c : UInt8} {text : List UInt8}
    (h : Full large ahead (c :: text)) (hc : Plain c) : Full large false text := by
  cases h with
  | stop hstop =>
      rcases hstop with ⟨_, _, heq, hquote | hnul⟩
      · cases heq
        exact absurd hquote hc.left
      · cases heq
        exact absurd hnul hc.right.left
  | plain _ h => exact h
  | escape _ _ => exact absurd rfl hc.right.right
  | backslashes _ => exact absurd rfl hc.right.right
  | unset _ _ _ => exact absurd rfl hc.right.right
  | negative _ _ _ _ => exact absurd rfl hc.right.right

theorem Full.of_escape {large ahead : Bool} {d : UInt8} {text : List UInt8}
    (h : Full large ahead (backslash :: d :: text)) (hd : d ≠ lowerU) :
    Full large ahead text ∧ (ahead = true -> d = backslash) := by
  cases h with
  | stop hstop => exact absurd hstop (not_atDelimiter_backslash _)
  | plain hback _ => exact absurd rfl hback.right.right
  | escape _ h => exact ⟨h, fun hahead => (nomatch hahead)⟩
  | backslashes h => exact ⟨h, fun _ => rfl⟩
  | unset _ _ _ => exact absurd rfl hd
  | negative _ _ _ _ => exact absurd rfl hd

theorem Full.of_unicode {large ahead : Bool} {a b c d : UInt8} {text : List UInt8}
    (h : Full large ahead (backslash :: lowerU :: a :: b :: c :: d :: text)) :
    ahead = false ∧ exists ahead',
      (sscanf4x (a :: b :: c :: d :: text) = none ∧ countUnits [a, b, c, d] =
        (2, ahead') ∧
        large = true ∧ Full false ahead' text) ∨
      exists v, sscanf4x (a :: b :: c :: d :: text) = some v ∧ 0x10000 <= v ∧
        countUnits [a, b, c, d] = (3, ahead') ∧ Full true ahead' text := by
  cases h with
  | stop hstop => exact absurd hstop (not_atDelimiter_backslash _)
  | plain hback _ => exact absurd rfl hback.right.right
  | escape hd _ => exact absurd rfl hd
  | unset hnumber hunits h => exact ⟨rfl, _, Or.inl ⟨hnumber, hunits, rfl, h⟩⟩
  | negative hnumber hv hunits h =>
      exact ⟨rfl, _, Or.inr ⟨_, hnumber, hv, hunits, h⟩⟩

theorem length_of_full {cells : Cells} {body after out : List UInt8}
    (h : CopyBody cells body after out) :
    forall {large ahead : Bool} {n : Nat}, Shifted large cells ->
      CountBody (pending ahead ++ body) n -> Full large ahead (body ++ after) ->
        n <= out.length := by
  induction h with
  | nil =>
      intro large ahead n hcells hcount hfull
      cases ahead with
      | false =>
          cases hcount
          exact Nat.le_refl 0
      | true =>
          cases hcount with
          | plain hback _ => exact absurd rfl hback.right.right
  | @plain cells c body after out hplain hbody ih =>
      intro large ahead n hcells hcount hfull
      rcases hcount.unit [c] with ⟨m, rfl, hrest⟩
      rw [unitsOf_plain hplain] at hrest ⊢
      have hout := ih hcells hrest (Full.of_plain hfull hplain)
      rw [List.length_cons]
      dsimp only
      omega
  | @escape cells d body after out hd hbody ih =>
      intro large ahead n hcells hcount hfull
      rcases hcount.unit [backslash, d] with ⟨m, rfl, hrest⟩
      rcases Full.of_escape hfull hd with ⟨hnext, hback⟩
      have hone : unitsOf ahead [backslash, d] = (1, ahead) := by
        cases ahead with
        | false => exact (unitsOf_escape d).left
        | true =>
            rw [(unitsOf_escape d).right, if_pos (hback rfl)]
      rw [hone] at hrest ⊢
      have hout := ih hcells hrest hnext
      rw [List.length_cons]
      dsimp only
      omega
  | @unicode cells done a b c d body after out hdone hpair hbody ih =>
      intro large ahead n hcells hcount hfull
      rcases hcount.unit [backslash, lowerU, a, b, c, d] with ⟨m, rfl, hrest⟩
      rw [unitsOf_unicode] at hrest ⊢
      rw [List.length_append]
      dsimp only at hrest ⊢
      rcases Full.of_unicode hfull with
        ⟨rfl, ahead', ⟨hnumber, hunits, rfl, hnext⟩ |
        ⟨v, hnumber, hv, hunits, hnext⟩⟩
      · rcases transcode_unset hdone hnumber hcells with ⟨hbytes, _, hshifted⟩
        rw [hunits] at hrest ⊢
        have hout := ih hshifted hrest hnext
        rw [hbytes, Bool.toNat_false]
        omega
      · have hwide := UInt32.not_lt.mpr hv
        rcases transcode_wide hdone (transcode_number hdone hnumber) hwide with
          ⟨hbytes, _, hshifted⟩
        rw [decide_eq_true (sscanf4x_negative hnumber hwide)] at hshifted
        rw [hunits] at hrest ⊢
        have hout := ih hshifted hrest hnext
        rw [hbytes, Bool.toNat_false]
        omega
  | @surrogates cells done a b c d e f g h i j body after out hdone hpair hbody
      ih =>
      intro large ahead n hcells hcount hfull
      have hsingle : done.pair = false := by
        rcases Full.of_unicode hfull with
          ⟨rfl, ahead', ⟨hnumber, _, rfl, _⟩ | ⟨v, hnumber, hv, _, _⟩⟩
        · exact (transcode_unset hdone hnumber hcells).right.left
        · exact (transcode_wide hdone (transcode_number hdone hnumber)
            (UInt32.not_lt.mpr hv)).right.left
      rw [hpair] at hsingle
      cases hsingle

/-!
# An unset variable
-/

theorem Overfull.of_plain {large : Bool} {c : UInt8} {text : List UInt8}
    (h : Overfull large (c :: text)) (hc : Plain c) : Overfull large text := by
  cases h with
  | plain _ h => exact h
  | escape _ _ => exact absurd rfl hc.right.right
  | unset _ _ _ => exact absurd rfl hc.right.right

theorem Overfull.of_escape {large : Bool} {d : UInt8} {text : List UInt8}
    (h : Overfull large (backslash :: d :: text)) (hd : d ≠ lowerU) :
    Overfull large text := by
  cases h with
  | plain hback _ => exact absurd rfl hback.right.right
  | escape _ h => exact h
  | unset _ _ _ => exact absurd rfl hd

theorem Overfull.of_unicode {large : Bool} {a b c d : UInt8} {text : List UInt8}
    (h : Overfull large (backslash :: lowerU :: a :: b :: c :: d :: text)) :
    sscanf4x (a :: b :: c :: d :: text) = none ∧ exists ahead,
      countUnits [a, b, c, d] = (2, ahead) ∧ Full large ahead text := by
  cases h with
  | plain hback _ => exact absurd rfl hback.right.right
  | escape hd _ => exact absurd rfl hd
  | unset hnumber hunits h => exact ⟨hnumber, _, hunits, h⟩

/--
While `uc` holds a code of four bytes that it was not given here, the copying
pass stores more than the counting pass counts if and only if the bytes say so.
-/
theorem copyBody_overfull_iff {cells : Cells} {body after out : List UInt8}
    (h : CopyBody cells body after out) (hafter : AtDelimiter after) :
    forall {uc : UInt32} {n : Nat}, cells.uc = some uc -> ¬ uc < 0x10000 ->
      CountBody body n ->
      (n < out.length <-> Overfull (decide (0x20000000 <= uc))
        (body ++ after)) := by
  induction h with
  | nil =>
      intro uc n _ _ _
      constructor
      · intro hlt
        cases hlt
      · intro hover
        rcases hafter with ⟨c, rest, rfl, hc⟩
        cases hover with
        | plain hplain _ =>
            rcases hc with hquote | hnul
            · exact absurd hquote hplain.left
            · exact absurd hnul hplain.right.left
        | escape _ _ => rcases hc with hquote | hnul <;> contradiction
        | unset _ _ _ => rcases hc with hquote | hnul <;> contradiction
  | @plain cells c body after out hplain hbody ih =>
      intro uc n hcells huc hcount
      cases hcount with
      | plain _ hcount =>
          have hrest := ih hafter hcells huc hcount
          rw [List.length_cons, Nat.add_lt_add_iff_right, hrest]
          exact ⟨.plain hplain, fun hover => Overfull.of_plain hover hplain⟩
      | escape _ => exact absurd rfl hplain.right.right
  | @escape cells d body after out hd hbody ih =>
      intro uc n hcells huc hcount
      cases hcount with
      | plain hback _ => exact absurd rfl hback.right.right
      | escape hcount =>
          have hrest := ih hafter hcells huc hcount
          rw [List.length_cons, Nat.add_lt_add_iff_right, hrest]
          exact ⟨.escape hd, fun hover => Overfull.of_escape hover hd⟩
  | @unicode cells done a b c d body after out hdone hpair hbody ih =>
      intro uc n hcells huc hcount
      have hcount' :
          CountBody (pending false ++ ([backslash, lowerU, a, b, c, d] ++ body))
          n := hcount
      rcases hcount'.unit [backslash, lowerU, a, b, c, d] with ⟨m, rfl, hrest⟩
      have hout := copyBody_room hbody (transcode_narrow hdone) hrest
      rw [unitsOf_unicode] at hrest ⊢
      rw [List.length_append]
      dsimp only [Bool.toNat_false] at hrest ⊢
      cases hnumber : sscanf4x (a :: b :: c :: d :: (body ++ after)) with
      | none =>
          rcases transcode_wide hdone (transcode_no_number hdone hnumber hcells)
            huc with
            ⟨hbytes, _, hshifted⟩
          have hunits := countUnits_le [a, b, c, d]
          have hfour : [a, b, c, d].length = 4 := rfl
          rw [hbytes]
          constructor
          · intro hlt
            have htwo : (countUnits [a, b, c, d]).1 = 2 := by omega
            have heq : m = out.length := by omega
            have hpart : countUnits [a, b, c, d] =
                (2, (countUnits [a, b, c, d]).2) :=
              Prod.ext htwo rfl
            exact .unset hnumber hpart
              (full_of_copyBody hbody hafter hshifted (heq ▸ hrest))
          · intro hover
            rcases Overfull.of_unicode hover with ⟨_, ahead, hpart, hfull⟩
            rw [hpart] at hrest ⊢
            have hlength := length_of_full hbody hshifted hrest hfull
            dsimp only
            omega
      | some v =>
          have hroom := transcode_room hdone hpair
            (fun hnone => by rw [hnumber] at hnone; cases hnone)
          constructor
          · intro hlt
            omega
          · intro hover
            cases hnumber.symm.trans (Overfull.of_unicode hover).left
  | @surrogates cells done a b c d e f g h i j body after out hdone hpair hbody
      ih =>
      intro uc n hcells huc hcount
      have hcount' : CountBody
          (pending false ++
            ([backslash, lowerU, a, b, c, d, e, f, g, h, i, j] ++ body)) n := hcount
      rcases hcount'.unit [backslash, lowerU, a, b, c, d, e, f, g, h, i, j] with
        ⟨m, rfl, hrest⟩
      have hout := copyBody_room hbody (transcode_narrow hdone) hrest
      have hunits := unitsOf_pair false a b c d e f g h i j
      have hbytes := transcode_bytes_le hdone
      rw [List.length_append]
      constructor
      · intro hlt
        omega
      · intro hover
        have hscan := transcode_no_number hdone (Overfull.of_unicode hover).left
          hcells
        have hhigh := (transcode_pair_high hdone hpair hscan).right
        exact absurd (UInt32.lt_of_le_of_lt hhigh (by decide)) huc

/-!
# The allocation is large enough
-/

/--
On the text after an opening quote, the passes are defined and stop at the same
byte, and the bytes stored with their terminator fit the `len + 1` allocated.
-/
def PassesAgree (cells : Cells) (text : List UInt8) : Prop :=
  exists len out stop,
    countPass 0 text = .ok len stop ∧ copyPass cells [] text = .ok out stop ∧
      (out ++ [nul]).length <= len + 1

/-- A body that is made of plain bytes, escapes, and `\u` escapes with any four
bytes. -/
inductive Escapes : List UInt8 -> Prop where
  | nil : Escapes []
  | plain {c : UInt8} {body : List UInt8} : Plain c -> Escapes body ->
      Escapes (c :: body)
  | escape {d : UInt8} {body : List UInt8} :
      d ≠ lowerU -> Escapes body -> Escapes (backslash :: d :: body)
  | unicode {a b c d : UInt8} {body : List UInt8} :
      Escapes body -> Escapes (backslash :: lowerU :: a :: b :: c :: d :: body)

/--
The bytes up to a quote or NUL are made of whole units of either pass: of plain
bytes and pairs of a backslash and its successor, and of plain bytes and
escapes, where a `\u` has four bytes.
-/
def WholeUnits (text : List UInt8) : Prop :=
  exists body after len,
    text = body ++ after ∧ AtDelimiter after ∧ CountBody body len ∧ Escapes body

theorem transcode_pair_second {cells : Cells} {text : List UInt8}
    {done : Transcoded}
    (h : transcode cells text = .ok done) (hpair : done.pair = true) :
    exists second, text.drop 4 = backslash :: lowerU :: second := by
  rcases transcode_cases h with
    ⟨uc, _, ⟨_, rfl⟩ | ⟨second, _, hdrop, _⟩ | ⟨second, _, _, hdrop, _⟩ | rfl⟩
  · cases hpair
  · exact ⟨second, hdrop⟩
  · exact ⟨second, hdrop⟩
  · cases hpair

theorem escapes_of_copyBody {cells : Cells} {body after out : List UInt8}
    (h : CopyBody cells body after out) : Escapes body := by
  induction h with
  | nil => exact .nil
  | plain hplain _ ih => exact .plain hplain ih
  | escape hd _ ih => exact .escape hd ih
  | unicode _ _ _ ih => exact .unicode ih
  | surrogates hdone hpair _ ih =>
      rcases transcode_pair_second hdone hpair with ⟨second, hdrop⟩
      cases hdrop
      exact .unicode (.unicode ih)

theorem unitStop_of_escapes {body after : List UInt8} (h : Escapes body)
    (hafter : AtDelimiter after) : unitStop (body ++ after) = some after := by
  induction h with
  | nil =>
      rcases hafter with ⟨c, rest, rfl, hc⟩
      exact unitStop_stop hc rest
  | plain hplain _ ih => exact (unitStop_plain hplain _).trans ih
  | escape hd _ ih => exact (unitStop_escape hd _).trans ih
  | unicode _ ih => exact (unitStop_unicode _ _ _ _ _).trans ih

/-- The passes over whole units stop at the same byte, whatever the variables
hold. -/
theorem copyBody_of_wholeUnits {cells : Cells} (hcells : cells.Set)
    {body after : List UInt8}
    (hescapes : Escapes body) (hafter : AtDelimiter after)
    (hend : Ended (body ++ after)) :
    exists out, CopyBody cells body after out := by
  have hunit := unitStop_of_escapes hescapes hafter
  rcases copyPass_eq hcells hend [] with ⟨hnone, _⟩ | ⟨out, stop, hstop, hcopy⟩
  · rw [hunit] at hnone
    cases hnone
  · rw [hunit] at hstop
    cases hstop
    rcases copyPass_sound hcopy with ⟨body', new, hsplit, hbody, _, _⟩
    have hsame := List.append_cancel_right hsplit
    rw [← hsame] at hbody
    exact ⟨new, hbody⟩

/--
With any values in the variables, the passes over a string stop at the same byte
and its bytes fit if and only if it is made of whole units of both and, where
`uc` holds a code of four bytes, the bytes are not overfull.
-/
theorem parseString_passes_agree_iff (uc uc2 : UInt32) (text : List UInt8) :
    PassesAgree { uc := some uc, uc2 := some uc2 } (text ++ [nul]) <->
      WholeUnits (text ++ [nul]) ∧
        (0x10000 <= uc -> ¬ Overfull (decide (0x20000000 <= uc))
          (text ++ [nul])) := by
  constructor
  · rintro ⟨len, out, stop, hcount, hcopy, hroom⟩
    rcases countPass_sound hcount with ⟨body, k, htext, hbody, hk, hstop⟩
    rcases copyPass_sound hcopy with ⟨body', new, htext', hbody', hnew, _⟩
    have hsame : body' = body := List.append_cancel_right (htext'.symm.trans htext)
    rw [hsame] at hbody'
    refine ⟨⟨body, stop, k, htext, hstop, hbody, escapes_of_copyBody hbody'⟩,
      fun huc hover => ?_⟩
    rw [htext] at hover
    have hless :=
      (copyBody_overfull_iff hbody' hstop rfl (UInt32.not_lt.mpr huc) hbody).mpr
        hover
    rw [hnew, List.nil_append, List.length_append, List.length_singleton] at hroom
    omega
  · rintro ⟨⟨body, after, len, htext, hafter, hcount, hescapes⟩, hover⟩
    have hend : Ended (body ++ after) := by
      rw [← htext]
      intro c hc
      rw [List.getLast?_concat] at hc
      cases hc
      rfl
    have hset : Cells.Set { uc := some uc, uc2 := some uc2 } := ⟨rfl, rfl⟩
    rcases copyBody_of_wholeUnits hset hescapes hafter hend with ⟨out, hcopy⟩
    have hroom : out.length <= len := by
      by_cases huc : uc < 0x10000
      · have hnarrow : Narrow { uc := some uc, uc2 := some uc2 } := by
          intro v hv
          cases hv
          exact huc
        have hcount' : CountBody (pending false ++ body) len := hcount
        exact copyBody_room hcopy hnarrow hcount'
      · rw [htext] at hover
        rw [← Nat.not_lt, copyBody_overfull_iff hcopy hafter rfl huc hcount]
        exact hover (UInt32.not_lt.mp huc)
    rw [htext]
    refine ⟨len, out, after, ?_, ?_, ?_⟩
    · rw [countPass_complete hcount hafter, Nat.zero_add]
    · rw [copyPass_complete hcopy hafter, List.nil_append]
    · rw [List.length_append]
      exact Nat.succ_le_succ hroom

/-- A code of four bytes left in `uc` does not fit the three units of `\u\a\b`. -/
example : countPass 0 [92, 117, 92, 97, 92, 98, 0] = .ok 3 [0] ∧
    copyPass { uc := some 0x10000, uc2 := some 0 } [] [92, 117, 92, 97, 92, 98, 0] =
      .ok [240, 144, 128, 128] [0] := by
  decide

/-- The bytes of `\u41":12345678}`, as they follow an opening quote. -/
def shortEscape : List UInt8 :=
  [92, 117, 52, 49, 34, 58, 49, 50, 51, 52, 53, 54, 55, 56, 125]

/--
The copying pass jumps over the quote at which the counting pass stops, and
stores eleven bytes into an allocation of four.
-/
theorem parseString_overflow :
    ¬ PassesAgree { uc := some 0, uc2 := some 0 } (shortEscape ++ [nul]) ∧
      (exists stop, countPass 0 (shortEscape ++ [nul]) = .ok 3 stop) ∧
      exists out stop,
        copyPass { uc := some 0, uc2 := some 0 } [] (shortEscape ++ [nul]) =
          .ok out stop ∧
          (out ++ [nul]).length = 11 := by
  have hcount : countPass 0 (shortEscape ++ [nul]) =
      .ok 3 [34, 58, 49, 50, 51, 52, 53, 54, 55, 56, 125, 0] := by decide
  have hcopy : copyPass { uc := some 0, uc2 := some 0 } [] (shortEscape ++ [nul]) =
      .ok [65, 49, 50, 51, 52, 53, 54, 55, 56, 125] [0] := by decide
  refine ⟨?_, ⟨_, hcount⟩, _, _, hcopy, rfl⟩
  rintro ⟨len, out, stop, hlen, hout, _⟩
  rw [hcount] at hlen
  rw [hcopy] at hout
  cases hlen
  cases hout

end CJson
end Lepd
