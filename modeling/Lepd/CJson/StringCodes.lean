import Mathlib.Algebra.Order.Ring.Nat
import Mathlib.Data.List.Basic
import Lepd.CJson.StringUnits

/-!
# What an escape stores

The numbers that `sscanf` finds, the bytes that a code takes, and what the
transcoder leaves in its variable.
-/

namespace Lepd
namespace CJson

open Foundation

/-!
# Hexadecimal numbers

What `sscanf` can store, by the characters that it reads.
-/

theorem hexDigits_lt {width : Nat} {text : List UInt8} :
    forall d, d ∈ hexDigits width text -> d < 16 := by
  induction width generalizing text with
  | zero =>
      intro d hd
      simp [hexDigits] at hd
  | succ width ih =>
      intro d hd
      cases text with
      | nil =>
          simp [hexDigits] at hd
      | cons c text =>
          rw [hexDigits] at hd
          cases hc : hexValue c with
          | none =>
              simp [hc] at hd
          | some v =>
              simp only [hc, List.mem_cons] at hd
              rcases hd with rfl | hd
              · unfold hexValue at hc
                split at hc
                · cases hc
                  rename_i hrange
                  have := UInt8.le_iff_toNat_le.mp hrange.right
                  simp at this
                  omega
                · split at hc
                  · cases hc
                    rename_i hrange
                    have := UInt8.le_iff_toNat_le.mp hrange.right
                    simp at this
                    omega
                  · split at hc
                    · cases hc
                      rename_i hrange
                      have := UInt8.le_iff_toNat_le.mp hrange.right
                      simp at this
                      omega
                    · cases hc
              · exact ih d hd

theorem hexDigits_length (width : Nat) (text : List UInt8) :
    (hexDigits width text).length <= width := by
  fun_induction hexDigits width text with
  | case1 => simp
  | case2 => simp
  | case3 width c text d hd ih => simpa using ih
  | case4 => simp

theorem hexNumber_lt {digits : List Nat} {n width : Nat}
    (hdigits : forall d, d ∈ digits -> d < 16) (hlen : digits.length <= width)
    (h : hexNumber digits = some n) : n < 16 ^ width := by
  have hfold : forall (ds : List Nat) (m : Nat), (forall d, d ∈ ds -> d < 16) ->
      ds.foldl (fun n d => 16 * n + d) m < (m + 1) * 16 ^ ds.length := by
    intro ds
    induction ds with
    | nil =>
        intro m _
        simp
    | cons d ds ih =>
        intro m hd
        have hstep := ih (16 * m + d) (fun e he => hd e (List.mem_cons_of_mem d he))
        have hd16 : d < 16 := hd d List.mem_cons_self
        calc
          (d :: ds).foldl (fun n d => 16 * n + d) m
              < (16 * m + d + 1) * 16 ^ ds.length := hstep
          _ <= ((m + 1) * 16) * 16 ^ ds.length :=
              Nat.mul_le_mul_right _ (by omega)
          _ = (m + 1) * 16 ^ (d :: ds).length := by
              rw [List.length_cons, Nat.pow_succ, Nat.mul_assoc, Nat.mul_comm 16]
  cases digits with
  | nil =>
      cases h
  | cons d ds =>
      cases h
      have := hfold (d :: ds) 0 hdigits
      calc
        _ < (0 + 1) * 16 ^ (d :: ds).length := this
        _ = 16 ^ (d :: ds).length := by rw [Nat.zero_add, Nat.one_mul]
        _ <= 16 ^ width := Nat.pow_le_pow_right (by decide) hlen

theorem scanHex_lt {width n : Nat} {text : List UInt8}
    (h : scanHex width text = some n) :
    n < 16 ^ width := by
  have hplain : forall t, hexNumber (hexDigits width t) = some n ->
      n < 16 ^ width :=
    fun t ht => hexNumber_lt hexDigits_lt (hexDigits_length width t) ht
  unfold scanHex at h
  split at h
  · split at h
    · exact hexNumber_lt hexDigits_lt
        (Nat.le_trans (hexDigits_length _ _) (Nat.sub_le width 2)) h
    · exact hplain _ h
  · exact hplain _ h

theorem ofNat_lt_of_lt {n : Nat} (h : n < 0x10000) : UInt32.ofNat n < 0x10000 := by
  have hsize : n < UInt32.size := Nat.lt_trans h (by decide)
  rw [UInt32.lt_iff_toNat_lt, UInt32.toNat_ofNat_of_lt' hsize]
  exact h

/-!
# Stored codes
-/

theorem shiftRight_le (uc : UInt32) (n : UInt32) : uc >>> n <= uc := by
  rw [UInt32.le_iff_toNat_le, UInt32.toNat_shiftRight]
  exact Nat.shiftRight_le _ _

theorem storeUtf8_length (len n : Nat) (uc : UInt32) (stored : List UInt8) :
    (storeUtf8 len n uc stored).1.length = n + stored.length := by
  fun_induction storeUtf8 len n uc stored with
  | case1 uc stored => simp
  | case2 uc stored => simp; omega
  | case3 n uc stored ih => rw [ih]; simp; omega

theorem storeUtf8_code_le (len n : Nat) (uc : UInt32) (stored : List UInt8) :
    (storeUtf8 len n uc stored).2 <= uc := by
  fun_induction storeUtf8 len n uc stored with
  | case1 uc stored => exact UInt32.le_refl uc
  | case2 uc stored => exact UInt32.le_refl uc
  | case3 n uc stored ih => exact UInt32.le_trans ih (shiftRight_le uc 6)

theorem utf8Length_le_four (uc : UInt32) : utf8Length uc <= 4 := by
  unfold utf8Length
  split
  · omega
  · split
    · omega
    · split <;> omega

theorem utf8Length_le_three {uc : UInt32} (h : uc < 0x10000) :
    utf8Length uc <= 3 := by
  unfold utf8Length
  split
  · omega
  · split <;> omega

theorem storeCode_narrow (uc : UInt32) :
    (storeUtf8 (utf8Length uc) (utf8Length uc) uc []).2 < 0x10000 := by
  by_cases h : uc < 0x10000
  · exact UInt32.lt_of_le_of_lt (storeUtf8_code_le _ _ uc []) h
  · have hlen : utf8Length uc = 4 := by
      have h80 : ¬ uc < 0x80 := fun h' => h (UInt32.lt_trans h' (by decide))
      have h800 : ¬ uc < 0x800 := fun h' => h (UInt32.lt_trans h' (by decide))
      simp [utf8Length, h, h80, h800]
    rw [hlen]
    simp only [storeUtf8]
    rw [UInt32.lt_iff_toNat_lt]
    simp only [UInt32.toNat_shiftRight]
    have := uc.toNat_lt
    simp [Nat.shiftRight_eq_div_pow]
    omega

def Narrow (cells : Cells) : Prop :=
  forall v, cells.uc = some v -> v < 0x10000

theorem storeCode_bytes_length (uc : UInt32) (uc2 : Option UInt32) (pair : Bool) :
    (storeCode uc uc2 pair).bytes.length = utf8Length uc := by
  simp [storeCode, storeUtf8_length]

/-!
# One escape
-/

theorem transcode_cases {cells : Cells} {text : List UInt8} {done : Transcoded}
    (h : transcode cells text = .ok done) :
    exists uc, scanInto cells.uc text = .ok uc ∧
      ((uc < 0x10000 ∧
          done = { cells := { uc := some uc, uc2 := cells.uc2 }, bytes := [],
                   pair := false }) ∨
        (exists second uc2, text.drop 4 = backslash :: lowerU :: second ∧
          uc < 0x10000 ∧
          scanInto cells.uc2 second = .ok uc2 ∧
          done = { cells := { uc := some uc, uc2 := some uc2 }, bytes := [],
                   pair := true }) ∨
        (exists second uc2 code, text.drop 4 = backslash :: lowerU :: second ∧
          scanInto cells.uc2 second = .ok uc2 ∧
          done = storeCode code (some uc2) true) ∨
        done = storeCode uc cells.uc2 false) := by
  unfold transcode at h
  cases hscan : scanInto cells.uc text with
  | error reason =>
      rw [hscan] at h
      cases h
  | ok uc =>
      rw [hscan] at h
      refine ⟨uc, rfl, ?_⟩
      simp only [bind, Except.bind] at h
      by_cases hinvalid : (0xDC00 <= uc ∧ uc <= 0xDFFF) ∨ uc = 0
      · rw [if_pos hinvalid] at h
        cases h
        refine Or.inl ⟨?_, rfl⟩
        rcases hinvalid with hlow | hzero
        · exact UInt32.lt_of_le_of_lt hlow.right (by decide)
        · rw [hzero]
          decide
      · rw [if_neg hinvalid] at h
        by_cases hhigh : 0xD800 <= uc ∧ uc <= 0xDBFF
        · rw [if_pos hhigh] at h
          have hnarrow : uc < 0x10000 :=
            UInt32.lt_of_le_of_lt hhigh.right (by decide)
          cases hdrop : text.drop 4 with
          | nil =>
              rw [hdrop] at h
              cases h
          | cons b second =>
              rw [hdrop] at h
              simp only at h
              by_cases hb : b ≠ backslash
              · rw [if_pos hb] at h
                cases h
                exact Or.inl ⟨hnarrow, rfl⟩
              · rw [if_neg hb] at h
                cases second with
                | nil =>
                    cases h
                | cons u second =>
                    simp only at h
                    by_cases hu : u ≠ lowerU
                    · rw [if_pos hu] at h
                      cases h
                      exact Or.inl ⟨hnarrow, rfl⟩
                    · rw [if_neg hu] at h
                      have hb' : b = backslash := by simpa using hb
                      have hu' : u = lowerU := by simpa using hu
                      subst hb' hu'
                      cases hscan2 : scanInto cells.uc2 second with
                      | error reason =>
                          rw [hscan2] at h
                          cases h
                      | ok uc2 =>
                          rw [hscan2] at h
                          simp only at h
                          by_cases hsecond : uc2 < 0xDC00 ∨ uc2 > 0xDFFF
                          · rw [if_pos hsecond] at h
                            cases h
                            exact Or.inr
                              (Or.inl ⟨second, uc2, rfl, hnarrow, hscan2, rfl⟩)
                          · rw [if_neg hsecond] at h
                            cases h
                            exact Or.inr
                              (Or.inr (Or.inl ⟨second, uc2, _, rfl, hscan2, rfl⟩))
        · rw [if_neg hhigh] at h
          cases h
          exact Or.inr (Or.inr (Or.inr rfl))

theorem transcode_narrow {cells : Cells} {text : List UInt8} {done : Transcoded}
    (h : transcode cells text = .ok done) : Narrow done.cells := by
  rcases transcode_cases h with ⟨uc, _, hcase⟩
  intro v hv
  rcases hcase with ⟨huc, rfl⟩ | ⟨_, uc2, _, huc, _, rfl⟩ | ⟨_, uc2, code, _, _,
    rfl⟩ | rfl
  · cases hv
    exact huc
  · cases hv
    exact huc
  · cases hv
    exact storeCode_narrow code
  · cases hv
    exact storeCode_narrow uc

theorem transcode_bytes_le {cells : Cells} {text : List UInt8} {done : Transcoded}
    (h : transcode cells text = .ok done) : done.bytes.length <= 4 := by
  rcases transcode_cases h with ⟨uc, _, hcase⟩
  rcases hcase with ⟨_, rfl⟩ | ⟨_, _, _, _, _, rfl⟩ | ⟨_, uc2, code, _, _,
    rfl⟩ | rfl
  · simp
  · simp
  · rw [storeCode_bytes_length]
    exact utf8Length_le_four code
  · rw [storeCode_bytes_length]
    exact utf8Length_le_four uc

end CJson
end Lepd
