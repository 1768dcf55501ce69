import Lepd.CJson.StringCodes
import Lepd.CJson.StringText

/-!
# Where a string stops

With its variables set, the copying pass stops at a place that does not depend
on the codes it scans: a surrogate pair is stepped over as two single escapes
would be.  So the stops of the two passes are functions of the bytes.
-/

namespace Lepd
namespace CJson

open Foundation
open Foundation.Scan

/-!
# Texts with a final NUL
-/

/-- Nothing follows but the rest of a text whose last byte is NUL. -/
def Ended (text : List UInt8) : Prop :=
  forall c, text.getLast? = some c -> c = nul

theorem Ended.suffix {text cur : List UInt8} (h : Ended text)
    (hcur : cur <:+ text) :
    Ended cur := by
  intro c hc
  rcases hcur with ⟨t, rfl⟩
  apply h
  rw [List.getLast?_append, hc]
  rfl

theorem Ended.tail {c : UInt8} {cur : List UInt8} (h : Ended (c :: cur)) :
    Ended cur :=
  h.suffix (List.suffix_cons c cur)

theorem Ended.drop {text : List UInt8} (h : Ended text) (n : Nat) :
    Ended (text.drop n) :=
  h.suffix (List.drop_suffix n text)

theorem Ended.nul_mem {text : List UInt8} (h : Ended text) (hne : text ≠ []) :
    nul ∈ text := by
  have hlast := List.getLast?_eq_getLast_of_ne_nil hne
  rw [← h _ hlast]
  exact List.getLast_mem hne

/-!
# The two stops
-/

def quoteStop : List UInt8 -> Option (List UInt8)
  | [] => none
  | c :: cur =>
      if c = quote ∨ c = nul then some (c :: cur)
      else if c = backslash then
        match cur with
        | [] => none
        | _ :: cur => quoteStop cur
      else quoteStop cur

def unitStop : List UInt8 -> Option (List UInt8)
  | [] => none
  | c :: cur =>
      if c = quote ∨ c = nul then some (c :: cur)
      else if c ≠ backslash then unitStop cur
      else
        match cur with
        | [] => none
        | d :: text =>
            if d = lowerU then
              match text with
              | _ :: _ :: _ :: _ :: cur4 => unitStop cur4
              | _ => none
            else unitStop text

theorem countPass_eq (len : Nat) (text : List UInt8) :
    (quoteStop text = none ∧ countPass len text = .fault .overread) ∨
      exists n stop, quoteStop text = some stop ∧ countPass len text =
        .ok n stop := by
  fun_induction countPass len text with
  | case1 len =>
      exact Or.inl ⟨rfl, rfl⟩
  | case2 len c cur hc =>
      refine Or.inr ⟨len, c :: cur, ?_, rfl⟩
      rw [quoteStop.eq_def]
      simp only [if_pos hc]
  | case3 len hc =>
      exact Or.inl ⟨rfl, rfl⟩
  | case4 len hc d cur ih =>
      exact ih
  | case5 len c cur hc hback ih =>
      rw [quoteStop.eq_def]
      simp only [if_neg hc, if_neg hback]
      exact ih

theorem quoteStop_stop {c : UInt8} (hc : c = quote ∨ c = nul) (cur : List UInt8) :
    quoteStop (c :: cur) = some (c :: cur) := by
  rw [quoteStop.eq_def]
  simp only [if_pos hc]

theorem unitStop_stop {c : UInt8} (hc : c = quote ∨ c = nul) (cur : List UInt8) :
    unitStop (c :: cur) = some (c :: cur) := by
  rw [unitStop.eq_def]
  simp only [if_pos hc]

theorem unitStop_plain {c : UInt8} (hc : Plain c) (cur : List UInt8) :
    unitStop (c :: cur) = unitStop cur := by
  rw [unitStop.eq_def]
  simp only [hc.left, hc.right.left, or_self, if_false, ne_eq, hc.right.right,
    not_false_eq_true,
    if_true]

theorem unitStop_escape {d : UInt8} (hd : d ≠ lowerU) (text : List UInt8) :
    unitStop (backslash :: d :: text) = unitStop text := by
  rw [unitStop.eq_def]
  simp [hd]

theorem unitStop_unicode (a b c d : UInt8) (cur : List UInt8) :
    unitStop (backslash :: lowerU :: a :: b :: c :: d :: cur) = unitStop cur := by
  rw [unitStop.eq_def]
  simp

theorem unitStop_short {text : List UInt8} (h : text.length < 4) :
    unitStop (backslash :: lowerU :: text) = none := by
  rw [unitStop.eq_def]
  match text, h with
  | [], _ => rfl
  | [_], _ => rfl
  | [_, _], _ => rfl
  | [_, _, _], _ => rfl

theorem unitStop_atDelimiter {text stop : List UInt8}
    (h : unitStop text = some stop) :
    AtDelimiter stop ∧ stop <:+ text := by
  fun_induction unitStop text with
  | case1 =>
      cases h
  | case2 c cur hc =>
      cases h
      exact ⟨⟨c, cur, rfl, hc⟩, List.suffix_rfl⟩
  | case3 c cur hc hback ih =>
      exact ⟨(ih h).left, (ih h).right.trans (List.suffix_cons c cur)⟩
  | case4 =>
      cases h
  | case5 c hc hback a b d e cur4 ih =>
      exact ⟨(ih h).left, (ih h).right.trans ⟨[c, lowerU, a, b, d, e], rfl⟩⟩
  | case6 =>
      cases h
  | case7 c hc hback d text hd ih =>
      exact ⟨(ih h).left, (ih h).right.trans ⟨[c, d], rfl⟩⟩

/-!
# The copying pass
-/

def Cells.Set (cells : Cells) : Prop :=
  cells.uc.isSome ∧ cells.uc2.isSome

theorem scanInto_set {cell : Option UInt32} (hcell : cell.isSome)
    {text : List UInt8}
    (hnul : nul ∈ text) : exists uc, scanInto cell text = .ok uc := by
  unfold scanInto
  rw [if_neg (not_not_intro hnul)]
  cases hscan : sscanf4x text with
  | some v =>
      exact ⟨v, rfl⟩
  | none =>
      rcases Option.isSome_iff_exists.mp hcell with ⟨v, rfl⟩
      exact ⟨v, rfl⟩

theorem transcode_set {cells : Cells} (hcells : cells.Set) {text : List UInt8}
    (hend : Ended text) (hstop : unitStop (backslash :: lowerU :: text) ≠ none) :
    exists done, transcode cells text = .ok done := by
  match text, hend, hstop with
  | [], _, hstop | [_], _, hstop | [_, _], _, hstop | [_, _, _], _, hstop =>
      exact absurd (unitStop_short (by simp)) hstop
  | a :: b :: c :: d :: cur4, hend, hstop =>
      rw [unitStop_unicode] at hstop
      rcases scanInto_set hcells.left (hend.nul_mem (by simp)) with ⟨uc, hscan⟩
      by_cases hinvalid : (0xDC00 <= uc ∧ uc <= 0xDFFF) ∨ uc = 0
      · exact ⟨_, transcode_invalid hscan hinvalid⟩
      · by_cases hhigh : 0xD800 <= uc ∧ uc <= 0xDBFF
        · match cur4, hend, hstop, hscan with
          | [], _, hstop, _ =>
              exact absurd rfl hstop
          | x :: second, hend, hstop, hscan =>
              by_cases hback : x = backslash
              · subst hback
                match second, hend, hstop, hscan with
                | [], _, hstop, _ =>
                    exact absurd rfl hstop
                | u :: tail, hend, hstop, hscan =>
                    by_cases hu : u = lowerU
                    · subst hu
                      have htail : tail ≠ [] := by
                        rintro rfl
                        exact hstop (unitStop_short (by simp))
                      rcases scanInto_set hcells.right
                        ((hend.drop 6).nul_mem htail) with ⟨uc2, hscan2⟩
                      exact ⟨_, transcode_pair hscan hinvalid hhigh rfl hscan2⟩
                    · exact ⟨_, transcode_lone hscan hinvalid hhigh rfl
                        (fun _ => ⟨u, tail, rfl, hu⟩)⟩
              · exact ⟨_, transcode_lone hscan hinvalid hhigh rfl
                  (fun h => absurd h hback)⟩
        · exact ⟨_, transcode_single hscan hinvalid hhigh⟩

theorem scanInto_error {cell : Option UInt32} (hcell : cell.isSome)
    {text : List UInt8}
    {reason : Fault} (h : scanInto cell text = .error reason) :
    reason = .overread := by
  by_cases hnul : nul ∈ text
  · rcases scanInto_set hcell hnul with ⟨uc, hscan⟩
    rw [hscan] at h
    cases h
  · unfold scanInto at h
    rw [if_pos hnul] at h
    cases h
    rfl

theorem transcode_error {cells : Cells} (hcells : cells.Set) {text : List UInt8}
    {reason : Fault} (h : transcode cells text = .error reason) :
    reason = .overread := by
  unfold transcode at h
  cases hscan : scanInto cells.uc text with
  | error r =>
      rw [hscan] at h
      cases h
      exact scanInto_error hcells.left hscan
  | ok uc =>
      rw [hscan] at h
      simp only [bind, Except.bind] at h
      split at h
      · cases h
      · split at h
        · split at h
          · cases h
            rfl
          · split at h
            · cases h
            · split at h
              · cases h
                rfl
              · next second _ =>
                  split at h
                  · cases h
                  · cases hscan2 : scanInto cells.uc2 second with
                    | error r =>
                        rw [hscan2] at h
                        cases h
                        exact scanInto_error hcells.right hscan2
                    | ok uc2 =>
                        rw [hscan2] at h
                        simp only at h
                        split at h <;> cases h
        · cases h

theorem transcode_keeps {cells : Cells} (hcells : cells.Set) {text : List UInt8}
    {done : Transcoded} (h : transcode cells text = .ok done) :
    done.cells.Set ∧
      (done.pair = true -> exists second, text.drop 4 = backslash :: lowerU ::
        second) := by
  rcases transcode_cases h with ⟨uc, _, ⟨_, rfl⟩ | ⟨second, uc2, hdrop, _, _, rfl⟩ |
    ⟨second, uc2, code, hdrop, _, rfl⟩ | rfl⟩
  · exact ⟨⟨rfl, hcells.right⟩, fun h => by cases h⟩
  · exact ⟨⟨rfl, rfl⟩, fun _ => ⟨second, hdrop⟩⟩
  · exact ⟨⟨rfl, rfl⟩, fun _ => ⟨second, hdrop⟩⟩
  · exact ⟨⟨rfl, hcells.right⟩, fun h => by cases h⟩

theorem length_lt_four {text : List UInt8}
    (h : forall a b d e tail, text ≠ a :: b :: d :: e :: tail) :
    text.length < 4 := by
  rcases text with _ | ⟨a, _ | ⟨b, _ | ⟨d, _ | ⟨e, tail⟩⟩⟩⟩
  · exact Nat.zero_lt_succ 3
  · exact Nat.lt_of_sub_eq_succ rfl
  · exact Nat.lt_of_sub_eq_succ rfl
  · exact Nat.lt_of_sub_eq_succ rfl
  · exact absurd rfl (h a b d e tail)

theorem copyPass_eq {cells : Cells} (hcells : cells.Set) {text : List UInt8}
    (hend : Ended text)
    (out : List UInt8) :
    (unitStop text = none ∧ copyPass cells out text = .fault .overread) ∨
      exists new stop, unitStop text = some stop ∧ copyPass cells out text =
        .ok new stop := by
  fun_induction copyPass cells out text with
  | case1 cells out =>
      exact Or.inl ⟨rfl, rfl⟩
  | case2 cells out c cur hc =>
      exact Or.inr ⟨out, c :: cur, unitStop_stop hc cur, rfl⟩
  | case3 cells out c cur hc hback ih =>
      rw [unitStop_plain ⟨fun h => hc (Or.inl h), fun h => hc (Or.inr h), hback⟩]
      exact ih hcells hend.tail
  | case4 cells out c hc hback =>
      rw [not_not.mp hback]
      exact Or.inl ⟨rfl, rfl⟩
  | case5 cells out c hc hback text reason hscan =>
      rw [not_not.mp hback]
      by_cases hstop : unitStop (backslash :: lowerU :: text) = none
      · rw [transcode_error hcells hscan]
        exact Or.inl ⟨hstop, rfl⟩
      · rcases transcode_set hcells (hend.drop 2) hstop with ⟨done, hdone⟩
        rw [List.drop_succ_cons, List.drop_succ_cons, List.drop_zero,
          hscan] at hdone
        cases hdone
  | case6 cells out c hc hback done a b d e hpair f g h i j k cur10 hdone ih =>
      rcases transcode_keeps hcells hdone with ⟨hset, hsecond⟩
      rcases hsecond hpair with ⟨second, hdrop⟩
      cases hdrop
      rw [not_not.mp hback, unitStop_unicode, unitStop_unicode]
      exact ih hset (hend.drop 12)
  | case7 cells out c hc hback done a b d e cur4 hpair hshort hdone =>
      rcases transcode_keeps hcells hdone with ⟨hset, hsecond⟩
      rcases hsecond hpair with ⟨second, hdrop⟩
      cases hdrop
      have hlength : second.length < 4 := by
        apply length_lt_four
        rintro f g h i cur rfl
        exact hshort _ _ f g h i cur rfl
      rw [not_not.mp hback, unitStop_unicode, unitStop_short hlength]
      exact Or.inl ⟨rfl, rfl⟩
  | case8 cells out c hc hback done a b d e cur4 hpair hdone ih =>
      rw [not_not.mp hback, unitStop_unicode]
      exact ih (transcode_keeps hcells hdone).left (hend.drop 6)
  | case9 cells out c hc hback text done hdone hshort =>
      have hlength : text.length < 4 := by
        apply length_lt_four
        rintro f g h i cur rfl
        exact hshort f g h i cur rfl
      rw [not_not.mp hback, unitStop_short hlength]
      exact Or.inl ⟨rfl, rfl⟩
  | case10 cells out c hc hback d text hd ih =>
      rw [not_not.mp hback, unitStop_escape hd]
      exact ih hcells (hend.drop 2)

/-!
# The whole string
-/

/-- Where `parse_string` leaves the cursor, given the text after the opening
quote. -/
def stringEnd (text : List UInt8) : Option (List UInt8) :=
  if quoteStop text = none then none
  else (unitStop text).map afterQuote

theorem parseStringAt_eq (stack : Stack) {text : List UInt8} (hend : Ended text) :
    (stringEnd text = none ∧ parseStringAt stack (quote :: text) =
    .fault .overread) ∨
      exists s rest, stringEnd text = some rest ∧
        parseStringAt stack (quote :: text) = .ok s rest := by
  have hset : Cells.Set ⟨some (stack (text.length + 1)).1,
    some (stack (text.length + 1)).2⟩ :=
    ⟨rfl, rfl⟩
  have hstart : parseStringAt stack (quote :: text) =
      andThen (lookahead (countPass 0) text) (fun _ => do
        let out <- copyPass ⟨some (stack (text.length + 1)).1,
          some (stack (text.length + 1)).2⟩ []
        let _ <- accept quote
        return cString out) := by
    simp [parseStringAt, parseString, peek]
  rcases countPass_eq 0 text with ⟨hquote, hcount⟩ | ⟨n, stop, hquote, hcount⟩
  · refine Or.inl ⟨if_pos hquote, ?_⟩
    rw [hstart, lookahead, hcount]
    rfl
  · have hquote' : quoteStop text ≠ none := by
      rw [hquote]
      simp
    rcases copyPass_eq hset hend [] with ⟨hunit, hcopy⟩ | ⟨out, stop', hunit, hcopy⟩
    · refine Or.inl ⟨by rw [stringEnd, if_neg hquote', hunit]; rfl, ?_⟩
      rw [hstart, lookahead, hcount]
      simp only [andThen_ok, bind_apply, hcopy, andThen_fault]
    · refine Or.inr ⟨cString out, afterQuote stop', ?_, ?_⟩
      · rw [stringEnd, if_neg hquote', hunit]
        rfl
      · exact parseString_of_passes hcount hcopy (unitStop_atDelimiter hunit).left

end CJson
end Lepd
