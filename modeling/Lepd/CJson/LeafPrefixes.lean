import Mathlib.Data.List.Infix
import Lepd.CJson.CutPlaces

/-!
# Prefixes of strings, literals and numbers

The parser is run on the first bytes of a text without children, in a buffer that
is zero behind them.  It stops on the first of the zeros exactly when the text
was cut at a place where it can be resumed.  Otherwise it stops elsewhere, or
leaves what the language defines.
-/

namespace Lepd
namespace CJson

open Foundation
open Foundation.Scan
open CJson.Lex

abbrev zeros (k : Nat) : List UInt8 :=
  List.replicate k nul

theorem prefix_append_cases {p a b : List UInt8} (h : p <+: a ++ b) :
    (exists c r, a = p ++ c :: r) ∨ exists q, q <+: b ∧ p = a ++ q := by
  rcases h with ⟨t, ht⟩
  rcases List.append_eq_append_iff.mp ht with ⟨a', ha, _⟩ | ⟨q, hp, hb⟩
  · cases a' with
    | nil =>
        exact Or.inr ⟨[], List.nil_prefix, by simpa using ha.symm⟩
    | cons c r =>
        exact Or.inl ⟨c, r, ha⟩
  · exact Or.inr ⟨q, ⟨t, hb.symm⟩, hp⟩

theorem ended_append_zeros (p : List UInt8) (k : Nat) :
    Ended (p ++ zeros (k + 1)) := by
  intro c hc
  have hlast : (p ++ zeros (k + 1)).getLast? = some nul := by
    rw [List.getLast?_append, List.getLast?_replicate]
    simp
  rw [hlast] at hc
  exact (Option.some.inj hc).symm

/-!
# Outcomes on a prefix
-/

/-- A cursor that no later step of the parser moves. -/
def Stuck (cur : List UInt8) : Prop :=
  exists c tail, cur = c :: tail ∧ (c = nul ∨ c = dot)

def StopsAt {value : Type} (o : Outcome Fault UInt8 value) (cur : List UInt8) :
    Prop :=
  o = .null cur ∨ exists a, o = .ok a cur

/-- The computation stops, and on the given place exactly when the condition
holds. -/
def Halted {value : Type} (place : List UInt8) (good : Prop)
    (o : Outcome Fault UInt8 value) : Prop :=
  (¬ good ∧ exists reason, o = .fault reason) ∨
    exists cur, StopsAt o cur ∧ Stuck cur ∧ (cur = place <-> good)

/-- The computation answers null, and on the given place exactly when the
condition holds. -/
def Waits {value : Type} (place : List UInt8) (good : Prop)
    (o : Outcome Fault UInt8 value) : Prop :=
  (¬ good ∧ exists reason, o = .fault reason) ∨
    exists cur, o = .null cur ∧ Stuck cur ∧ (cur = place <-> good)

variable {value other : Type} {place : List UInt8} {good : Prop}

theorem Waits.halted {o : Outcome Fault UInt8 value} (h : Waits place good o) :
    Halted place good o := by
  rcases h with h | ⟨cur, ho, hcur⟩
  · exact Or.inl h
  · exact Or.inr ⟨cur, Or.inl ho, hcur⟩

theorem Waits.followed {o : Outcome Fault UInt8 value} (h : Waits place good o)
    (f : value -> Parse other) : Waits place good (andThen o f) := by
  rcases h with ⟨hgood, reason, rfl⟩ | ⟨cur, rfl, hcur⟩
  · exact Or.inl ⟨hgood, reason, rfl⟩
  · exact Or.inr ⟨cur, rfl, hcur⟩

theorem Halted.followed {o : Outcome Fault UInt8 value} (h : Halted place good o)
    {f : value -> Parse other}
    (hf : forall a cur, Stuck cur -> StopsAt (f a cur) cur) :
    Halted place good (andThen o f) := by
  rcases h with ⟨hgood, reason, rfl⟩ | ⟨cur, rfl | ⟨a, rfl⟩, hstuck, hcur⟩
  · exact Or.inl ⟨hgood, reason, rfl⟩
  · exact Or.inr ⟨cur, Or.inl rfl, hstuck, hcur⟩
  · exact Or.inr ⟨cur, hf a cur hstuck, hstuck, hcur⟩

theorem Halted.followed_null {o : Outcome Fault UInt8 value}
    (h : Halted place good o)
    {f : value -> Parse other}
    (hf : forall a cur, Stuck cur -> f a cur = .null cur) :
    Waits place good (andThen o f) := by
  rcases h with ⟨hgood, reason, rfl⟩ | ⟨cur, rfl | ⟨a, rfl⟩, hstuck, hcur⟩
  · exact Or.inl ⟨hgood, reason, rfl⟩
  · exact Or.inr ⟨cur, rfl, hstuck, hcur⟩
  · exact Or.inr ⟨cur, hf a cur hstuck, hstuck, hcur⟩

theorem stuck_zeros (k : Nat) : Stuck (zeros (k + 1)) :=
  ⟨nul, zeros k, rfl, Or.inl rfl⟩

theorem zeros_succ (k : Nat) : zeros (k + 1) = nul :: zeros k := rfl

theorem Stuck.skip {cur : List UInt8} (h : Stuck cur) :
    CJson.skip cur = .ok () cur := by
  rcases h with ⟨c, tail, rfl, rfl | rfl⟩
  · exact skip_cons rfl tail
  · exact skip_cons rfl tail

theorem Stuck.itemsLoop {item : Type} {cur : List UInt8} (h : Stuck cur)
    (kind : Kind)
    (parseItem : Parse item) (items : List item) (fuel : Nat) :
    CJson.itemsLoop kind.closing parseItem (fuel + 1) items cur = .null cur := by
  rcases h with ⟨c, tail, rfl, rfl | rfl⟩
  · exact itemsLoop_stop (by decide) (by cases kind <;> decide) parseItem fuel
      items tail
  · exact itemsLoop_stop (by decide) (by cases kind <;> decide) parseItem fuel
      items tail

/-!
# Strings
-/

theorem quoteStop_plain {c : UInt8} (hc : Plain c) (cur : List UInt8) :
    quoteStop (c :: cur) = quoteStop cur := by
  rw [quoteStop.eq_def]
  simp only [hc.left, hc.right.left, hc.right.right, or_self, if_false]

theorem quoteStop_escape (d : UInt8) (cur : List UInt8) :
    quoteStop (backslash :: d :: cur) = quoteStop cur := rfl

theorem quoteStop_hex {a b c d : UInt8} (h : HexFour a b c d) (rest : List UInt8) :
    quoteStop (a :: b :: c :: d :: rest) = quoteStop rest := by
  rw [quoteStop_plain (plain_of_hex h.left),
    quoteStop_plain (plain_of_hex h.right.left),
    quoteStop_plain (plain_of_hex h.right.right.left),
    quoteStop_plain (plain_of_hex h.right.right.right)]

theorem stringEnd_char (x : StringChar) (rest : List UInt8) :
    stringEnd (x.text ++ rest) = stringEnd rest := by
  have hquote : quoteStop (x.text ++ rest) = quoteStop rest := by
    cases x with
    | raw c h =>
        exact quoteStop_plain (plain_of_raw h) rest
    | short d h =>
        exact quoteStop_escape d rest
    | unicode a b c d h =>
        exact quoteStop_hex h rest
  have hunit : unitStop (x.text ++ rest) = unitStop rest := by
    cases x with
    | raw c h =>
        exact unitStop_plain (plain_of_raw h) rest
    | short d h =>
        exact unitStop_escape (escapeLetters_ne_lowerU h) rest
    | unicode a b c d h =>
        exact unitStop_unicode a b c d rest
  rw [stringEnd, hquote, hunit]
  rfl

def EndsLate (k : Nat) (stop : Option (List UInt8)) : Prop :=
  stop = none ∨ exists j, j < k ∧ stop = some (zeros (j + 1))

theorem endsLate_zeros {j k : Nat} (h : j <= k) :
    EndsLate k (unitStop (zeros j)) := by
  cases j with
  | zero =>
      exact Or.inl rfl
  | succ j =>
      exact Or.inr ⟨j, h, unitStop_stop (Or.inr rfl) (zeros j)⟩

theorem EndsLate.stringEnd {k : Nat} {text : List UInt8}
    (h : EndsLate k (unitStop text)) :
    EndsLate k (CJson.stringEnd text) := by
  by_cases hquote : quoteStop text = none
  · exact Or.inl (if_pos hquote)
  · rw [CJson.stringEnd, if_neg hquote]
    rcases h with h | ⟨j, hj, h⟩
    · exact Or.inl (by rw [h]; rfl)
    · exact Or.inr ⟨j, hj, by rw [h]; rfl⟩

theorem endsLate_digits {ds : List UInt8} (h : ds.length < 4) (k : Nat) :
    EndsLate k (unitStop (backslash :: lowerU :: (ds ++ zeros (k + 1)))) := by
  match hds : ds ++ zeros (k + 1) with
  | [] | [_] | [_, _] | [_, _, _] =>
      exact Or.inl (unitStop_short (by simp))
  | a :: b :: c :: d :: cur =>
      have hcur : cur = zeros (k + 1 - (4 - ds.length)) := by
        have hdrop := congrArg (List.drop 4) hds
        rw [List.drop_append, List.drop_eq_nil_of_le (by omega),
          List.drop_replicate] at hdrop
        exact hdrop.symm
      rw [unitStop_unicode, hcur]
      exact endsLate_zeros (by omega)

theorem stringEnd_nil (k : Nat) :
    str.read [] = str ∧ stringEnd ([] ++ zeros (k + 1)) = some (zeros (k + 1)) := by
  refine ⟨rfl, ?_⟩
  have hquote : quoteStop (zeros (k + 1)) ≠ none := by
    simp [zeros_succ, quoteStop_stop]
  rw [List.nil_append, stringEnd, if_neg hquote, zeros_succ,
    unitStop_stop (Or.inr rfl)]
  rfl

/-- Fewer than four digits behind `u` leave the reader inside of the escape. -/
theorem read_digits {ds : List UInt8} (h : ds.length < 4) :
    ¬ (str.read (backslash :: lowerU :: ds)).Resumable := by
  rcases ds with _ | ⟨a, _ | ⟨b, _ | ⟨d, _ | ⟨e, ds⟩⟩⟩⟩
  · exact id
  · exact id
  · exact id
  · exact id
  · exact absurd h (by simp)

theorem stringEnd_unit {x : StringChar} {p r : List UInt8} {c : UInt8}
    (hx : x.text = p ++ c :: r)
    (k : Nat) :
    (str.read p = str ∧ stringEnd (p ++ zeros (k + 1)) = some (zeros (k + 1))) ∨
      (¬ (str.read p).Resumable ∧ EndsLate k (stringEnd (p ++ zeros (k + 1)))) := by
  have hback : EndsLate k (stringEnd (backslash :: nul :: zeros k)) := by
    apply EndsLate.stringEnd
    rw [unitStop_escape (by decide)]
    exact endsLate_zeros (Nat.le_refl k)
  cases x with
  | raw d h =>
      cases p with
      | nil =>
          exact Or.inl (stringEnd_nil k)
      | cons a p =>
          simp [StringChar.text] at hx
  | short d h =>
      rcases p with _ | ⟨a, _ | ⟨b, p⟩⟩
      · exact Or.inl (stringEnd_nil k)
      · simp [StringChar.text] at hx
        rw [← hx.left]
        exact Or.inr ⟨id, hback⟩
      · simp [StringChar.text] at hx
  | unicode a b d e h =>
      rcases p with _ | ⟨f, _ | ⟨g, ds⟩⟩
      · exact Or.inl (stringEnd_nil k)
      · simp [StringChar.text] at hx
        rw [← hx.left]
        exact Or.inr ⟨id, hback⟩
      · have hlength : ds.length < 4 := by
          have := congrArg List.length hx
          simp [StringChar.text] at this
          omega
        injection hx with hf hx
        injection hx with hg hx
        rw [← hf, ← hg]
        exact Or.inr ⟨read_digits hlength, (endsLate_digits hlength k).stringEnd⟩

/-- What the string parser's two passes make of the first bytes of a string. -/
theorem stringEnd_cut (s : List StringChar) {p : List UInt8}
    (hp : p <+: charsText s)
    (k : Nat) :
    (str.read p = str ∧ stringEnd (p ++ zeros (k + 1)) = some (zeros (k + 1))) ∨
      (¬ (str.read p).Resumable ∧ EndsLate k (stringEnd (p ++ zeros (k + 1)))) := by
  induction s generalizing p with
  | nil =>
      rw [List.prefix_nil.mp hp]
      exact Or.inl (stringEnd_nil k)
  | cons x s ih =>
      rw [charsText_cons] at hp
      rcases prefix_append_cases hp with ⟨c, r, hx⟩ | ⟨q, hq, rfl⟩
      · exact stringEnd_unit hx k
      · rw [read_append, read_stringChar, List.append_assoc, stringEnd_char]
        exact ih hq

theorem zeros_ne {j k : Nat} (h : j < k) : zeros (j + 1) ≠ zeros (k + 1) := by
  intro heq
  have hlength := congrArg List.length heq
  simp at hlength
  omega

theorem parseStringAt_cut (stack : Stack) (s : List StringChar) {p : List UInt8}
    (hp : p <+: stringText s) (k : Nat) :
    Halted (zeros (k + 1)) (Resumable p)
      (parseStringAt stack (p ++ zeros (k + 1))) := by
  cases p with
  | nil =>
      exact Or.inr ⟨zeros (k + 1), Or.inl rfl,
        stuck_zeros k, by simp [CJson.Resumable, Lex.Resumable]⟩
  | cons c p =>
      rcases List.cons_prefix_cons.mp hp with ⟨rfl, hchars⟩
      rcases List.prefix_concat_iff.mp hchars with rfl | hchars
      · have hread := parseStringAt_stringText stack s (List.mem_cons_self :
          nul ∈ zeros (k + 1))
        have hgood : CJson.Resumable (stringText s) := by
          rw [CJson.Resumable, read_stringText]
          decide
        exact Or.inr ⟨zeros (k + 1), Or.inr ⟨_, hread⟩, stuck_zeros k,
          ⟨fun _ => hgood, fun _ => rfl⟩⟩
      · have hread : CJson.Resumable (quote :: p) <-> (str.read p).Resumable :=
          Iff.rfl
        rcases stringEnd_cut s hchars k with ⟨hstr, hstop⟩ | ⟨hbad, hstop⟩
        · rcases parseStringAt_eq stack (ended_append_zeros p k) with
            ⟨hnone, _⟩ | ⟨v, rest, hrest, hok⟩
          · rw [hstop] at hnone
            cases hnone
          · rw [hstop] at hrest
            cases hrest
            refine Or.inr ⟨zeros (k + 1), Or.inr ⟨v, hok⟩, stuck_zeros k, ?_⟩
            rw [hread, hstr]
            simp [Lex.Resumable]
        · rcases parseStringAt_eq stack (ended_append_zeros p k) with
            ⟨_, hfault⟩ | ⟨v, rest, hrest, hok⟩
          · exact Or.inl ⟨hbad, _, hfault⟩
          · rcases hstop with hstop | ⟨j, hj, hstop⟩
            · rw [hstop] at hrest
              cases hrest
            · rw [hstop] at hrest
              cases hrest
              refine Or.inr ⟨zeros (j + 1), Or.inr ⟨v, hok⟩, stuck_zeros j, ?_⟩
              exact ⟨fun heq => absurd heq (zeros_ne hj),
                fun hgood => absurd hgood hbad⟩

variable {double : Type}

theorem parseMember_stuck (stack : Stack) (parse : Parse (Item double))
    {cur : List UInt8}
    {k : Nat} {good : Prop}
    (h : Halted (zeros (k + 1)) good (parseStringAt stack cur)) :
    Halted (zeros (k + 1)) good (parseMember stack parse cur) := by
  unfold parseMember
  rw [bind_apply]
  refine h.followed (fun name mid hstuck => ?_)
  rw [bind_apply, hstuck.skip, andThen_ok]
  rcases hstuck with ⟨c, tail, rfl, hc⟩
  have hcolon : c ≠ colon := by
    rcases hc with rfl | rfl <;> decide
  simp only [peek, bind_apply, peek_cons, andThen_ok, ne_eq, hcolon,
    not_false_eq_true, if_true,
    fail_apply]
  exact Or.inl rfl

/-!
# Literals and numbers
-/

variable [CDouble double]

theorem dropCommon_cut {p str cur : List UInt8} {c d : UInt8}
    (hstr : str = p ++ d :: cur)
    (hcd : c ≠ d) (rest : List UInt8) :
    dropCommon str (p ++ c :: rest) = c :: rest ∧ ¬ str <+: p ++ c :: rest := by
  subst hstr
  induction p with
  | nil =>
      exact ⟨dropCommon_other hcd cur rest, not_prefix_other hcd cur rest⟩
  | cons a p ih =>
      constructor
      · simp only [List.cons_append, dropCommon, if_true]
        exact ih.left
      · intro h
        exact ih.right ((List.prefix_cons_inj a).mp h)

/-- A literal that is cut short has been stepped over when the comparison fails. -/
theorem streamCmp_cut {p str : List UInt8} (hstr : nul ∉ str) (hp : p <+: str)
    (hne : p ≠ str)
    (rest : List UInt8) :
    exists k, k ≠ 0 ∧ streamCmp (str ++ [nul]) (p ++ nul :: rest) =
      .ok k (nul :: rest) := by
  rcases hp with ⟨t, ht⟩
  cases t with
  | nil =>
      exact absurd (by simpa using ht) hne
  | cons d t =>
      have hd : nul ≠ d := by
        rintro rfl
        exact hstr (ht ▸ by simp)
      rcases dropCommon_cut ht.symm hd rest with ⟨hdrop, hstarts⟩
      rcases streamCmp_mismatch hstr (by simp) hstarts with ⟨k, hk, hcmp⟩
      rw [hdrop] at hcmp
      exact ⟨k, hk, hcmp⟩

theorem dispatch_nul (stack : Stack) (parse : Parse (Item double))
    (cur : List UInt8) :
    dispatch stack parse (nul :: cur) = .null (nul :: cur) :=
  dispatch_fail stack parse (by decide) (by decide)
    (fun kind => by cases kind <;> decide) cur

theorem parseValue_nul (stack : Stack) (depth : Nat) (cur : List UInt8) :
    parseValue stack (depth + 1) (nul :: cur) =
      (.null (nul :: cur) : Outcome _ _ (Item double)) := by
  rw [parseValue_other (by decide) (by decide) (by decide), dispatch_nul]

theorem parseValue_nullPrefix (stack : Stack) (depth : Nat) {p : List UInt8}
    (hp : p <+: nullText)
    (hne : p ≠ nullText) (rest : List UInt8) :
    parseValue stack (depth + 1) (p ++ nul :: rest) =
      (.null (nul :: rest) : Outcome _ _ (Item double)) := by
  rcases streamCmp_cut (by decide) hp hne rest with ⟨a, ha, hnull⟩
  rcases streamCmp_other (s := 102) (c := 0) (by decide) (by decide)
    [97, 108, 115, 101] rest
    with ⟨b, hb, hfalse⟩
  rcases streamCmp_other (s := 116) (c := 0) (by decide) (by decide)
    [114, 117, 101] rest
    with ⟨c, hc, htrue⟩
  rw [parseValue_dispatch ha hnull hb hfalse hc htrue, dispatch_nul]

theorem parseValue_falsePrefix (stack : Stack) (depth : Nat) {p : List UInt8}
    (hp : 102 :: p <+: falseText) (hne : 102 :: p ≠ falseText) (rest : List UInt8) :
    parseValue stack (depth + 1) (102 :: p ++ nul :: rest) =
      (.null (nul :: rest) : Outcome _ _ (Item double)) := by
  rcases streamCmp_other (s := 110) (c := 102) (by decide) (by decide)
    [117, 108, 108]
    (p ++ nul :: rest) with ⟨a, ha, hnull⟩
  rcases streamCmp_cut (by decide) hp hne rest with ⟨b, hb, hfalse⟩
  rcases streamCmp_other (s := 116) (c := 0) (by decide) (by decide)
    [114, 117, 101] rest
    with ⟨c, hc, htrue⟩
  rw [List.cons_append, parseValue_dispatch ha hnull hb hfalse hc htrue,
    dispatch_nul]

theorem parseValue_truePrefix (stack : Stack) (depth : Nat) {p : List UInt8}
    (hp : 116 :: p <+: trueText) (hne : 116 :: p ≠ trueText) (rest : List UInt8) :
    parseValue stack (depth + 1) (116 :: p ++ nul :: rest) =
      (.null (nul :: rest) : Outcome _ _ (Item double)) := by
  rcases streamCmp_other (s := 110) (c := 116) (by decide) (by decide)
    [117, 108, 108]
    (p ++ nul :: rest) with ⟨a, ha, hnull⟩
  rcases streamCmp_other (s := 102) (c := 116) (by decide) (by decide)
    [97, 108, 115, 101]
    (p ++ nul :: rest) with ⟨b, hb, hfalse⟩
  rcases streamCmp_cut (by decide) hp hne rest with ⟨c, hc, htrue⟩
  rw [List.cons_append, parseValue_dispatch ha hnull hb hfalse hc htrue,
    dispatch_nul]

/-- Behind the last letter of a literal the comparison leaves the literal. -/
theorem parseValue_literal_nul (stack : Stack) (depth : Nat) {text : List UInt8}
    (htext : text ∈ [nullText, falseText, trueText]) (rest : List UInt8) :
    parseValue stack (depth + 1) (text ++ nul :: rest) =
      (.fault .literal : Outcome _ _ (Item double)) := by
  simp only [List.mem_cons, List.not_mem_nil, or_false] at htext
  rcases htext with rfl | rfl | rfl
  · exact parseValue_null_fault (streamCmp_literal_nul nullText rest)
  · rcases streamCmp_other (s := 110) (c := 102) (by decide) (by decide)
      [117, 108, 108]
      ([97, 108, 115, 101] ++ nul :: rest) with ⟨a, ha, hnull⟩
    exact parseValue_false_fault ha hnull (streamCmp_literal_nul falseText rest)
  · rcases streamCmp_other (s := 110) (c := 116) (by decide) (by decide)
      [117, 108, 108]
      ([114, 117, 101] ++ nul :: rest) with ⟨a, ha, hnull⟩
    rcases streamCmp_other (s := 102) (c := 116) (by decide) (by decide)
      [97, 108, 115, 101]
      ([114, 117, 101] ++ nul :: rest) with ⟨b, hb, hfalse⟩
    exact parseValue_true_fault ha hnull hb hfalse
      (streamCmp_literal_nul trueText rest)

/-- The proper prefixes of a literal can be resumed, the whole literal cannot. -/
theorem resumable_literalPrefix {text p : List UInt8}
    (htext : text ∈ [nullText, falseText, trueText]) (hp : p <+: text) :
    Resumable p <-> p ≠ text := by
  have hinits : p ∈ text.inits := (List.mem_inits p text).mpr hp
  simp only [List.mem_cons, List.not_mem_nil, or_false] at htext
  rcases htext with rfl | rfl | rfl
  · simp only [List.inits, List.map, List.mem_cons, List.not_mem_nil,
      or_false] at hinits
    rcases hinits with rfl | rfl | rfl | rfl | rfl <;> decide
  · simp only [List.inits, List.map, List.mem_cons, List.not_mem_nil,
      or_false] at hinits
    rcases hinits with rfl | rfl | rfl | rfl | rfl | rfl <;> decide
  · simp only [List.inits, List.map, List.mem_cons, List.not_mem_nil,
      or_false] at hinits
    rcases hinits with rfl | rfl | rfl | rfl | rfl <;> decide

theorem parseValue_literalPrefix (stack : Stack) (depth : Nat) {text p : List UInt8}
    (htext : text ∈ [nullText, falseText, trueText]) (hp : p <+: text) (k : Nat) :
    Halted (zeros (k + 1)) (Resumable p)
      (parseValue stack (depth + 1) (p ++ zeros (k + 1)) :
        Outcome _ _ (Item double)) := by
  rw [resumable_literalPrefix htext hp]
  by_cases hne : p = text
  · rw [hne]
    exact Or.inl ⟨not_not_intro rfl, _, parseValue_literal_nul stack depth htext
      (zeros k)⟩
  · have hwait : parseValue stack (depth + 1) (p ++ nul :: zeros k) =
        (.null (nul :: zeros k) : Outcome _ _ (Item double)) := by
      simp only [List.mem_cons, List.not_mem_nil, or_false] at htext
      cases p with
      | nil =>
          exact parseValue_nul stack depth (zeros k)
      | cons c p =>
          rcases htext with rfl | rfl | rfl
          · exact parseValue_nullPrefix stack depth hp hne (zeros k)
          · rcases List.cons_prefix_cons.mp hp with ⟨rfl, _⟩
            exact parseValue_falsePrefix stack depth hp hne (zeros k)
          · rcases List.cons_prefix_cons.mp hp with ⟨rfl, _⟩
            exact parseValue_truePrefix stack depth hp hne (zeros k)
    exact Or.inr ⟨zeros (k + 1), Or.inl hwait, stuck_zeros k, by simpa using hne⟩

theorem prefix_digits {p ds : List UInt8} (hds : Digits ds) (hp : p <+: ds) :
    Digits p :=
  fun c hc => hds c (hp.subset hc)

theorem exponentText_cut {e : ExponentText} {p : List UInt8} (hp : p <+: e.text) :
    p = [] ∨ exists e' : ExponentText, p = e'.text := by
  cases p with
  | nil =>
      exact Or.inl rfl
  | cons c p =>
      rcases List.cons_prefix_cons.mp hp with ⟨rfl, hrest⟩
      rcases prefix_append_cases hrest with ⟨d, r, hsign⟩ | ⟨q, hq, rfl⟩
      · have hnil : p = [] := by
          have hlength := congrArg List.length hsign
          apply List.length_eq_zero_iff.mp
          rcases e.sign_eq with h | h | h <;> rw [h] at hlength <;>
            simp at hlength <;> omega
        let e' : ExponentText :=
          { letter := e.letter, sign := [], digits := [], letter_eq := e.letter_eq,
            sign_eq := Or.inl rfl, digits_digits := digits_nil }
        exact Or.inr ⟨e', by simp [e', hnil, ExponentText.text]⟩
      · let e' : ExponentText :=
          { letter := e.letter, sign := e.sign, digits := q,
            letter_eq := e.letter_eq,
            sign_eq := e.sign_eq, digits_digits :=
              prefix_digits e.digits_digits hq }
        exact Or.inr ⟨e', rfl⟩

theorem prefix_leading {n : NumberText} {p : List UInt8} (hp : p <+: n.int) :
    p = [] ∨ p = [zeroDigit] ∨ exists c rest, p = c :: rest ∧ c ≠ zeroDigit := by
  cases p with
  | nil =>
      exact Or.inl rfl
  | cons c p =>
      rcases n.int_leading with h | h | ⟨d, ds, h, hd⟩
      · rw [h] at hp
        exact absurd (List.prefix_nil.mp hp) (List.cons_ne_nil c p)
      · rw [h] at hp
        have hcons := List.cons_prefix_cons.mp hp
        rw [hcons.left, List.prefix_nil.mp hcons.right]
        exact Or.inr (Or.inl rfl)
      · rw [h] at hp
        exact Or.inr (Or.inr ⟨c, p, rfl, (List.cons_prefix_cons.mp hp).left ▸ hd⟩)

def NumberText.integer (n : NumberText) (p : List UInt8) (hp : p <+: n.int) :
    NumberText where
  negative := n.negative
  int := p
  frac := []
  exp := none
  int_digits := prefix_digits n.int_digits hp
  int_leading := prefix_leading hp
  frac_digits := digits_nil

theorem NumberText.integer_text (n : NumberText) (p : List UInt8)
    (hp : p <+: n.int) :
    (n.integer p hp).text = n.signText ++ p := by
  simp [NumberText.text, NumberText.integer, NumberText.signText,
    NumberText.fracText,
    NumberText.expText]
  rfl

/-- The first bytes of a number are a number, perhaps with a decimal point
behind it. -/
theorem numberText_cut {n : NumberText} {p : List UInt8} (hp : p <+: n.text) :
    (exists m : NumberText, p = m.text) ∨
      exists m : NumberText, p = m.text ++ [dot] := by
  rcases prefix_append_cases hp with ⟨c, r, hsign⟩ | ⟨q, hq, hpq⟩
  · have hnil : p = [] := by
      have hlength := congrArg List.length hsign
      apply List.length_eq_zero_iff.mp
      unfold NumberText.signText at hlength
      split at hlength
      · simp at hlength
        omega
      · simp at hlength
    exact Or.inl ⟨{ (n.integer [] List.nil_prefix) with negative := false }, hnil⟩
  · rcases prefix_append_cases hq with ⟨c, r, hint⟩ | ⟨q', hq', hqq⟩
    · have hstarts : q <+: n.int := ⟨c :: r, hint.symm⟩
      exact Or.inl ⟨n.integer q hstarts, by rw [hpq, n.integer_text]⟩
    · rcases prefix_append_cases hq' with ⟨c, r, hfrac⟩ | ⟨q'', hq'', hqqq⟩
      · cases q' with
        | nil =>
            refine Or.inl ⟨n.integer n.int List.prefix_rfl, ?_⟩
            rw [n.integer_text, hpq, hqq, List.append_nil]
        | cons d f =>
            unfold NumberText.fracText at hfrac
            split at hfrac
            · cases hfrac
            · injection hfrac with hd hf
              cases f with
              | nil =>
                  refine Or.inr ⟨n.integer n.int List.prefix_rfl, ?_⟩
                  rw [n.integer_text, hpq, hqq, ← hd, List.append_assoc]
              | cons g f =>
                  refine Or.inl ⟨{ n with
                    frac := g :: f
                    exp := none
                    frac_digits := prefix_digits n.frac_digits
                      ⟨c :: r, hf.symm⟩ }, ?_⟩
                  simp [NumberText.text, NumberText.signText, NumberText.fracText,
                    NumberText.expText, hpq, hqq, ← hd]
      · cases hexp : n.exp with
        | none =>
            rw [NumberText.expText, hexp] at hq''
            refine Or.inl ⟨n, ?_⟩
            rw [hpq, hqq, hqqq, List.prefix_nil.mp hq'']
            simp [NumberText.text, NumberText.expText, hexp]
        | some e =>
            rw [NumberText.expText, hexp] at hq''
            rcases exponentText_cut hq'' with hnil | ⟨e', he'⟩
            · refine Or.inl ⟨{ n with exp := none }, ?_⟩
              rw [hpq, hqq, hqqq, hnil]
              rfl
            · refine Or.inl ⟨{ n with exp := some e' }, ?_⟩
              rw [hpq, hqq, hqqq, he']
              rfl

theorem numberEnd_zeros (k : Nat) : NumberEnd (zeros (k + 1)) :=
  ⟨nul, zeros k, rfl, by decide, by decide, by decide, by decide, by decide,
    fun h => absurd h (by decide)⟩

theorem numberEnd_dot (k : Nat) : NumberEnd (dot :: zeros (k + 1)) :=
  ⟨dot, zeros (k + 1), rfl, by decide, by decide, by decide, by decide, by decide,
    fun _ => ⟨nul, zeros k, rfl, by decide⟩⟩

theorem starts_not_literal {c : UInt8} {p : List UInt8}
    (hc : c = minus ∨ isDigit c = true) :
    c :: p ∉ [nullText, falseText, trueText] := by
  intro h
  simp only [List.mem_cons, List.not_mem_nil, or_false] at h
  rcases h with h | h | h <;> injection h with hcp _ <;> rw [hcp] at hc <;>
    rcases hc with hc | hc <;> exact absurd hc (by decide)

theorem parseValue_numberPrefix (stack : Stack) (depth : Nat) {n : NumberText}
    (hn : n.Complete)
    {p : List UInt8} (hp : p <+: n.text) (k : Nat) :
    Halted (zeros (k + 1)) (Resumable p)
      (parseValue stack (depth + 1) (p ++ zeros (k + 1)) :
        Outcome _ _ (Item double)) := by
  rcases numberText_head hn with ⟨c, tail, htext, hc⟩
  have hread : CJson.Resumable p <-> p ∉ [nullText, falseText, trueText] ∧
      p.getLast? ≠ some dot := by
    rw [CJson.Resumable, read_numberBytes (fun c hc =>
      numberText_byte n c (hp.subset hc))]
    rfl
  cases p with
  | nil =>
      exact Or.inr ⟨zeros (k + 1), Or.inl
        (parseValue_nul stack depth (zeros k)), stuck_zeros k,
        ⟨fun _ => by decide, fun _ => rfl⟩⟩
  | cons d p =>
      have hd : d = c := by
        rw [htext] at hp
        exact (List.cons_prefix_cons.mp hp).left
      have hparse : parseValue stack (depth + 1) (d :: p ++ zeros (k + 1)) =
          (parseNumber (d :: p ++ zeros (k + 1)) : Outcome _ _ (Item double)) :=
        parseValue_number stack depth (hd ▸ hc) _
      rw [hparse, hread]
      rcases numberText_cut hp with ⟨m, hm⟩ | ⟨m, hm⟩
      · rw [hm, parseNumber_append m (numberEnd_zeros k)]
        refine Or.inr ⟨zeros (k + 1), Or.inr ⟨_, rfl⟩, stuck_zeros k, ?_⟩
        have hliteral : m.text ∉ [nullText, falseText, trueText] :=
          hm ▸ starts_not_literal (hd ▸ hc)
        simp only [hliteral, not_false_eq_true, numberText_getLast m, ne_eq,
          and_self]
      · rw [hm, List.append_assoc, List.singleton_append,
          parseNumber_append m (numberEnd_dot k)]
        refine Or.inr ⟨dot :: zeros (k + 1), Or.inr ⟨_, rfl⟩,
          ⟨dot, _, rfl, Or.inr rfl⟩, ?_⟩
        constructor
        · intro h
          exact absurd (congrArg List.length h) (by simp)
        · intro h
          exact absurd (List.getLast?_concat) h.right

end CJson
end Lepd
