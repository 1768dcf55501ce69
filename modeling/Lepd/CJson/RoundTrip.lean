import Mathlib.Data.List.TakeWhile
import Lepd.CJson.PrintedText

/-!
# The wire round trip

A tree that is printed and parsed again is the same tree, and the parser stops right
behind its text.
-/

namespace Lepd
namespace CJson

open Foundation

variable {double : Type}

/-!
# Strings
-/

def escapeChar (c : UInt8) : StringChar :=
  if h : 32 <= c ∧ c ≠ quote ∧ c ≠ backslash then .raw c h
  else if c = backslash then .short backslash (by decide)
  else if c = quote then .short quote (by decide)
  else if c = 8 then .short 98 (by decide)
  else if c = 12 then .short 102 (by decide)
  else if c = 10 then .short 110 (by decide)
  else if c = 13 then .short 114 (by decide)
  else if c = 9 then .short 116 (by decide)
  else if h : (hexValue (hexDigitText (c.toNat / 16))).isSome ∧
      (hexValue (hexDigitText (c.toNat % 16))).isSome then
    .unicode zeroDigit zeroDigit (hexDigitText (c.toNat / 16))
      (hexDigitText (c.toNat % 16))
      ⟨by decide, by decide, h.left, h.right⟩
  else .short backslash (by decide)

def Control (c : UInt8) : Prop :=
  (hexValue (hexDigitText (c.toNat / 16))).isSome ∧
    (hexValue (hexDigitText (c.toNat % 16))).isSome ∧
    hexCode zeroDigit zeroDigit (hexDigitText (c.toNat / 16))
      (hexDigitText (c.toNat % 16)) =
      c.toUInt32 ∧
    (c ≠ nul -> utf8Bytes c.toUInt32 = [c])

instance (c : UInt8) : Decidable (Control c) :=
  inferInstanceAs (Decidable (_ ∧ _ ∧ _ ∧ _))

theorem control_of_lt {c : UInt8} (h : c < 32) : Control c := by
  have hall : forall n : Nat, n < 32 -> Control (UInt8.ofNat n) := by decide
  have hc := hall c.toNat (UInt8.lt_iff_toNat_lt.mp h)
  rwa [UInt8.ofNat_toNat] at hc

theorem lt_of_not_raw {c : UInt8} (h : ¬ (32 <= c ∧ c ≠ quote ∧ c ≠ backslash))
    (hback : c ≠ backslash)
    (hquote : c ≠ quote) : c < 32 :=
  UInt8.not_le.mp (fun hle => h ⟨hle, hquote, hback⟩)

theorem escapeChar_spec (c : UInt8) :
    (escapeChar c).text = escape c ∧
      (c ≠ nul -> forall s, decodeChars (escapeChar c :: s) = c ::
        decodeChars s) := by
  unfold escapeChar escape
  by_cases hraw : 32 <= c ∧ c ≠ quote ∧ c ≠ backslash
  · have hraw' : 31 < c ∧ c ≠ quote ∧ c ≠ backslash :=
      ⟨UInt8.lt_of_lt_of_le (by decide) hraw.left, hraw.right⟩
    rw [dif_pos hraw, if_pos hraw']
    exact ⟨rfl, fun _ _ => rfl⟩
  · have hraw' : ¬ (31 < c ∧ c ≠ quote ∧ c ≠ backslash) := by
      rintro ⟨hlt, hne⟩
      exact hraw ⟨UInt8.le_iff_toNat_le.mpr (UInt8.lt_iff_toNat_lt.mp hlt), hne⟩
    rw [dif_neg hraw, if_neg hraw']
    by_cases hback : c = backslash
    · rw [if_pos hback, if_pos hback, hback]
      exact ⟨rfl, fun _ _ => rfl⟩
    by_cases hquote : c = quote
    · rw [if_neg hback, if_neg hback, if_pos hquote, if_pos hquote, hquote]
      exact ⟨rfl, fun _ _ => rfl⟩
    rw [if_neg hback, if_neg hback, if_neg hquote, if_neg hquote]
    by_cases h8 : c = 8
    · rw [if_pos h8, if_pos h8, h8]
      exact ⟨rfl, fun _ _ => rfl⟩
    by_cases h12 : c = 12
    · rw [if_neg h8, if_neg h8, if_pos h12, if_pos h12, h12]
      exact ⟨rfl, fun _ _ => rfl⟩
    by_cases h10 : c = 10
    · rw [if_neg h8, if_neg h8, if_neg h12, if_neg h12, if_pos h10, if_pos h10, h10]
      exact ⟨rfl, fun _ _ => rfl⟩
    by_cases h13 : c = 13
    · rw [if_neg h8, if_neg h8, if_neg h12, if_neg h12, if_neg h10, if_neg h10,
        if_pos h13, if_pos h13,
        h13]
      exact ⟨rfl, fun _ _ => rfl⟩
    by_cases h9 : c = 9
    · rw [if_neg h8, if_neg h8, if_neg h12, if_neg h12, if_neg h10, if_neg h10,
        if_neg h13, if_neg h13,
        if_pos h9, if_pos h9, h9]
      exact ⟨rfl, fun _ _ => rfl⟩
    have hlt : c < 32 := lt_of_not_raw hraw hback hquote
    rcases control_of_lt hlt with ⟨hhigh, hlow, hcode, hbytes⟩
    rw [if_neg h8, if_neg h8, if_neg h12, if_neg h12, if_neg h10, if_neg h10,
      if_neg h13, if_neg h13,
      if_neg h9, if_neg h9, dif_pos ⟨hhigh, hlow⟩]
    refine ⟨rfl, ?_⟩
    intro hnul s
    have hsmall : c.toUInt32 < 32 := by
      rw [UInt32.lt_iff_toNat_lt, UInt8.toNat_toUInt32]
      exact UInt8.lt_iff_toNat_lt.mp hlt
    have hsurrogate : ¬ 0xD800 <= c.toUInt32 :=
      UInt32.not_le.mpr (UInt32.lt_of_lt_of_le hsmall (by decide))
    have hlone : ¬ 0xDC00 <= c.toUInt32 :=
      UInt32.not_le.mpr (UInt32.lt_of_lt_of_le hsmall (by decide))
    have hzero : c.toUInt32 ≠ 0 := fun heq => hnul (UInt8.toUInt32_inj.mp heq)
    have hvalid : ¬ ((0xDC00 <= c.toUInt32 ∧ c.toUInt32 <= 0xDFFF) ∨
      c.toUInt32 = 0) := by
      rintro (⟨hlow', _⟩ | heq)
      · exact hlone hlow'
      · exact hzero heq
    have hsingle : ¬ (0xD800 <= c.toUInt32 ∧ c.toUInt32 <= 0xDBFF) :=
      fun h => hsurrogate h.left
    conv_lhs => rw [decodeChars.eq_def]
    simp only [hcode, hvalid, hsingle, if_false, hbytes hnul]
    rfl

def escapeChars (s : List UInt8) : List StringChar :=
  s.map escapeChar

theorem printStringPtr_eq (s : List UInt8) : printStringPtr s = stringText
    (escapeChars s) := by
  have htext : (s.map escape) = (escapeChars s).map StringChar.text := by
    rw [escapeChars, List.map_map]
    apply List.map_congr_left
    intro c _
    exact (escapeChar_spec c).left.symm
  rw [printStringPtr, stringText, charsText, htext]

theorem decodeChars_escape {s : List UInt8} (h : nul ∉ s) :
    decodeChars (escapeChars s) = s := by
  induction s with
  | nil =>
      rfl
  | cons c s ih =>
      have hc : c ≠ nul := fun heq => h (heq ▸ List.mem_cons_self)
      have hs : nul ∉ s := fun hmem => h (List.mem_cons_of_mem c hmem)
      have hstep := (escapeChar_spec c).right hc (escapeChars s)
      rw [ih hs] at hstep
      exact hstep

theorem cString_of_not_mem {s : List UInt8} (h : nul ∉ s) : cString s = s := by
  unfold cString
  rw [List.takeWhile_eq_self_iff]
  intro c hc
  rw [bne_iff_ne]
  rintro rfl
  exact h hc

theorem stringValue_escape {s : List UInt8} (h : nul ∉ s) :
    stringValue (escapeChars s) = s := by
  rw [stringValue, decodeChars_escape h, cString_of_not_mem h]

theorem denotes_printString {s : List UInt8} (h : nul ∉ s) [CDouble double] :
    Denotes (.value (.string s) : Node double) (printStringPtr s) := by
  have hdenotes : Denotes (.value (.string (stringValue (escapeChars s))) :
    Node double)
      (stringText (escapeChars s)) := .string (escapeChars s)
  rw [stringValue_escape h, ← printStringPtr_eq] at hdenotes
  exact hdenotes

/-!
# Trees
-/

/--
The trees that are sent: strings and names are C strings, and numbers are values of
an `int`.
-/
inductive OnWire [CDouble double] : Item double -> Prop where
  | null : OnWire .null
  | false : OnWire .false
  | true : OnWire .true
  | number {i : Int} : IsInt i -> OnWire (.number (CDouble.ofInt i) i)
  | string {s : List UInt8} : nul ∉ s -> OnWire (.string s)
  | array {items : List (Item double)} : (forall v, v ∈ items -> OnWire v) ->
      OnWire (.array items)
  | object {members : List (List UInt8 × Item double)} :
      (forall m, m ∈ members -> nul ∉ m.1) ->
      (forall m, m ∈ members -> OnWire m.2) -> OnWire (.object members)

section Trees

variable [CPrintf double]

theorem ws_fmt (fmt : Bool) {w : List UInt8} (h : Ws w) :
    Ws (if fmt then w else []) := by
  cases fmt with
  | false =>
      exact ws_nil
  | true =>
      exact h

theorem ws_append {w w' : List UInt8} (h : Ws w) (h' : Ws w') : Ws (w ++ w') := by
  intro c hc
  rcases List.mem_append.mp hc with hc | hc
  · exact h c hc
  · exact h' c hc

theorem ws_tabs (n : Nat) : Ws (List.replicate n tab) := by
  intro c hc
  rw [List.eq_of_mem_replicate hc]
  exact Or.inr (Or.inl rfl)

theorem ws_blank : Ws [32] := by
  intro c hc
  rw [List.mem_singleton.mp hc]
  exact Or.inl rfl

theorem ws_tab : Ws [tab] :=
  ws_tabs 1

theorem ws_newline : Ws [newline] := by
  intro c hc
  rw [List.mem_singleton.mp hc]
  exact Or.inr (Or.inr (Or.inl rfl))

theorem denotes_composeArray (depth : Nat) (fmt : Bool)
    {items : List (Item double)} (hne : items ≠ [])
    (h : forall v, v ∈ items -> Denotes (.value v) (printValue depth fmt v)) :
    Denotes (.entries .array items)
      (composeArray fmt (printItems depth fmt items)) := by
  induction items with
  | nil =>
      exact absurd rfl hne
  | cons v items ih =>
      have hv : Denotes (.entry .array v) (printValue depth fmt v ++ []) :=
        .element (h v List.mem_cons_self) ws_nil
      rw [List.append_nil] at hv
      cases items with
      | nil =>
          exact .last hv
      | cons v' items =>
          have hrest := ih (List.cons_ne_nil v' items) (fun x hx =>
            h x (List.mem_cons_of_mem v hx))
          exact .more hv (ws_fmt fmt ws_blank) hrest

/-- A member is printed with its tabs in front of it, which belong to what
precedes it. -/
theorem denotes_composeObject (depth : Nat) (fmt : Bool)
    {members : List (List UInt8 × Item double)}
    {indent : List UInt8} (hindent : Ws indent) (hne : members ≠ [])
    (hnames : forall m, m ∈ members -> nul ∉ m.1)
    (h : forall m, m ∈ members -> Denotes (.value m.2) (printValue depth fmt m.2)) :
    exists text, composeObject depth fmt (printMembers depth fmt members) ++
      indent =
        (if fmt then List.replicate depth tab else []) ++ text ∧
      Denotes (.entries .object members) text := by
  induction members with
  | nil =>
      exact absurd rfl hne
  | cons m members ih =>
      rcases m with ⟨name, v⟩
      have hname : nul ∉ name := hnames (name, v) List.mem_cons_self
      have hv : Denotes (.value v) (printValue depth fmt v) :=
        h (name, v) List.mem_cons_self
      have hmember : forall w, Ws w ->
          Denotes (.entry .object (name, v) : Node double)
          (printStringPtr name ++ ([] ++ (colon :: ((if fmt then [tab] else []) ++
            (printValue depth fmt v ++ w))))) := by
        intro w hw
        have hdenotes :
            Denotes (.entry .object (stringValue (escapeChars name), v) :
          Node double)
            (stringText (escapeChars name) ++
              ([] ++ (colon :: ((if fmt then [tab] else []) ++
              (printValue depth fmt v ++ w))))) :=
          .member (escapeChars name) ws_nil (ws_fmt fmt ws_tab) hv hw
        rw [stringValue_escape hname, ← printStringPtr_eq] at hdenotes
        exact hdenotes
      cases members with
      | nil =>
          refine ⟨_, ?_, .last (hmember ((if fmt then [newline] else []) ++ indent)
            (ws_append (ws_fmt fmt ws_newline) hindent))⟩
          simp only [printMembers, composeObject, List.isEmpty_nil, if_true,
            List.append_assoc,
            List.cons_append, List.nil_append, List.append_nil]
      | cons m' members =>
          rcases ih (List.cons_ne_nil m' members) (fun x hx =>
            hnames x (List.mem_cons_of_mem _ hx))
            (fun x hx => h x (List.mem_cons_of_mem _ hx)) with ⟨text, htext, hrest⟩
          refine ⟨_, ?_, .more (hmember [] ws_nil)
            (ws_append (ws_fmt fmt ws_newline) (ws_fmt fmt (ws_tabs depth))) hrest⟩
          have hcompose : composeObject depth fmt
              (printMembers depth fmt ((name, v) :: m' :: members)) ++
              indent = (if fmt then List.replicate depth tab else []) ++
                (printStringPtr name ++
                (colon :: ((if fmt then [tab] else []) ++ (printValue depth fmt v ++
                  (comma :: ((if fmt then [newline] else []) ++
                    (composeObject depth fmt
                      (printMembers depth fmt (m' :: members)) ++
                      indent))))))) := by
            rcases m' with ⟨name', v'⟩
            simp only [printMembers, composeObject, List.isEmpty_cons,
              Bool.false_eq_true, if_false,
              List.append_assoc, List.cons_append, List.nil_append]
          rw [hcompose, htext]
          simp only [List.append_assoc, List.cons_append, List.nil_append,
            List.append_nil]

variable [LawfulDouble double]

theorem denotes_printValue {v : Item double} (h : OnWire v) (depth : Nat)
    (fmt : Bool) :
    Denotes (.value v) (printValue depth fmt v) := by
  induction h generalizing depth with
  | null =>
      exact .null
  | false =>
      exact .false
  | true =>
      exact .true
  | number hi =>
      exact denotes_printNumber hi
  | string hs =>
      exact denotes_printString hs
  | @array items _ ih =>
      cases items with
      | nil =>
          exact .empty .array ws_nil
      | cons v items =>
          have hentries := denotes_composeArray (depth + 1) fmt
            (List.cons_ne_nil v items)
            (fun x hx => ih x hx (depth + 1))
          exact .container .array ws_nil hentries
  | @object members hnames _ ih =>
      cases members with
      | nil =>
          have hws : Ws ((if fmt then [newline] else []) ++
            (if fmt then List.replicate depth tab else [])) :=
            ws_append (ws_fmt fmt ws_newline) (ws_fmt fmt (ws_tabs depth))
          have hempty : Denotes (.value (Kind.object.wrap []) : Node double)
              (lbrace :: (((if fmt then [newline] else []) ++
                (if fmt then List.replicate depth tab else [])) ++ [rbrace])) :=
            .empty .object hws
          rw [List.append_assoc] at hempty
          exact hempty
      | cons m members =>
          rcases denotes_composeObject (depth + 1) fmt
            (ws_fmt fmt (ws_tabs depth)) (List.cons_ne_nil m members) hnames
            (fun x hx => ih x hx (depth + 1)) with ⟨text, htext, hentries⟩
          have hcontainer : Denotes (.value (Kind.object.wrap (m :: members)) :
            Node double)
              (lbrace :: (((if fmt then [newline] else []) ++
                (if fmt then List.replicate (depth + 1) tab else [])) ++
                  (text ++ [rbrace]))) :=
            .container .object (ws_append (ws_fmt fmt ws_newline)
              (ws_fmt fmt (ws_tabs (depth + 1)))) hentries
          rw [List.append_assoc, ← List.append_assoc _ text, ← htext] at hcontainer
          rw [printValue]
          simp only [List.append_assoc] at hcontainer ⊢
          exact hcontainer

/-- An object that is printed and parsed again is the same object. -/
theorem cJSONPrint_roundTrip (stack : Stack)
    {members : List (List UInt8 × Item double)}
    (h : OnWire (.object members)) (rest : List UInt8) :
    cJSONParseStream stack (cJSONPrint (.object members) ++ nul :: rest) =
      .ok (.object members) (nul :: rest) :=
  cJSONParseStream_container stack .object ws_nil (denotes_printValue h 0 true)
    List.mem_cons_self

end Trees

/-- An object with a quote and a control character in a name, and the least
number. -/
def leastMember : List (List UInt8 × Item Rat) :=
  [([97, quote, 1], .number (CDouble.ofInt (-(2 ^ 31))) (-(2 ^ 31)))]

theorem cJSONPrint_roundTrip_least :
    cJSONParseStream (fun _ => (0, 0)) (cJSONPrint (.object leastMember) ++ [nul]) =
      .ok (.object leastMember) [nul] := by
  refine cJSONPrint_roundTrip _ (.object ?_ ?_) []
  · intro m hm
    rw [List.mem_singleton.mp hm]
    decide
  · intro m hm
    have hleast : IsInt (-(2 ^ 31)) := ⟨by decide, by decide⟩
    rw [List.mem_singleton.mp hm]
    exact .number hleast

end CJson
end Lepd
