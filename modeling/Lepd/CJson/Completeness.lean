import Lepd.CJson.NumberText
import Lepd.CJson.ParserSteps
import Lepd.CJson.StringText

/-!
# Completeness

Every text of the grammar is parsed to the tree that it denotes, and the cursor
is left exactly behind it, whatever the unset variables of `parse_string` hold.
-/

namespace Lepd
namespace CJson

open Foundation
open Foundation.Scan

variable {double : Type}

/-!
# Names
-/

theorem parseStringAt_stringText (stack : Stack) (s : List StringChar)
    {rest : List UInt8}
    (hnul : nul ∈ rest) :
    parseStringAt stack (stringText s ++ rest) = .ok (stringValue s) rest :=
  parseString_stringText s hnul _

theorem parseMember_stringText (stack : Stack) (parse : Parse (Item double))
    (s : List StringChar)
    {w cur : List UInt8} (hw : Ws w) (hnul : nul ∈ cur) :
    parseMember stack parse (stringText s ++ (w ++ (colon :: cur))) =
      afterColon parse (stringValue s) cur := by
  have hname : parseStringAt stack (stringText s ++ (w ++ (colon :: cur))) =
      .ok (stringValue s) (w ++ (colon :: cur)) :=
    parseStringAt_stringText stack s (by simp [hnul])
  have hcolon : skip (w ++ (colon :: cur)) = .ok () (colon :: cur) := by
    rw [skip_ws hw, skip_cons rfl]
  exact parseMember_colon hname hcolon

variable [CDouble double]

/-!
# First bytes
-/

def Starts (c : UInt8) : Prop :=
  isspace c = false ∧ forall kind : Kind, c ≠ kind.closing

theorem starts_of_isDigit {c : UInt8} (h : isDigit c = true) : Starts c := by
  constructor
  · by_contra hspace
    have hspace' : isspace c = true := by simpa using hspace
    rcases isspace_cases hspace' with rfl | rfl | rfl | rfl | rfl | rfl <;> cases h
  · intro kind
    cases kind with
    | array =>
        exact ne_of_isDigit_ne h (by decide)
    | object =>
        exact ne_of_isDigit_ne h (by decide)

theorem starts_opening (kind : Kind) : Starts kind.opening := by
  cases kind <;> exact ⟨rfl, fun kind => by cases kind <;> decide⟩

theorem numberText_head {n : NumberText} (hn : n.Complete) :
    exists c tail, n.text = c :: tail ∧ (c = minus ∨ isDigit c = true) := by
  cases hneg : n.negative with
  | true =>
      exact ⟨minus, n.int ++ (n.fracText ++ n.expText),
        by simp [NumberText.text, NumberText.signText, hneg], Or.inl rfl⟩
  | false =>
      cases hint : n.int with
      | nil =>
          exact absurd hint hn.left
      | cons d ds =>
          exact ⟨d, ds ++ (n.fracText ++ n.expText),
            by simp [NumberText.text, NumberText.signText, hneg, hint],
            Or.inr (n.int_digits d (hint ▸ List.mem_cons_self))⟩

theorem starts_of_number {c : UInt8} (h : c = minus ∨ isDigit c = true) :
    Starts c := by
  rcases h with rfl | h
  · exact ⟨rfl, fun kind => by cases kind <;> decide⟩
  · exact starts_of_isDigit h

theorem denotes_head {node : Node double} {text : List UInt8}
    (h : Denotes node text) :
    exists c tail, text = c :: tail ∧ Starts c := by
  induction h with
  | null =>
      exact ⟨_, _, rfl, rfl, fun kind => by cases kind <;> decide⟩
  | false =>
      exact ⟨_, _, rfl, rfl, fun kind => by cases kind <;> decide⟩
  | true =>
      exact ⟨_, _, rfl, rfl, fun kind => by cases kind <;> decide⟩
  | number n hn =>
      rcases numberText_head hn with ⟨c, tail, htext, hc⟩
      exact ⟨c, tail, htext, starts_of_number hc⟩
  | string s =>
      exact ⟨_, _, rfl, rfl, fun kind => by cases kind <;> decide⟩
  | empty kind hw =>
      exact ⟨_, _, rfl, starts_opening kind⟩
  | container kind hw hentries ih =>
      exact ⟨_, _, rfl, starts_opening kind⟩
  | element hvalue hw ih =>
      rcases ih with ⟨c, tail, rfl, hc⟩
      exact ⟨c, _, rfl, hc⟩
  | member s hw hw' hvalue hw'' ih =>
      exact ⟨_, _, rfl, rfl, fun kind => by cases kind <;> decide⟩
  | last hentry ih =>
      exact ih
  | more hentry hw hrest ih ihrest =>
      rcases ih with ⟨c, tail, rfl, hc⟩
      exact ⟨c, _, rfl, hc⟩

theorem skip_denotes {w text : List UInt8} {node : Node double} (hw : Ws w)
    (h : Denotes node text) (rest : List UInt8) :
    exists c tail, text ++ rest = c :: tail ∧ Starts c ∧
      skip (w ++ (text ++ rest)) = .ok () (c :: tail) := by
  rcases denotes_head h with ⟨c, tail, rfl, hc⟩
  exact ⟨c, tail ++ rest, rfl, hc, by
    rw [skip_ws hw, List.cons_append, skip_cons hc.left]⟩

/-!
# Last bytes
-/

/-- What follows a value inside a container. -/
def Follows (rest : List UInt8) : Prop :=
  exists c tail, rest = c :: tail ∧ (IsWs c ∨ c = comma ∨ exists kind : Kind,
    c = kind.closing)

def EntryEnd (kind : Kind) (rest : List UInt8) : Prop :=
  exists c tail, rest = c :: tail ∧ (c = comma ∨ c = kind.closing)

theorem Follows.cases {rest : List UInt8} (h : Follows rest) :
    exists c tail, rest = c :: tail ∧
      (c = 32 ∨ c = 9 ∨ c = 10 ∨ c = 13 ∨ c = 44 ∨ c = 93 ∨ c = 125) := by
  rcases h with ⟨c, tail, rfl, (h | h | h | h) | h | ⟨kind, h⟩⟩
  · exact ⟨c, tail, rfl, by simp [h]⟩
  · exact ⟨c, tail, rfl, by simp [h]⟩
  · exact ⟨c, tail, rfl, by simp [h]⟩
  · exact ⟨c, tail, rfl, by simp [h]⟩
  · exact ⟨c, tail, rfl, by simp [h]⟩
  · refine ⟨c, tail, rfl, ?_⟩
    cases kind <;> simp [h, Kind.closing]

theorem Follows.numberEnd {rest : List UInt8} (h : Follows rest) :
    NumberEnd rest := by
  rcases h.cases with ⟨c, tail, rfl, hc⟩
  refine ⟨c, tail, rfl, ?_⟩
  rcases hc with rfl | rfl | rfl | rfl | rfl | rfl | rfl <;> simp +decide

theorem Follows.ne_nul {rest : List UInt8} (h : Follows rest) :
    exists c tail, rest = c :: tail ∧ c ≠ nul := by
  rcases h.cases with ⟨c, tail, rfl, hc⟩
  refine ⟨c, tail, rfl, ?_⟩
  rcases hc with rfl | rfl | rfl | rfl | rfl | rfl | rfl <;> decide

theorem EntryEnd.isspace {kind : Kind} {rest : List UInt8}
    (h : EntryEnd kind rest) :
    skip rest = .ok () rest := by
  rcases h with ⟨c, tail, rfl, h⟩
  apply skip_cons
  rcases h with rfl | rfl
  · rfl
  · cases kind <;> rfl

theorem EntryEnd.follows {kind : Kind} {rest w : List UInt8}
    (h : EntryEnd kind rest) (hw : Ws w) :
    Follows (w ++ rest) := by
  rcases h with ⟨c, tail, rfl, h⟩
  cases w with
  | nil =>
      rcases h with h | h
      · exact ⟨c, tail, rfl, Or.inr (Or.inl h)⟩
      · exact ⟨c, tail, rfl, Or.inr (Or.inr ⟨kind, h⟩)⟩
  | cons d w =>
      exact ⟨d, _, rfl, Or.inl (hw d List.mem_cons_self)⟩

theorem skip_entryEnd {kind : Kind} {rest w : List UInt8}
    (h : EntryEnd kind rest) (hw : Ws w) :
    skip (w ++ rest) = .ok () rest := by
  rw [skip_ws hw, h.isspace]

theorem Kind.closing_ne_comma (kind : Kind) : kind.closing ≠ comma := by
  cases kind <;> decide

theorem Kind.opening_other (kind : Kind) :
    kind.opening ≠ 110 ∧ kind.opening ≠ 102 ∧ kind.opening ≠ 116 := by
  cases kind <;> decide

/-!
# Leaves
-/

theorem parseValue_stringText (stack : Stack) (depth : Nat) (s : List StringChar)
    {rest : List UInt8} (hnul : nul ∈ rest) :
    parseValue stack (depth + 1) (stringText s ++ rest) =
      .ok (.string (stringValue s) : Item double) rest := by
  have hstring := parseStringAt_stringText stack s hnul
  rw [stringText, List.cons_append] at hstring ⊢
  rw [parseValue_other (by decide) (by decide) (by decide), dispatch_string,
    hstring]
  rfl

theorem parseValue_number (stack : Stack) (depth : Nat) {c : UInt8}
    (hc : c = minus ∨ isDigit c = true) (cur : List UInt8) :
    parseValue stack (depth + 1) (c :: cur) =
      (parseNumber : Parse (Item double)) (c :: cur) := by
  have hother : c ≠ 110 ∧ c ≠ 102 ∧ c ≠ 116 := by
    rcases hc with rfl | hc
    · decide
    · exact ⟨ne_of_isDigit_ne hc (by decide), ne_of_isDigit_ne hc (by decide),
        ne_of_isDigit_ne hc (by decide)⟩
  rw [parseValue_other hother.left hother.right.left hother.right.right,
    dispatch_number _ _ hc]

theorem parseValue_nullText (stack : Stack) (depth : Nat) {c : UInt8} (hc : c ≠ nul)
    (cur : List UInt8) :
    parseValue stack (depth + 1) (nullText ++ c :: cur) =
      .ok (.null : Item double) (c :: cur) :=
  parseValue_null (streamCmp_literal nullText hc cur)

theorem parseValue_falseText (stack : Stack) (depth : Nat) {c : UInt8}
    (hc : c ≠ nul)
    (cur : List UInt8) :
    parseValue stack (depth + 1) (falseText ++ c :: cur) =
      .ok (.false : Item double) (c :: cur) := by
  rcases streamCmp_other (s := 110) (c := 102) (by decide) (by decide)
    [117, 108, 108]
    ([97, 108, 115, 101] ++ c :: cur) with ⟨k, hk, hnull⟩
  exact parseValue_false hk hnull (streamCmp_literal falseText hc cur)

theorem parseValue_trueText (stack : Stack) (depth : Nat) {c : UInt8} (hc : c ≠ nul)
    (cur : List UInt8) :
    parseValue stack (depth + 1) (trueText ++ c :: cur) =
      .ok (.true : Item double) (c :: cur) := by
  rcases streamCmp_other (s := 110) (c := 116) (by decide) (by decide)
    [117, 108, 108]
    ([114, 117, 101] ++ c :: cur) with ⟨k, hk, hnull⟩
  rcases streamCmp_other (s := 102) (c := 116) (by decide) (by decide)
    [97, 108, 115, 101]
    ([114, 117, 101] ++ c :: cur) with ⟨k', hk', hfalse⟩
  exact parseValue_true hk hnull hk' hfalse (streamCmp_literal trueText hc cur)

/-!
# Whole texts
-/

def Closed (v : Item double) : Prop :=
  exists (kind : Kind) (es : List (kind.Entry double)), v = kind.wrap es

/-- The text of a node is read as that node, with the depth that its length
allows. -/
def ReadAs (stack : Stack) (text : List UInt8) : Node double -> Prop
  | .value v =>
      forall depth rest, text.length < depth -> nul ∈ rest -> Follows rest ∨
        Closed v ->
        parseValue stack depth (text ++ rest) = .ok v rest
  | .entry kind e =>
      forall depth rest, text.length < depth -> nul ∈ rest -> EntryEnd kind rest ->
        kind.parseEntry stack (parseValue stack depth) (text ++ rest) = .ok e rest
  | .entries kind es =>
      forall depth rest, text.length < depth -> nul ∈ rest ->
        exists e es' cur, es = e :: es' ∧
          cur.length <= (text ++ kind.closing :: rest).length ∧
          kind.parseEntry stack (parseValue stack depth)
            (text ++ kind.closing :: rest) =
            .ok e cur ∧
          forall fuel acc, cur.length < fuel ->
            itemsLoop kind.closing (kind.parseEntry stack
              (parseValue stack depth)) fuel acc cur =
              .ok (acc ++ es') rest

theorem readAs_empty (stack : Stack) (kind : Kind) {w : List UInt8} (hw : Ws w) :
    ReadAs stack (kind.opening :: (w ++ [kind.closing]))
      (.value (kind.wrap []) : Node double) := by
  intro depth rest hdepth hnul _
  cases depth with
  | zero =>
      cases hdepth
  | succ depth =>
      have hskip : skip (w ++ kind.closing :: rest) =
          .ok () (kind.closing :: rest) :=
        skip_entryEnd ⟨kind.closing, rest, rfl, Or.inr rfl⟩ hw
      have htext : kind.opening :: (w ++ [kind.closing]) ++ rest =
          kind.opening :: (w ++ kind.closing :: rest) := by
        simp
      rcases kind.opening_other with ⟨hn, hf, ht⟩
      rw [htext, parseValue_other hn hf ht, dispatch_container,
        parseItems_empty hskip]
      rfl

theorem readAs_container (stack : Stack) (kind : Kind) {w text : List UInt8}
    {es : List (kind.Entry double)} (hw : Ws w)
    (hentries : Denotes (.entries kind es) text)
    (ih : ReadAs stack text (.entries kind es)) :
    ReadAs stack (kind.opening :: (w ++ (text ++ [kind.closing])))
      (.value (kind.wrap es) : Node double) := by
  intro depth rest hdepth hnul _
  cases depth with
  | zero =>
      cases hdepth
  | succ depth =>
      have hlength : text.length < depth := by
        simp at hdepth
        omega
      rcases ih depth rest hlength hnul with ⟨e, es', cur, rfl, _, hfirst, hloop⟩
      rcases skip_denotes hw hentries (kind.closing :: rest) with
        ⟨c, tail, htail, hc, hskip⟩
      have htext : kind.opening :: (w ++ (text ++ [kind.closing])) ++ rest =
          kind.opening :: (w ++ (text ++ kind.closing :: rest)) := by
        simp
      rcases kind.opening_other with ⟨hn, hf, ht⟩
      rw [htext, parseValue_other hn hf ht, dispatch_container,
        parseItems_first hskip (hc.right kind), ← htail, hfirst, andThen_ok,
        hloop _ [e] (Nat.lt_succ_self _)]
      rfl

theorem readAs_element (stack : Stack) {v : Item double} {text w : List UInt8}
    (hw : Ws w) (ih : ReadAs stack text (.value v)) :
    ReadAs stack (text ++ w) (.entry .array v) := by
  intro depth rest hdepth hnul hend
  have hlength : text.length < depth := by
    simp at hdepth
    omega
  have hvalue := ih depth (w ++ rest) hlength (List.mem_append_right w hnul)
    (Or.inl (hend.follows hw))
  rw [List.append_assoc]
  change parseElement (parseValue stack depth) (text ++ (w ++ rest)) = _
  rw [parseElement_apply, hvalue, andThen_ok, skip_entryEnd hend hw]
  rfl

theorem readAs_member (stack : Stack) {v : Item double} {text w w' w'' : List UInt8}
    (s : List StringChar) (hw : Ws w) (hw' : Ws w')
    (hvalue : Denotes (.value v) text)
    (hw'' : Ws w'') (ih : ReadAs stack text (.value v)) :
    ReadAs stack (stringText s ++ (w ++ (colon :: (w' ++ (text ++ w'')))))
      (.entry .object (stringValue s, v)) := by
  intro depth rest hdepth hnul hend
  have hlength : text.length < depth := by
    simp at hdepth
    omega
  have hread := ih depth (w'' ++ rest) hlength (List.mem_append_right w'' hnul)
    (Or.inl (hend.follows hw''))
  rcases skip_denotes hw' hvalue (w'' ++ rest) with ⟨c, tail, htail, _, hskip⟩
  have htext : stringText s ++ (w ++ (colon :: (w' ++ (text ++ w'')))) ++ rest =
      stringText s ++ (w ++ (colon :: (w' ++ (text ++ (w'' ++ rest))))) := by
    simp
  change parseMember stack (parseValue stack depth) _ = _
  rw [htext, parseMember_stringText stack _ s hw (by simp [hnul])]
  simp only [afterColon, bind_apply, hskip, ← htail, andThen_ok, hread,
    skip_entryEnd hend hw'',
    pure_apply]

theorem readAs_last (stack : Stack) {kind : Kind} {e : kind.Entry double}
    {text : List UInt8}
    (ih : ReadAs stack text (.entry kind e)) :
    ReadAs stack text (.entries kind [e]) := by
  intro depth rest hdepth hnul
  refine ⟨e, [], kind.closing :: rest, rfl, by simp,
    ih depth _ hdepth (by simp [hnul]) ⟨_, rest, rfl, Or.inr rfl⟩, ?_⟩
  intro fuel acc hfuel
  cases fuel with
  | zero =>
      cases hfuel
  | succ fuel =>
      rw [itemsLoop_close kind.closing_ne_comma, List.append_nil]

theorem readAs_more (stack : Stack) {kind : Kind} {e : kind.Entry double}
    {es : List (kind.Entry double)} {text w more : List UInt8}
    (ih : ReadAs stack text (.entry kind e)) (hw : Ws w)
    (hmore : Denotes (.entries kind es) more)
    (ihmore : ReadAs stack more (.entries kind es)) :
    ReadAs stack (text ++ (comma :: (w ++ more))) (.entries kind (e :: es)) := by
  intro depth rest hdepth hnul
  have hlength : text.length < depth ∧ more.length < depth := by
    simp at hdepth
    omega
  rcases ihmore depth rest hlength.right hnul with
    ⟨e', es', cur, rfl, hcur, hfirst, hloop⟩
  rcases skip_denotes hw hmore (kind.closing :: rest) with
    ⟨c, tail, htail, hc, hskip⟩
  have htext : text ++ (comma :: (w ++ more)) ++ kind.closing :: rest =
      text ++ (comma :: (w ++ (more ++ kind.closing :: rest))) := by
    simp
  have hentry := ih depth (comma :: (w ++ (more ++ kind.closing :: rest)))
    hlength.left
    (by simp [hnul]) ⟨_, _, rfl, Or.inl rfl⟩
  refine ⟨e, e' :: es', comma :: (w ++ (more ++ kind.closing :: rest)), rfl, ?_,
    ?_, ?_⟩
  · rw [htext]
    simp
  · rw [htext]
    exact hentry
  · intro fuel acc hfuel
    cases fuel with
    | zero =>
        cases hfuel
    | succ fuel =>
        have hrest : cur.length < fuel := by
          simp at hfuel hcur
          omega
        rw [itemsLoop_more hskip (hc.right kind), ← htail, hfirst, andThen_ok,
          hloop fuel _ hrest]
        simp

theorem readAs_literal (stack : Stack) {v : Item double} {text : List UInt8}
    (hv : ¬ Closed v)
    (hread : forall depth c, c ≠ nul -> forall cur,
      parseValue stack (depth + 1) (text ++ c :: cur) = .ok v (c :: cur)) :
    ReadAs stack text (.value v) := by
  intro depth rest hdepth hnul hrest
  rcases (hrest.resolve_right hv).ne_nul with ⟨c, cur, rfl, hc⟩
  cases depth with
  | zero =>
      cases hdepth
  | succ depth =>
      exact hread depth c hc cur

theorem readAs_number (stack : Stack) {n : NumberText} (hn : n.Complete) :
    ReadAs stack n.text (.value (n.item : Item double)) := by
  intro depth rest hdepth hnul hrest
  have hopen : ¬ Closed (n.item : Item double) := by
    rintro ⟨kind, es, h⟩
    cases kind <;> cases h
  have hend : NumberEnd rest := (hrest.resolve_right hopen).numberEnd
  rcases numberText_head hn with ⟨c, tail, htext, hc⟩
  cases depth with
  | zero =>
      cases hdepth
  | succ depth =>
      rw [← parseNumber_append n hend, htext, List.cons_append,
        parseValue_number _ _ hc]

theorem readAs_of_denotes (stack : Stack) {node : Node double} {text : List UInt8}
    (h : Denotes node text) : ReadAs stack text node := by
  induction h with
  | null =>
      refine readAs_literal stack ?_ (fun depth c hc =>
        parseValue_nullText stack depth hc)
      rintro ⟨kind, es, h⟩
      cases kind <;> cases h
  | false =>
      refine readAs_literal stack ?_ (fun depth c hc =>
        parseValue_falseText stack depth hc)
      rintro ⟨kind, es, h⟩
      cases kind <;> cases h
  | true =>
      refine readAs_literal stack ?_ (fun depth c hc =>
        parseValue_trueText stack depth hc)
      rintro ⟨kind, es, h⟩
      cases kind <;> cases h
  | number n hn =>
      exact readAs_number stack hn
  | string s =>
      intro depth rest hdepth hnul _
      cases depth with
      | zero =>
          cases hdepth
      | succ depth =>
          exact parseValue_stringText stack depth s hnul
  | empty kind hw =>
      exact readAs_empty stack kind hw
  | container kind hw hentries ih =>
      exact readAs_container stack kind hw hentries ih
  | element hvalue hw ih =>
      exact readAs_element stack hw ih
  | member s hw hw' hvalue hw'' ih =>
      exact readAs_member stack s hw hw' hvalue hw'' ih
  | last hentry ih =>
      exact readAs_last stack ih
  | more hentry hw hrest ih ihrest =>
      exact readAs_more stack ih hw hrest ihrest

/-- A container is parsed to its tree, with the end pointer on the first byte
after it. -/
theorem cJSONParseStream_container (stack : Stack) (kind : Kind)
    {es : List (kind.Entry double)}
    {w text : List UInt8} (hw : Ws w) (h : Denotes (.value (kind.wrap es)) text)
    {rest : List UInt8} (hnul : nul ∈ rest) :
    cJSONParseStream stack (w ++ (text ++ rest)) = .ok (kind.wrap es) rest := by
  rcases skip_denotes hw h rest with ⟨c, tail, htail, _, hskip⟩
  have hdepth : text.length < (text ++ rest).length + 1 := by
    rw [List.length_append]
    omega
  have hread := readAs_of_denotes stack h _ rest hdepth hnul
    (Or.inr ⟨kind, es, rfl⟩)
  simp only [cJSONParseStream, bind_apply, hskip, andThen_ok, ← htail, hread]

/--
An object is parsed to the tree it denotes, whatever follows it, with the end
pointer on the first byte that follows.
-/
theorem cJSONParseStream_object (stack : Stack)
    {members : List (List UInt8 × Item double)}
    {text : List UInt8} (h : Denotes (.value (.object members)) text)
    (following : List UInt8) :
    cJSONParseStream stack (text ++ (following ++ [nul])) =
      .ok (.object members) (following ++ [nul]) :=
  cJSONParseStream_container stack .object ws_nil h
    (List.mem_append_right following (List.mem_singleton_self nul))

/-- The object `{"a":[true]}` with a closing brace behind it. -/
theorem cJSONParseStream_object_true :
    cJSONParseStream (fun _ => (0, 0))
        ([lbrace, quote, 97, quote, colon, lbracket] ++ trueText ++
          [rbracket, rbrace] ++
          ([rbrace] ++ [nul])) =
      .ok (.object [([97], .array [.true])] : Item Rat) ([rbrace] ++ [nul]) := by
  have hname : 32 <= (97 : UInt8) ∧ (97 : UInt8) ≠ quote ∧ (97 : UInt8) ≠
      backslash := by
    decide
  have hvalue : Denotes (.value (.array [.true]) : Node Rat)
      (lbracket :: ([] ++ (trueText ++ [] ++ [rbracket]))) :=
    .container .array ws_nil (.last (.element .true ws_nil))
  have hobject : Denotes (.value (.object [([97], .array [.true])]) : Node Rat)
      ([lbrace, quote, 97, quote, colon, lbracket] ++ trueText ++
        [rbracket, rbrace]) :=
    .container .object ws_nil
      (.last (.member [.raw 97 hname] ws_nil ws_nil hvalue ws_nil))
  exact cJSONParseStream_object _ hobject [rbrace]

end CJson
end Lepd
