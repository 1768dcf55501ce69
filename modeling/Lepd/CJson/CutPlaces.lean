import Lepd.CJson.Completeness
import Lepd.CJson.StringStop

/-!
# Places to cut a text

Reading a text byte by byte, one is outside of strings, with the letters of the
current word read so far, or inside a string, perhaps inside an escape.  Where
this leaves one at the end of a prefix decides whether the parser can be stopped
there and tell that there is more to come.
-/

namespace Lepd
namespace CJson

open Foundation
open Foundation.Scan

/-!
# The lexical state
-/

inductive Lex where
  /-- Outside of strings, after the letters of a word. -/
  | out (word : List UInt8)
  /-- Inside a string. -/
  | str
  /-- After the backslash of an escape. -/
  | esc
  /-- After `\u` and some of its digits. -/
  | hex (digits : Nat)
deriving DecidableEq

def endsWord (c : UInt8) : Bool :=
  isspace c || c ∈ [comma, colon, lbracket, rbracket, lbrace, rbrace]

namespace Lex

def step : Lex -> UInt8 -> Lex
  | out word, c =>
      if c = quote then str
      else if endsWord c then out []
      else out (word ++ [c])
  | str, c =>
      if c = quote then out []
      else if c = backslash then esc
      else str
  | esc, c => if c = lowerU then hex 0 else str
  | hex digits, _ => if digits < 3 then hex (digits + 1) else str

def read (q : Lex) (text : List UInt8) : Lex :=
  text.foldl step q

/--
The parser can be stopped here: not right behind a literal, not right behind a
decimal point, and not inside an escape.
-/
def Resumable : Lex -> Prop
  | out word => word ∉ [nullText, falseText, trueText] ∧ word.getLast? ≠ some dot
  | str => True
  | esc => False
  | hex _ => False

instance : DecidablePred Resumable
  | out word =>
      inferInstanceAs
        (Decidable (word ∉ [nullText, falseText, trueText] ∧ word.getLast? ≠
          some dot))
  | str => inferInstanceAs (Decidable True)
  | esc => inferInstanceAs (Decidable False)
  | hex _ => inferInstanceAs (Decidable False)

@[simp] theorem read_nil (q : Lex) : q.read [] = q := rfl

@[simp] theorem read_cons (q : Lex) (c : UInt8) (text : List UInt8) :
    q.read (c :: text) = (q.step c).read text := rfl

theorem read_append (q : Lex) (text rest : List UInt8) :
    q.read (text ++ rest) = (q.read text).read rest :=
  List.foldl_append

end Lex

/-- A text can be cut behind these bytes. -/
def Resumable (text : List UInt8) : Prop :=
  ((Lex.out []).read text).Resumable

instance : DecidablePred Resumable := fun text =>
  inferInstanceAs (Decidable ((Lex.out []).read text).Resumable)

/-!
# The state behind the parts of a text
-/

open CJson.Lex

theorem step_endsWord {c : UInt8} (hc : endsWord c = true) (word : List UInt8) :
    (out word).step c = out [] := by
  have hquote : c ≠ quote := by
    rintro rfl
    cases hc
  simp only [step, if_neg hquote, if_pos hc]

theorem endsWord_ws {c : UInt8} (h : IsWs c) : endsWord c = true := by
  simp [endsWord, isspace_of_isWs h]

theorem read_ws {w : List UInt8} (hw : Ws w) : (out []).read w = out [] := by
  induction w with
  | nil =>
      rfl
  | cons c w ih =>
      rw [read_cons, step_endsWord (endsWord_ws (hw c List.mem_cons_self))]
      exact ih (fun d hd => hw d (List.mem_cons_of_mem c hd))

theorem read_out_ws {w : List UInt8} (hw : Ws w) (word : List UInt8) :
    exists word', (out word).read w = out word' := by
  cases w with
  | nil =>
      exact ⟨word, rfl⟩
  | cons c w =>
      refine ⟨[], ?_⟩
      rw [read_cons, step_endsWord (endsWord_ws (hw c List.mem_cons_self))]
      exact read_ws (fun d hd => hw d (List.mem_cons_of_mem c hd))

theorem read_word {text : List UInt8}
    (h : forall c, c ∈ text -> c ≠ quote ∧ endsWord c = false)
    (word : List UInt8) : (out word).read text = out (word ++ text) := by
  induction text generalizing word with
  | nil =>
      simp
  | cons c text ih =>
      have hc := h c List.mem_cons_self
      have hstep : (out word).step c = out (word ++ [c]) := by
        simp [step, hc.left, hc.right]
      rw [read_cons, hstep, ih (fun d hd => h d (List.mem_cons_of_mem c hd))]
      simp

theorem step_plain {c : UInt8} (h : Plain c) : str.step c = str := by
  simp only [step, if_neg h.left, if_neg h.right.right]

theorem read_stringChar (x : StringChar) : str.read x.text = str := by
  cases x with
  | raw c h =>
      exact step_plain (plain_of_raw h)
  | short d h =>
      simp [StringChar.text, step, escapeLetters_ne_lowerU h]
  | unicode a b c d h =>
      simp [StringChar.text, step]

theorem read_charsText (s : List StringChar) : str.read (charsText s) = str := by
  induction s with
  | nil =>
      rfl
  | cons x s ih =>
      rw [charsText_cons, read_append, read_stringChar, ih]

theorem read_stringText (s : List StringChar) :
    (out []).read (stringText s) = out [] := by
  rw [stringText, read_cons]
  change str.read _ = _
  rw [read_append, read_charsText]
  rfl

def NumberByte (c : UInt8) : Prop :=
  isDigit c = true ∨ c ∈ [minus, plus, dot, lowerE, upperE]

theorem NumberByte.word {c : UInt8} (h : NumberByte c) :
    c ≠ quote ∧ endsWord c = false := by
  rcases h with h | h
  · refine ⟨ne_of_isDigit_ne h (by decide), ?_⟩
    have hspace : isspace c = false := (starts_of_isDigit h).left
    have hcomma : c ≠ comma := ne_of_isDigit_ne h (by decide)
    have hcolon : c ≠ colon := ne_of_isDigit_ne h (by decide)
    have hopen : c ≠ lbracket ∧ c ≠ lbrace :=
      ⟨ne_of_isDigit_ne h (by decide), ne_of_isDigit_ne h (by decide)⟩
    have hclose : c ≠ rbracket ∧ c ≠ rbrace :=
      ⟨ne_of_isDigit_ne h (by decide), ne_of_isDigit_ne h (by decide)⟩
    simp only [endsWord, hspace, List.mem_cons, hcomma, hcolon, hopen.left,
      hclose.left, hopen.right,
      hclose.right, List.not_mem_nil, or_self, decide_false, Bool.or_self]
  · simp only [List.mem_cons, List.not_mem_nil, or_false] at h
    rcases h with rfl | rfl | rfl | rfl | rfl <;> decide

theorem ExponentText.byte (e : ExponentText) :
    forall c, c ∈ e.text -> NumberByte c ∧ c ≠ dot := by
  intro c hc
  simp only [ExponentText.text, List.mem_cons, List.mem_append] at hc
  rcases hc with rfl | hc | hc
  · rcases e.letter_eq with
      h | h <;> rw [h] <;> exact ⟨Or.inr (by decide), by decide⟩
  · rcases e.sign_eq with h | h | h <;> rw [h] at hc
    · cases hc
    · rw [List.mem_singleton.mp hc]
      exact ⟨Or.inr (by decide), by decide⟩
    · rw [List.mem_singleton.mp hc]
      exact ⟨Or.inr (by decide), by decide⟩
  · have hdigit := e.digits_digits c hc
    exact ⟨Or.inl hdigit, ne_of_isDigit_ne hdigit (by decide)⟩

theorem signText_byte (n : NumberText) :
    forall c, c ∈ n.signText -> NumberByte c ∧ c ≠ dot := by
  intro c hc
  unfold NumberText.signText at hc
  split at hc
  · rw [List.mem_singleton.mp hc]
    exact ⟨Or.inr (by decide), by decide⟩
  · cases hc

theorem digits_byte {ds : List UInt8} (hds : Digits ds) :
    forall c, c ∈ ds -> NumberByte c ∧ c ≠ dot :=
  fun c hc => ⟨Or.inl (hds c hc), ne_of_isDigit_ne (hds c hc) (by decide)⟩

theorem expText_byte (n : NumberText) : forall c, c ∈ n.expText ->
    NumberByte c ∧ c ≠ dot := by
  intro c hc
  unfold NumberText.expText at hc
  split at hc
  · cases hc
  · next e _ =>
      exact e.byte c hc

theorem numberText_byte (n : NumberText) : forall c, c ∈ n.text ->
    NumberByte c := by
  intro c hc
  simp only [NumberText.text, List.mem_append] at hc
  rcases hc with hc | hc | hc | hc
  · exact (signText_byte n c hc).left
  · exact (digits_byte n.int_digits c hc).left
  · unfold NumberText.fracText at hc
    split at hc
    · cases hc
    · rcases List.mem_cons.mp hc with rfl | hc
      · exact Or.inr (by decide)
      · exact (digits_byte n.frac_digits c hc).left
  · exact (expText_byte n c hc).left

theorem read_numberBytes {text : List UInt8}
    (h : forall c, c ∈ text -> NumberByte c) :
    (out []).read text = out text :=
  read_word (fun c hc => (h c hc).word) []

theorem numberText_getLast (n : NumberText) : n.text.getLast? ≠ some dot := by
  intro h
  by_cases hexp : n.expText = []
  · by_cases hfrac : n.fracText = []
    · have htext : n.text = n.signText ++ n.int := by
        simp [NumberText.text, hexp, hfrac]
      rw [htext] at h
      rcases List.mem_append.mp (List.mem_of_getLast? h) with hdot | hdot
      · exact (signText_byte n dot hdot).right rfl
      · exact (digits_byte n.int_digits dot hdot).right rfl
    · have hne : n.frac ≠ [] := by
        intro hnil
        exact hfrac (by rw [NumberText.fracText, if_pos hnil])
      have htext : n.text = (n.signText ++ n.int ++ [dot]) ++ n.frac := by
        simp [NumberText.text, hexp, NumberText.fracText, hne]
      rw [htext, List.getLast?_append_of_ne_nil _ hne] at h
      exact (digits_byte n.frac_digits dot (List.mem_of_getLast? h)).right rfl
  · have htext : n.text = (n.signText ++ n.int ++ n.fracText) ++ n.expText := by
      simp [NumberText.text]
    rw [htext, List.getLast?_append_of_ne_nil _ hexp] at h
    exact (expText_byte n dot (List.mem_of_getLast? h)).right rfl

/-!
# The state behind a whole text
-/

theorem read_behind {text word : List UInt8} (h : (out []).read text = out word)
    {c : UInt8}
    (hc : endsWord c = true) (rest : List UInt8) :
    (out []).read (text ++ c :: rest) = (out []).read rest := by
  rw [read_append, h, read_cons, step_endsWord hc]

theorem read_ws_append {w : List UInt8} (hw : Ws w) (rest : List UInt8) :
    (out []).read (w ++ rest) = (out []).read rest := by
  rw [read_append, read_ws hw]

theorem endsWord_opening (kind : Kind) : endsWord kind.opening = true := by
  cases kind <;> rfl

theorem endsWord_closing (kind : Kind) : endsWord kind.closing = true := by
  cases kind <;> rfl

theorem read_opening (kind : Kind) {w : List UInt8} (hw : Ws w)
    (rest : List UInt8) :
    (out []).read (kind.opening :: (w ++ rest)) = (out []).read rest := by
  rw [read_cons, step_endsWord (endsWord_opening kind), read_ws_append hw]

theorem read_colon (s : List StringChar) {w w' : List UInt8} (hw : Ws w)
    (hw' : Ws w')
    (rest : List UInt8) :
    (out []).read (stringText s ++ (w ++ (colon :: (w' ++ rest)))) =
    (out []).read rest := by
  rw [read_append, read_stringText, read_ws_append hw, read_cons, step_endsWord rfl,
    read_ws_append hw']

variable {double : Type} [CDouble double]

theorem read_denotes {node : Node double} {text : List UInt8}
    (h : Denotes node text) :
    exists word, (out []).read text = out word := by
  induction h with
  | null =>
      exact ⟨nullText, by decide⟩
  | false =>
      exact ⟨falseText, by decide⟩
  | true =>
      exact ⟨trueText, by decide⟩
  | number n hn =>
      exact ⟨n.text, read_numberBytes (numberText_byte n)⟩
  | string s =>
      exact ⟨[], read_stringText s⟩
  | empty kind hw =>
      refine ⟨[], ?_⟩
      rw [read_opening kind hw, read_cons,
        step_endsWord (endsWord_closing kind), read_nil]
  | container kind hw hentries ih =>
      rcases ih with ⟨word, hword⟩
      refine ⟨[], ?_⟩
      rw [read_opening kind hw, read_behind hword (endsWord_closing kind), read_nil]
  | element hvalue hw ih =>
      rcases ih with ⟨word, hword⟩
      rw [read_append, hword]
      exact read_out_ws hw word
  | member s hw hw' hvalue hw'' ih =>
      rcases ih with ⟨word, hword⟩
      rw [read_colon s hw hw', read_append, hword]
      exact read_out_ws hw'' word
  | last hentry ih =>
      exact ih
  | more hentry hw hrest ih ihrest =>
      rcases ih with ⟨word, hword⟩
      rw [read_behind hword rfl, read_ws_append hw]
      exact ihrest

/-!
# No text has a NUL
-/

theorem nul_not_mem_ws {w : List UInt8} (hw : Ws w) : nul ∉ w := by
  intro hmem
  rcases hw nul hmem with h | h | h | h <;> cases h

theorem nul_not_mem_stringChar (x : StringChar) : nul ∉ x.text := by
  cases x with
  | raw c h =>
      intro hmem
      have hc := h.left
      rw [← List.mem_singleton.mp hmem] at hc
      exact absurd hc (by decide)
  | short d h =>
      intro hmem
      have hd : nul = d := by
        simpa [StringChar.text] using hmem
      rw [← hd] at h
      exact absurd h (by decide)
  | unicode a b c d h =>
      intro hmem
      have hhex : (hexValue nul).isSome := by
        simp only [StringChar.text, List.mem_cons, List.not_mem_nil,
          or_false] at hmem
        rcases hmem with hmem | hmem | hmem | hmem | hmem | hmem
        · cases hmem
        · cases hmem
        · exact hmem ▸ h.left
        · exact hmem ▸ h.right.left
        · exact hmem ▸ h.right.right.left
        · exact hmem ▸ h.right.right.right
      cases hhex

theorem nul_not_mem_stringText (s : List StringChar) : nul ∉ stringText s := by
  intro hmem
  have hchars : nul ∈ charsText s := by
    simpa [stringText] using hmem
  rcases List.mem_flatten.mp hchars with ⟨text, htext, hnul⟩
  rcases List.mem_map.mp htext with ⟨x, _, rfl⟩
  exact nul_not_mem_stringChar x hnul

theorem nul_not_mem_number (n : NumberText) : nul ∉ n.text := by
  intro hmem
  rcases numberText_byte n nul hmem with hdigit | hother
  · cases hdigit
  · exact absurd hother (by decide)

theorem nul_not_mem_denotes {node : Node double} {text : List UInt8}
    (h : Denotes node text) :
    nul ∉ text := by
  induction h with
  | null | false | true =>
      decide
  | number n hn =>
      exact nul_not_mem_number n
  | string s =>
      exact nul_not_mem_stringText s
  | empty kind hw =>
      have hspace := nul_not_mem_ws hw
      cases kind <;> simpa [Kind.opening, Kind.closing] using hspace
  | container kind hw hentries ih =>
      have hspace := nul_not_mem_ws hw
      cases kind <;> simpa [Kind.opening, Kind.closing] using ⟨hspace, ih⟩
  | element hvalue hw ih =>
      have hspace := nul_not_mem_ws hw
      simpa using ⟨ih, hspace⟩
  | member s hw hw' hvalue hw'' ih =>
      simp only [List.mem_append, List.mem_cons, not_or]
      exact ⟨nul_not_mem_stringText s,
        nul_not_mem_ws hw, by decide, nul_not_mem_ws hw', ih,
        nul_not_mem_ws hw''⟩
  | last hentry ih =>
      exact ih
  | more hentry hw hrest ih ihrest =>
      have hspace := nul_not_mem_ws hw
      simp only [List.mem_append, List.mem_cons, not_or]
      exact ⟨ih, by decide, hspace, ihrest⟩

/-!
# The state behind a container
-/

/-- The text of a container is a pair of brackets with entries or nothing
between them. -/
theorem container_text {kind : Kind} {es : List (kind.Entry double)}
    {text : List UInt8}
    (h : Denotes (.value (kind.wrap es)) text) :
    (exists (kind' : Kind) (w : List UInt8), Ws w ∧
        text = kind'.opening :: (w ++ [kind'.closing])) ∨
      exists (kind' : Kind) (es' : List (kind'.Entry double))
        (w body : List UInt8), Ws w ∧
        Denotes (.entries kind' es') body ∧
        text = kind'.opening :: (w ++ (body ++ [kind'.closing])) := by
  generalize hnode : Node.value (kind.wrap es) = node at h
  cases h with
  | empty kind' hw =>
      exact Or.inl ⟨kind', _, hw, rfl⟩
  | container kind' hw hentries =>
      exact Or.inr ⟨kind', _, _, _, hw, hentries, rfl⟩
  | null | false | true | number | string =>
      cases kind <;> cases hnode
  | element | member | last | more =>
      cases hnode

theorem read_container (kind : Kind) {es : List (kind.Entry double)}
    {text : List UInt8}
    (h : Denotes (.value (kind.wrap es)) text) : (out []).read text = out [] := by
  rcases container_text h with ⟨kind', w, hw, rfl⟩ | ⟨kind', es', w, body, hw,
    hentries, rfl⟩
  · rw [read_opening kind' hw, read_cons,
      step_endsWord (endsWord_closing kind'), read_nil]
  · rcases read_denotes hentries with ⟨word, hword⟩
    rw [read_opening kind' hw, read_behind hword (endsWord_closing kind'), read_nil]

end CJson
end Lepd
