import Lepd.CJson.CutPlaces
import Lepd.CJson.Liberties

/-!
# Brackets outside of strings

Behind a comma the parser steps over a closing bracket and then looks for the
closing bracket.  So a reading that comes to such a place closes one bracket more
than it opened, while a text of the grammar closes as many as it opens.  A reader
that counts tells the two apart.
-/

namespace Lepd
namespace CJson

open Foundation
open Foundation.Scan
open CJson.Lex

/-!
# A reader that counts
-/

/--
Where the reader stands, whether a comma came last outside of strings, how many
brackets are open, and how many were closed right behind a comma.
-/
structure Tally where
  lex : Lex
  comma : Bool
  depth : Int
  dangling : Nat

def IsClosing (c : UInt8) : Prop :=
  c = rbracket ∨ c = rbrace

instance : DecidablePred IsClosing := fun c =>
  inferInstanceAs (Decidable (c = rbracket ∨ c = rbrace))

def bracketDepth (c : UInt8) : Int :=
  if c = lbracket ∨ c = lbrace then 1 else if IsClosing c then -1 else 0

namespace Tally

def step (q : Tally) (c : UInt8) : Tally :=
  match q.lex with
  | .out _ =>
      if isspace c then { q with lex := q.lex.step c }
      else
        { lex := q.lex.step c
          comma := decide (c = CJson.comma)
          depth := q.depth + bracketDepth c
          dangling := q.dangling + if q.comma = true ∧ IsClosing c then 1 else 0 }
  | _ => { q with lex := q.lex.step c }

def run (q : Tally) (text : List UInt8) : Tally :=
  text.foldl step q

theorem run_cons (q : Tally) (c : UInt8) (text : List UInt8) :
    q.run (c :: text) = (q.step c).run text := rfl

theorem run_append (q : Tally) (text rest : List UInt8) :
    q.run (text ++ rest) = (q.run text).run rest :=
  List.foldl_append

end Tally

open CJson.Tally

/-- From outside of strings the text leads outside of strings, with these counts. -/
def Counts (before : Bool) (text : List UInt8) (after : Bool) (depth : Int)
    (dangling : Nat) :
    Prop :=
  forall word d k, exists word',
    Tally.run ⟨out word, before, d, k⟩ text =
      ⟨out word', after, d + depth, k + dangling⟩

theorem Counts.nil (before : Bool) : Counts before [] before 0 0 := by
  intro word d k
  exact ⟨word, by rw [Int.add_zero]; rfl⟩

theorem Counts.append {before mid after : Bool} {text rest : List UInt8}
    {depth depth' : Int}
    {dangling dangling' : Nat} (h : Counts before text mid depth dangling)
    (h' : Counts mid rest after depth' dangling') :
    Counts before (text ++ rest) after (depth + depth') (dangling + dangling') := by
  intro word d k
  rcases h word d k with ⟨word', hword'⟩
  rcases h' word' (d + depth) (k + dangling) with ⟨word'', hword''⟩
  exact ⟨word'', by rw [run_append, hword', hword'', Int.add_assoc, Nat.add_assoc]⟩

theorem Counts.unique {before after after' : Bool} {text : List UInt8}
    {depth depth' : Int}
    {dangling dangling' : Nat} (h : Counts before text after depth dangling)
    (h' : Counts before text after' depth' dangling') :
    depth = depth' ∧ dangling = dangling' := by
  rcases h [] 0 0 with ⟨word, hword⟩
  rcases h' [] 0 0 with ⟨word', hword'⟩
  rw [hword] at hword'
  injection hword' with _ _ hdepth hdangling
  constructor
  · simpa using hdepth
  · simpa using hdangling

/-!
# The counts of tokens
-/

theorem counts_space {w : List UInt8} (hw : forall c, c ∈ w -> isspace c = true)
    (before : Bool) :
    Counts before w before 0 0 := by
  induction w with
  | nil =>
      exact Counts.nil before
  | cons c w ih =>
      have hc := hw c List.mem_cons_self
      have hends : endsWord c = true := by
        simp [endsWord, hc]
      intro word d k
      rcases ih (fun e he => hw e (List.mem_cons_of_mem c he)) [] d k with
        ⟨word', hword'⟩
      refine ⟨word', ?_⟩
      have hstep : Tally.step ⟨out word, before, d, k⟩ c =
          ⟨out [], before, d, k⟩ := by
        simp only [Tally.step, if_pos hc, step_endsWord hends]
      rw [run_cons, hstep, hword']

theorem counts_ws {w : List UInt8} (hw : Ws w) (before : Bool) :
    Counts before w before 0 0 :=
  counts_space (fun c hc => isspace_of_isWs (hw c hc)) before

/-- One byte outside of strings, which is no white space and opens no string. -/
theorem counts_byte {c : UInt8} (hspace : isspace c = false)
    (hquote : c ≠ quote) (before : Bool) :
    Counts before [c] (decide (c = comma)) (bracketDepth c)
      (if before = true ∧ IsClosing c then 1 else 0) := by
  intro word d k
  have hlex : exists word', (out word).step c = out word' := by
    by_cases hends : endsWord c = true
    · exact ⟨[], step_endsWord hends word⟩
    · exact ⟨word ++ [c], by simp [Lex.step, hquote, hends]⟩
  rcases hlex with ⟨word', hword'⟩
  refine ⟨word', ?_⟩
  simp only [Tally.run, List.foldl_cons, List.foldl_nil, Tally.step, hspace,
    Bool.false_eq_true,
    if_false, hword']

def WordByte (c : UInt8) : Prop :=
  c ≠ quote ∧ endsWord c = false

theorem WordByte.plain {c : UInt8} (h : WordByte c) :
    isspace c = false ∧ c ≠ comma ∧ bracketDepth c = 0 ∧ ¬ IsClosing c := by
  have hends := h.right
  simp only [endsWord, Bool.or_eq_false_iff, decide_eq_false_iff_not, List.mem_cons,
    List.not_mem_nil, or_false, not_or] at hends
  rcases hends with ⟨hspace, hcomma, _, hlb, hrb, hlc, hrc⟩
  have hclosing : ¬ IsClosing c := by
    rintro (h | h)
    · exact hrb h
    · exact hrc h
  refine ⟨hspace, hcomma, ?_, hclosing⟩
  rw [bracketDepth, if_neg (by rintro (h | h); exacts [hlb h, hlc h]),
    if_neg hclosing]

theorem counts_wordByte {c : UInt8} (h : WordByte c) (before : Bool) :
    Counts before [c] false 0 0 := by
  rcases h.plain with ⟨hspace, hcomma, hdepth, hclosing⟩
  have hcounts := counts_byte hspace h.left before
  simpa only [hcomma, hdepth, hclosing, decide_false, and_false, if_false] using
    hcounts

theorem counts_word {text : List UInt8} (h : forall c, c ∈ text -> WordByte c)
    (hne : text ≠ [])
    (before : Bool) : Counts before text false 0 0 := by
  induction text generalizing before with
  | nil =>
      exact absurd rfl hne
  | cons c text ih =>
      have hc := counts_wordByte (h c List.mem_cons_self) before
      have htail := fun d hd => h d (List.mem_cons_of_mem c hd)
      by_cases hnil : text = []
      · rw [hnil]
        exact hc
      · exact hc.append (ih htail hnil false)

theorem counts_comma (before : Bool) : Counts before [comma] true 0 0 := by
  have hcounts := counts_byte (c := comma) rfl (by decide) before
  have hclosing : ¬ IsClosing comma := by decide
  have hdepth : bracketDepth comma = 0 := rfl
  simpa only [hclosing, hdepth, and_false, if_false, decide_true] using hcounts

theorem counts_opening (kind : Kind) (before : Bool) :
    Counts before [kind.opening] false 1 0 := by
  have hclosing : ¬ IsClosing kind.opening := by
    cases kind <;> decide
  have hdepth : bracketDepth kind.opening = 1 := by
    cases kind <;> rfl
  have hcomma : kind.opening ≠ comma := by
    cases kind <;> decide
  have hcounts := counts_byte (starts_opening kind).left
    (by cases kind <;> decide) before
  simpa only [hclosing, hdepth, hcomma, and_false, if_false, decide_false] using
    hcounts

theorem counts_closing (kind : Kind) (before : Bool) :
    Counts before [kind.closing] false (-1) (if before = true then 1 else 0) := by
  have hclosing : IsClosing kind.closing := by
    cases kind <;> decide
  have hdepth : bracketDepth kind.closing = -1 := by
    cases kind <;> rfl
  have hspace : isspace kind.closing = false := by
    cases kind <;> rfl
  have hcounts := counts_byte hspace (by cases kind <;> decide) before
  simpa only [hclosing, hdepth, kind.closing_ne_comma, and_true,
    decide_false] using hcounts

/-!
# The counts of strings
-/

theorem run_string {s stop : List UInt8} (h : unitStop s = some stop) (b : Bool)
    (d : Int)
    (k : Nat) : exists body, s = body ++ stop ∧ Tally.run ⟨str, b, d, k⟩ body =
    ⟨str, b, d, k⟩ := by
  fun_induction unitStop s with
  | case1 =>
      cases h
  | case2 c cur hc =>
      cases h
      exact ⟨[], rfl, rfl⟩
  | case3 c cur hc hback ih =>
      rcases ih h with ⟨body, rfl, hbody⟩
      refine ⟨c :: body, rfl, ?_⟩
      have hplain : Plain c :=
        ⟨fun hq => hc (Or.inl hq), fun hn => hc (Or.inr hn), hback⟩
      have hstep : Tally.step ⟨str, b, d, k⟩ c = ⟨str, b, d, k⟩ := by
        simp only [Tally.step, step_plain hplain]
      rw [run_cons, hstep, hbody]
  | case4 =>
      cases h
  | case5 c hc hback e f g i cur4 ih =>
      rcases ih h with ⟨body, rfl, hbody⟩
      cases not_not.mp hback
      exact ⟨[backslash, lowerU, e, f, g, i] ++ body,
        rfl, by rw [run_append]; exact hbody⟩
  | case6 =>
      cases h
  | case7 c hc hback e text he ih =>
      rcases ih h with ⟨body, rfl, hbody⟩
      cases not_not.mp hback
      refine ⟨[backslash, e] ++ body, rfl, ?_⟩
      have hstep : Tally.run ⟨str, b, d, k⟩ [backslash, e] = ⟨str, b, d, k⟩ := by
        simp [Tally.run, Tally.step, Lex.step, he]
      rw [run_append, hstep, hbody]

def Unclosed (text : List UInt8) : Prop :=
  forall word b d k, (Tally.run ⟨out word, b, d, k⟩ text).lex = str

theorem Counts.not_unclosed {before after : Bool} {text : List UInt8}
    {depth : Int} {dangling : Nat}
    (h : Counts before text after depth dangling) : ¬ Unclosed text := by
  intro hopen
  rcases h [] 0 0 with ⟨word, hword⟩
  have hlex := hopen [] before 0 0
  rw [hword] at hlex
  cases hlex

theorem step_quote (word : List UInt8) (b : Bool) (d : Int) (k : Nat) :
    Tally.step ⟨out word, b, d, k⟩ quote = ⟨str, false, d, k⟩ := by
  have hclosing : ¬ IsClosing quote := by decide
  have hdepth : bracketDepth quote = 0 := rfl
  have hspace : isspace quote = false := rfl
  have hcomma : quote ≠ comma := by decide
  simp only [Tally.step, hspace, Bool.false_eq_true, if_false, hclosing, hdepth,
    hcomma, and_false,
    decide_false, Lex.step, if_true, Int.add_zero, Nat.add_zero]

theorem counts_closed {body : List UInt8}
    (h : forall b d k, Tally.run ⟨str, b, d, k⟩ body = ⟨str, b, d, k⟩)
    (before : Bool) :
    Counts before (quote :: (body ++ [quote])) false 0 0 := by
  intro word d k
  refine ⟨[], ?_⟩
  rw [run_cons, step_quote, run_append, h, Int.add_zero]
  rfl

theorem unitStop_charsText (cs : List StringChar) (after : List UInt8) :
    unitStop (charsText cs ++ quote :: after) = some (quote :: after) := by
  induction cs with
  | nil =>
      exact unitStop_stop (Or.inl rfl) after
  | cons x cs ih =>
      rw [charsText_cons, List.append_assoc]
      cases x with
      | raw c h =>
          exact (unitStop_plain (plain_of_raw h) _).trans ih
      | short d h =>
          exact (unitStop_escape (escapeLetters_ne_lowerU h) _).trans ih
      | unicode a b c d h =>
          exact (unitStop_unicode a b c d _).trans ih

theorem counts_stringText (cs : List StringChar) (before : Bool) :
    Counts before (stringText cs) false 0 0 := by
  apply counts_closed
  intro b d k
  rcases run_string (unitStop_charsText cs []) b d k with ⟨body, htext, hrun⟩
  rw [List.append_cancel_right htext]
  exact hrun

theorem counts_string {s rest : List UInt8} (h : stringEnd s = some rest) :
    exists text, quote :: s = text ++ rest ∧
      ((forall before, Counts before text false 0 0) ∨
        (Unclosed text ∧ exists tail, rest = nul :: tail)) := by
  have hunit : (unitStop s).map afterQuote = some rest := by
    unfold stringEnd at h
    split at h
    · cases h
    · exact h
  rcases Option.map_eq_some_iff.mp hunit with ⟨stop, hstop, hafter⟩
  rcases (unitStop_atDelimiter hstop).left with ⟨c, tail, rfl, hc⟩
  have hbody := fun b d k => run_string hstop b d k
  rcases hbody false 0 0 with ⟨body, rfl, _⟩
  have hrun : forall b d k, Tally.run ⟨str, b, d, k⟩ body = ⟨str, b, d, k⟩ := by
    intro b d k
    rcases hbody b d k with ⟨body', htext, hrun⟩
    rw [List.append_cancel_right htext]
    exact hrun
  by_cases hquote : c = quote
  · subst hquote
    simp only [afterQuote, if_true] at hafter
    subst hafter
    exact ⟨quote :: (body ++ [quote]), by simp, Or.inl (counts_closed hrun)⟩
  · simp only [afterQuote, if_neg hquote] at hafter
    subst hafter
    refine ⟨quote :: body, rfl, Or.inr ⟨?_, tail, ?_⟩⟩
    · intro word b d k
      rw [run_cons, step_quote, hrun]
    · rw [hc.resolve_left hquote]

/-!
# The counts of a text of the grammar
-/

def CountsAt (place : Place) (text : List UInt8) (depth : Int)
    (dangling : Nat) : Prop :=
  match place with
  | .items _ => Counts false text false (depth - 1) dangling
  | _ => forall before, Counts before text false depth dangling

theorem wordBytes_of_all {text : List UInt8}
    (h : text.all (fun c => c != quote && !endsWord c) = true) :
    forall c, c ∈ text -> WordByte c := by
  intro c hc
  have hbyte := List.all_eq_true.mp h c hc
  simpa [WordByte] using hbyte

theorem counts_numberText {n : NumberText} (hn : n.Complete) (before : Bool) :
    Counts before n.text false 0 0 := by
  rcases numberText_head hn with ⟨c, tail, htext, _⟩
  apply counts_word (fun d hd => (numberText_byte n d hd).word)
  rw [htext]
  simp

theorem counts_colon (before : Bool) : Counts before [colon] false 0 0 := by
  have hclosing : ¬ IsClosing colon := by decide
  have hcounts := counts_byte (c := colon) rfl (by decide) before
  rw [if_neg (fun h => hclosing h.right)] at hcounts
  exact hcounts

theorem counts_entries {before : Bool} {kind : Kind} {w entry items : List UInt8}
    (hw : forall c, c ∈ w -> isspace c = true) {depth depth' : Int}
    {dangling dangling' : Nat}
    (hentry : CountsAt (.entry kind) entry depth dangling)
    (hitems : CountsAt (.items kind) items depth' dangling') :
    Counts before (w ++ (entry ++ items)) false (depth + depth' - 1)
      (dangling + dangling') := by
  have hspace := counts_space hw before
  have hrest := (hentry before).append hitems
  have hall := hspace.append hrest
  rw [Int.zero_add, Nat.zero_add, ← Int.add_sub_assoc] at hall
  exact hall

/--
A text of the grammar closes as many brackets as it opens; one without a bracket
behind a comma is a text of the grammar without trailing commas.
-/
theorem counts_jsonText {extended : Prop} {place : Place} {text : List UInt8}
    (h : JsonText extended place text) :
    exists dangling, CountsAt place text 0 dangling ∧
      (dangling = 0 -> JsonText False place text) := by
  induction h with
  | null =>
      exact ⟨0, counts_word (wordBytes_of_all rfl) (by decide), fun _ => .null⟩
  | false =>
      exact ⟨0, counts_word (wordBytes_of_all rfl) (by decide), fun _ => .false⟩
  | true =>
      exact ⟨0, counts_word (wordBytes_of_all rfl) (by decide), fun _ => .true⟩
  | number n hn =>
      exact ⟨0, counts_numberText hn, fun _ => .number n hn⟩
  | string s hs =>
      exact ⟨0, counts_stringText s, fun _ => .string s hs⟩
  | empty kind hw =>
      refine ⟨0, ?_, fun _ => .empty kind hw⟩
      intro before
      exact (counts_opening kind before).append
        ((counts_ws hw false).append (counts_closing kind false))
  | container kind hw hentry hitems ih ihitems =>
      rcases ih with ⟨n, hcounts, hnone⟩
      rcases ihitems with ⟨m, hcountsItems, hnoneItems⟩
      refine ⟨0 + (n + m), ?_, ?_⟩
      · intro before
        exact (counts_opening kind before).append
          (counts_entries (fun c hc => isspace_of_isWs (hw c hc)) hcounts
            hcountsItems)
      · intro hzero
        exact .container kind hw (hnone (by omega)) (hnoneItems (by omega))
  | element hvalue hw ih =>
      rcases ih with ⟨n, hcounts, hnone⟩
      refine ⟨n + 0, ?_, fun hzero => .element (hnone hzero) hw⟩
      intro before
      exact (hcounts before).append (counts_ws hw false)
  | member s hs hw hw' hvalue hw'' ih =>
      rcases ih with ⟨n, hcounts, hnone⟩
      refine ⟨n, ?_, fun hzero => .member s hs hw hw' (hnone hzero) hw''⟩
      intro before
      have htail := ((counts_colon false).append ((counts_ws hw' false).append
        ((hcounts false).append (counts_ws hw'' false))))
      have hall := (counts_stringText s before).append
        ((counts_ws hw false).append htail)
      simpa using hall
  | close kind =>
      exact ⟨0, counts_closing kind false, fun _ => .close kind⟩
  | trailing kind hextended hw =>
      refine ⟨0 + (0 + 1), ?_, fun hzero => absurd hzero (by decide)⟩
      exact (counts_comma false).append
        ((counts_ws hw true).append (counts_closing kind true))
  | more kind hw hentry hitems ih ihitems =>
      rcases ih with ⟨n, hcounts, hnone⟩
      rcases ihitems with ⟨m, hcountsItems, hnoneItems⟩
      refine ⟨0 + (n + m), ?_, ?_⟩
      · exact (counts_comma false).append
          (counts_entries (fun c hc => isspace_of_isWs (hw c hc)) hcounts
            hcountsItems)
      · intro hzero
        exact .more kind hw (hnone (by omega)) (hnoneItems (by omega))

/-!
# Runs over the bytes of words
-/

def WordRun (cur rest : List UInt8) : Prop :=
  exists text, cur = text ++ rest ∧ forall c, c ∈ text -> WordByte c

theorem WordRun.refl (cur : List UInt8) : WordRun cur cur := by
  refine ⟨[], rfl, ?_⟩
  intro c hc
  cases hc

theorem WordRun.trans {cur mid rest : List UInt8} (h : WordRun cur mid)
    (h' : WordRun mid rest) :
    WordRun cur rest := by
  rcases h with ⟨text, rfl, htext⟩
  rcases h' with ⟨text', rfl, htext'⟩
  refine ⟨text ++ text', by rw [List.append_assoc], ?_⟩
  intro c hc
  rcases List.mem_append.mp hc with hc | hc
  · exact htext c hc
  · exact htext' c hc

theorem WordRun.cons {c : UInt8} {cur rest : List UInt8} (hc : WordByte c)
    (h : WordRun cur rest) :
    WordRun (c :: cur) rest := by
  have hhead : WordRun (c :: cur) cur := by
    refine ⟨[c], rfl, ?_⟩
    intro d hd
    rw [List.mem_singleton.mp hd]
    exact hc
  exact hhead.trans h

theorem wordRun_dropCommon {str : List UInt8}
    (hstr : forall c, c ∈ str -> WordByte c)
    (cur : List UInt8) : WordRun cur (dropCommon str cur) := by
  fun_induction dropCommon str cur with
  | case1 str c cur ih =>
      exact (ih (fun d hd => hstr d (List.mem_cons_of_mem c hd))).cons
        (hstr c List.mem_cons_self)
  | case2 s str c cur hc =>
      exact WordRun.refl _
  | case3 str cur h =>
      exact WordRun.refl cur

theorem wordRun_null (cur : List UInt8) : WordRun cur (dropCommon nullText cur) :=
  wordRun_dropCommon (wordBytes_of_all rfl) cur

theorem wordRun_false (cur : List UInt8) : WordRun cur (dropCommon falseText cur) :=
  wordRun_dropCommon (wordBytes_of_all rfl) cur

theorem ValueAt.wordRun {cur rest : List UInt8} (h : ValueAt cur rest) :
    WordRun cur rest := by
  rw [← h.right]
  exact ((wordRun_null cur).trans (wordRun_false _)).trans
    (wordRun_dropCommon (wordBytes_of_all rfl) _)

theorem LiteralAt.word {cur rest : List UInt8} (h : LiteralAt cur rest) :
    exists text, cur = text ++ rest ∧ text ≠ [] ∧ forall c, c ∈ text ->
      WordByte c := by
  have hrun : exists start str, WordRun cur start ∧ start = str ++ rest ∧ str ≠ [] ∧
      forall c, c ∈ str -> WordByte c := by
    cases h with
    | null =>
        exact ⟨_, nullText, WordRun.refl _, rfl, by decide, wordBytes_of_all rfl⟩
    | false hne hdrop =>
        exact ⟨_, falseText, wordRun_null cur,
          hdrop, by decide, wordBytes_of_all rfl⟩
    | true hne hne' hdrop =>
        exact ⟨_, trueText, (wordRun_null cur).trans (wordRun_false _),
          hdrop, by decide,
          wordBytes_of_all rfl⟩
  rcases hrun with ⟨start, str, ⟨text, rfl, htext⟩, rfl, hne, hstr⟩
  refine ⟨text ++ str, by rw [List.append_assoc], by simp [hne], ?_⟩
  intro c hc
  rcases List.mem_append.mp hc with hc | hc
  · exact htext c hc
  · exact hstr c hc

theorem wordByte_digit {c : UInt8} (h : isDigit c = true) : WordByte c :=
  NumberByte.word (Or.inl h)

theorem wordRun_digits (cur : List UInt8) : WordRun cur (cur.dropWhile isDigit) :=
  ⟨cur.takeWhile isDigit, List.takeWhile_append_dropWhile.symm,
    fun c hc => wordByte_digit (digits_takeWhile cur c hc)⟩

theorem wordRun_afterInteger {c : UInt8} (hc : isDigit c = true) (s : List UInt8) :
    WordRun s (afterInteger (c :: s)) := by
  by_cases hzero : c = zeroDigit
  · cases s with
    | nil =>
        simp only [afterInteger, dropByte, if_pos hzero]
        exact WordRun.refl []
    | cons d t =>
        simp only [afterInteger, dropByte, if_pos hzero]
        split
        · exact wordRun_digits (d :: t)
        · exact WordRun.refl (d :: t)
  · have hdigit : isDigit c = true ∧ c ≠ zeroDigit := ⟨hc, hzero⟩
    simp only [afterInteger, dropByte, if_neg hzero, if_pos hdigit]
    rw [List.dropWhile_cons_of_pos hc]
    exact wordRun_digits s

theorem wordRun_afterInteger_any (cur : List UInt8) :
    WordRun cur (afterInteger cur) := by
  cases cur with
  | nil =>
      exact WordRun.refl []
  | cons c s =>
      by_cases hc : isDigit c = true
      · exact (wordRun_afterInteger hc s).cons (wordByte_digit hc)
      · have hzero : c ≠ zeroDigit := by
          rintro rfl
          exact hc rfl
        have hdigit : ¬ (isDigit c = true ∧ c ≠ zeroDigit) := fun h => hc h.left
        simp only [afterInteger, dropByte, if_neg hzero, if_neg hdigit]
        exact WordRun.refl (c :: s)

theorem wordRun_afterFraction (cur : List UInt8) :
    WordRun cur (afterFraction cur) := by
  rcases fraction_text cur with ⟨frac, hfrac, htext⟩
  refine ⟨_, htext, ?_⟩
  intro c hc
  split at hc
  · cases hc
  · rcases List.mem_cons.mp hc with rfl | hc
    · exact NumberByte.word (Or.inr (by decide))
    · exact wordByte_digit (hfrac c hc)

theorem wordRun_dropSign (cur : List UInt8) : WordRun cur (dropSign cur) := by
  rcases sign_of_exponent cur with ⟨sign, hsign, htext⟩
  refine ⟨sign, htext, ?_⟩
  rcases hsign with rfl | rfl | rfl <;> exact wordBytes_of_all rfl

theorem wordRun_afterExponent (cur : List UInt8) :
    WordRun cur (afterExponent cur) := by
  cases cur with
  | nil =>
      exact WordRun.refl []
  | cons c s =>
      by_cases hc : c = lowerE ∨ c = upperE
      · have hbyte : WordByte c := by
          rcases hc with rfl | rfl <;> exact NumberByte.word (Or.inr (by decide))
        rw [afterExponent_letter hc]
        exact ((wordRun_dropSign s).trans (wordRun_digits _)).cons hbyte
      · rw [afterExponent_other hc]
        exact WordRun.refl (c :: s)

theorem wordRun_afterNumber {c : UInt8} (hc : c = minus ∨ isDigit c = true)
    (s : List UInt8) :
    WordRun s (afterNumber (c :: s)) := by
  have hinteger : WordRun s (afterInteger (dropByte minus (c :: s))) := by
    by_cases hminus : c = minus
    · simp only [dropByte, if_pos hminus]
      exact wordRun_afterInteger_any s
    · simp only [dropByte, if_neg hminus]
      exact wordRun_afterInteger (hc.resolve_left hminus) s
  exact (hinteger.trans (wordRun_afterFraction _)).trans (wordRun_afterExponent _)

/-!
# The counts of a reading
-/

/-- The text read at a place has its counts, or ends inside of a string with the
whole text. -/
def Tallied (place : Place) (text rest : List UInt8) : Prop :=
  (exists dangling : Nat, CountsAt place text (-dangling) dangling) ∨
    (Unclosed text ∧ exists tail, rest = nul :: tail)

theorem Counts.unclosed {after : Bool} {text rest : List UInt8} {depth : Int}
    {dangling : Nat}
    (h : forall before, Counts before text after depth dangling)
    (hrest : Unclosed rest) :
    Unclosed (text ++ rest) := by
  intro word b d k
  rcases h b word d k with ⟨word', hword'⟩
  rw [run_append, hword']
  exact hrest word' after (d + depth) (k + dangling)

theorem counts_letters {text : List UInt8}
    (h : forall c, c ∈ text -> WordByte c) (before : Bool) :
    exists after, Counts before text after 0 0 := by
  by_cases hnil : text = []
  · exact ⟨before, hnil ▸ Counts.nil before⟩
  · exact ⟨false, counts_word h hnil before⟩

theorem tallied_front {cur start rest : List UInt8} (hrun : WordRun cur start)
    (h : exists text, start = text ++ rest ∧ Tallied .value text rest) :
    exists text, cur = text ++ rest ∧ Tallied .value text rest := by
  rcases hrun with ⟨letters, rfl, hletters⟩
  rcases h with ⟨text, rfl, htallied⟩
  refine ⟨letters ++ text, by rw [List.append_assoc], ?_⟩
  rcases htallied with ⟨n, hcounts⟩ | ⟨hopen, hrest⟩
  · refine Or.inl ⟨n, ?_⟩
    intro before
    rcases counts_letters hletters before with ⟨after, hafter⟩
    have hall := hafter.append (hcounts after)
    rwa [Int.zero_add, Nat.zero_add] at hall
  · refine Or.inr ⟨?_, hrest⟩
    intro word b d k
    rcases counts_letters hletters b with ⟨after, hafter⟩
    rcases hafter word d k with ⟨word', hword'⟩
    rw [run_append, hword']
    exact hopen word' after _ _

theorem not_reads_items_nul {kind : Kind} {tail rest : List UInt8} :
    ¬ Reads (.items kind) (nul :: tail) rest := by
  intro h
  generalize hcur : nul :: tail = cur at h
  cases h with
  | close =>
      injection hcur with hhead
      exact kind.closing_ne_nul hhead.symm
  | trailing =>
      injection hcur with hhead
      exact absurd hhead (by decide)
  | more =>
      injection hcur with hhead
      exact absurd hhead (by decide)

/-- A reading closes as many brackets too many as it closes behind a comma. -/
theorem tallied_reads {place : Place} {cur rest : List UInt8}
    (h : Reads place cur rest) :
    exists text, cur = text ++ rest ∧ Tallied place text rest := by
  have hspaced : forall cur, exists w, (forall c, c ∈ w -> isspace c = true) ∧
      cur = w ++ dropSpace cur := by
    intro cur
    exact ⟨cur.takeWhile isspace, fun c hc => List.mem_takeWhile_imp hc,
      List.takeWhile_append_dropWhile.symm⟩
  induction h with
  | literal hliteral hc =>
      rcases hliteral.word with ⟨text, htext, hne, hword⟩
      exact ⟨text, htext, Or.inl ⟨0, counts_word hword hne⟩⟩
  | string hvalue hstring =>
      apply tallied_front hvalue.wordRun
      rcases counts_string hstring with ⟨text, htext, hcounts | hopen⟩
      · exact ⟨text, htext, Or.inl ⟨0, hcounts⟩⟩
      · exact ⟨text, htext, Or.inr hopen⟩
  | @number cur s c hvalue hc =>
      apply tallied_front hvalue.wordRun
      rcases wordRun_afterNumber hc s with ⟨text, htext, hword⟩
      refine ⟨c :: text, by rw [List.cons_append, ← htext], Or.inl ⟨0, ?_⟩⟩
      have hbyte : WordByte c := by
        rcases hc with rfl | hc
        · exact NumberByte.word (Or.inr (by decide))
        · exact wordByte_digit hc
      apply counts_word _ (by simp)
      intro d hd
      rcases List.mem_cons.mp hd with rfl | hd
      · exact hbyte
      · exact hword d hd
  | @empty kind cur s rest hvalue hspace =>
      apply tallied_front hvalue.wordRun
      rcases hspaced s with ⟨w, hw, htext⟩
      rw [hspace] at htext
      refine ⟨kind.opening :: (w ++ [kind.closing]), by simp [htext], Or.inl ⟨0,
        ?_⟩⟩
      intro before
      exact (counts_opening kind before).append
        ((counts_space hw false).append (counts_closing kind false))
  | @container kind cur s next mid rest c hvalue hspace hc hentry hitems ih
      ihitems =>
      apply tallied_front hvalue.wordRun
      rcases hspaced s with ⟨w, hw, htext⟩
      rcases ih with ⟨entry, hentryText, htallied⟩
      rcases ihitems with ⟨items, hitemsText, htalliedItems⟩
      rw [hspace, hentryText, hitemsText] at htext
      refine ⟨kind.opening :: (w ++ (entry ++ items)), by simp [htext], ?_⟩
      rcases htallied with ⟨n, hcounts⟩ | ⟨_, tail, hnul⟩
      · rcases htalliedItems with ⟨m, hcountsItems⟩ | ⟨hopen, hrest⟩
        · refine Or.inl ⟨n + m, ?_⟩
          intro before
          have hall := (counts_opening kind before).append
            (counts_entries hw hcounts hcountsItems)
          have hdepth : (1 : Int) + (-(n : Int) + -(m : Int) - 1) =
              -((n + m : Nat) : Int) := by
            omega
          rwa [hdepth, Nat.zero_add] at hall
        · refine Or.inr ⟨?_, hrest⟩
          have hfirst : forall before,
              Counts before ([kind.opening] ++ (w ++ entry)) false _ _ :=
            fun before => (counts_opening kind before).append
              ((counts_space hw false).append (hcounts false))
          have hall := Counts.unclosed hfirst hopen
          simpa using hall
      · rw [hnul] at hitems
        exact absurd hitems not_reads_items_nul
  | @element cur mid hvalue ih =>
      rcases ih with ⟨text, htext, htallied⟩
      rcases hspaced mid with ⟨w, hw, hmid⟩
      rcases htallied with ⟨n, hcounts⟩ | ⟨hopen, tail, hnul⟩
      · refine ⟨text ++ w, by rw [List.append_assoc, ← hmid]; exact htext,
          Or.inl ⟨n, ?_⟩⟩
        intro before
        have hall := (hcounts before).append (counts_space hw false)
        rwa [Int.add_zero, Nat.add_zero] at hall
      · subst hnul
        exact ⟨text, htext, Or.inr ⟨hopen, tail, rfl⟩⟩
  | @member s mid v rest hstring hspace hvalue ih =>
      rcases counts_string hstring with ⟨name, hname, hcountsName | ⟨_, tail, hnul⟩⟩
      · rcases ih with ⟨text, htext, htallied⟩
        rcases hspaced mid with ⟨w, hw, hmid⟩
        rcases hspaced v with ⟨w', hw', hv⟩
        rcases hspaced rest with ⟨w'', hw'', hrest⟩
        have hfront : forall before,
            Counts before (name ++ (w ++ ([colon] ++ w'))) false 0 0 :=
          fun before => (hcountsName before).append ((counts_space hw false).append
            ((counts_colon false).append (counts_space hw' false)))
        have hall : quote :: s = (name ++ (w ++ ([colon] ++ w'))) ++
            (text ++ rest) := by
          rw [← htext, hname, hmid, hspace]
          simp [← hv]
        rcases htallied with ⟨n, hcounts⟩ | ⟨hopen, tail, hnul⟩
        · refine ⟨(name ++ (w ++ ([colon] ++ w'))) ++ (text ++ w''), ?_,
            Or.inl ⟨n, ?_⟩⟩
          · rw [hall, List.append_assoc _ (text ++ w''), List.append_assoc text,
              ← hrest]
          · intro before
            have hcountsAll := (hfront before).append ((hcounts false).append
              (counts_space hw'' false))
            rwa [Int.add_zero, Int.zero_add, Nat.add_zero,
              Nat.zero_add] at hcountsAll
        · subst hnul
          refine ⟨(name ++ (w ++ ([colon] ++ w'))) ++ text, ?_,
            Or.inr ⟨?_, tail, rfl⟩⟩
          · rw [List.append_assoc _ text]
            exact hall
          · exact Counts.unclosed hfront hopen
      · subst hnul
        cases hspace
  | close kind =>
      exact ⟨[kind.closing], rfl, Or.inl ⟨0, counts_closing kind false⟩⟩
  | @trailing kind s rest hspace =>
      rcases hspaced s with ⟨w, hw, htext⟩
      rw [hspace] at htext
      refine ⟨comma ::
        (w ++ [kind.closing, kind.closing]), by simp [htext], Or.inl ⟨1, ?_⟩⟩
      have hall := (counts_comma false).append ((counts_space hw true).append
        ((counts_closing kind true).append (counts_closing kind false)))
      exact hall
  | @more kind s next mid rest c hspace hc hentry hitems ih ihitems =>
      rcases hspaced s with ⟨w, hw, htext⟩
      rcases ih with ⟨entry, hentryText, htallied⟩
      rcases ihitems with ⟨items, hitemsText, htalliedItems⟩
      rw [hspace, hentryText, hitemsText] at htext
      refine ⟨comma :: (w ++ (entry ++ items)), by simp [htext], ?_⟩
      rcases htallied with ⟨n, hcounts⟩ | ⟨_, tail, hnul⟩
      · rcases htalliedItems with ⟨m, hcountsItems⟩ | ⟨hopen, hrest⟩
        · refine Or.inl ⟨n + m, ?_⟩
          have hall := (counts_comma false).append
            (counts_entries hw hcounts hcountsItems)
          have hdepth : (0 : Int) + (-(n : Int) + -(m : Int) - 1) =
              -((n + m : Nat) : Int) - 1 := by
            omega
          rw [hdepth, Nat.zero_add] at hall
          exact hall
        · refine Or.inr ⟨?_, hrest⟩
          have hfirst : forall before,
              Counts before ([comma] ++ (w ++ entry)) false _ _ :=
            fun before => (counts_comma before).append
              ((counts_space hw true).append (hcounts true))
          have hall := Counts.unclosed hfirst hopen
          simpa using hall
      · rw [hnul] at hitems
        exact absurd hitems not_reads_items_nul

/-- A value that is read and belongs to the extended grammar has no trailing
comma. -/
theorem jsonText_of_sound {cur rest : List UInt8} (h : Reads .value cur rest)
    {extended : Prop}
    {text : List UInt8} (htext : cur = text ++ rest)
    (hjson : JsonText extended .value text) :
    JsonText False .value text := by
  rcases counts_jsonText hjson with ⟨n, hcounts, hnone⟩
  rcases tallied_reads h with ⟨text', htext', htallied⟩
  have hsame : text' = text := List.append_cancel_right (htext'.symm.trans htext)
  subst hsame
  rcases htallied with ⟨m, hcounts'⟩ | ⟨hopen, _⟩
  · rcases Counts.unique (hcounts false) (hcounts' false) with ⟨hdepth, hdangling⟩
    exact hnone (by omega)
  · exact absurd hopen (hcounts false).not_unclosed

end CJson
end Lepd
