import Lepd.CJson.Completeness
import Lepd.CJson.NumberStop
import Lepd.CJson.StringStop

/-!
# Readings of a text

On a text with a NUL at its end the parser can leave the text in two ways.  It
can compare a literal past its end, when the text stops right behind the letters
of a literal at a place where a value is read; and it can step over the NUL
inside an escape of a string.  The relations below follow the reading of a text,
up to its end or to such a place.
-/

namespace Lepd
namespace CJson

open Foundation
open Foundation.Scan

/-!
# The literals in front of a value
-/

/--
A literal is read at the front of the text.  A comparison that failed has moved
the cursor over the letters that agreed, and the next one starts from there.
-/
inductive LiteralAt : List UInt8 -> List UInt8 -> Prop where
  | null {rest : List UInt8} : LiteralAt (nullText ++ rest) rest
  | false {cur rest : List UInt8} :
      ¬ nullText <+: cur -> dropCommon nullText cur = falseText ++ rest ->
        LiteralAt cur rest
  | true {cur rest : List UInt8} :
      ¬ nullText <+: cur -> ¬ falseText <+: dropCommon nullText cur ->
      dropCommon falseText (dropCommon nullText cur) = trueText ++ rest ->
        LiteralAt cur rest

def afterLiterals (cur : List UInt8) : List UInt8 :=
  dropCommon trueText (dropCommon falseText (dropCommon nullText cur))

/-- A value other than a literal is read from the given place on. -/
def ValueAt (cur rest : List UInt8) : Prop :=
  (forall after, ¬ LiteralAt cur after) ∧ afterLiterals cur = rest

def dropSpace (cur : List UInt8) : List UInt8 :=
  cur.dropWhile isspace

/-!
# Reading a text
-/

/-- What is read at a place: a value, an entry of a container, or what follows
an entry. -/
inductive Place where
  | value
  | entry (kind : Kind)
  | items (kind : Kind)

/-- The text is read up to the given rest. -/
inductive Reads : Place -> List UInt8 -> List UInt8 -> Prop where
  | literal {cur rest : List UInt8} {c : UInt8} :
      LiteralAt cur (c :: rest) -> c ≠ nul -> Reads .value cur (c :: rest)
  | string {cur s rest : List UInt8} :
      ValueAt cur (quote :: s) -> stringEnd s = some rest -> Reads .value cur rest
  | number {cur s : List UInt8} {c : UInt8} :
      ValueAt cur (c :: s) -> c = minus ∨ isDigit c = true ->
      Reads .value cur (afterNumber (c :: s))
  | empty (kind : Kind) {cur s rest : List UInt8} :
      ValueAt cur (kind.opening :: s) -> dropSpace s = kind.closing :: rest ->
      Reads .value cur rest
  | container (kind : Kind) {cur s next mid rest : List UInt8} {c : UInt8} :
      ValueAt cur (kind.opening :: s) -> dropSpace s = c :: next ->
        c ≠ kind.closing ->
      Reads (.entry kind) (c :: next) mid -> Reads (.items kind) mid rest ->
      Reads .value cur rest
  | element {cur mid : List UInt8} :
      Reads .value cur mid -> Reads (.entry .array) cur (dropSpace mid)
  | member {s mid v rest : List UInt8} :
      stringEnd s = some mid -> dropSpace mid = colon :: v ->
        Reads .value (dropSpace v) rest ->
      Reads (.entry .object) (quote :: s) (dropSpace rest)
  | close (kind : Kind) {rest : List UInt8} :
      Reads (.items kind) (kind.closing :: rest) rest
  | trailing (kind : Kind) {s rest : List UInt8} :
      dropSpace s = kind.closing :: kind.closing :: rest ->
        Reads (.items kind) (comma :: s) rest
  | more (kind : Kind) {s next mid rest : List UInt8} {c : UInt8} :
      dropSpace s = c :: next -> c ≠ kind.closing ->
      Reads (.entry kind) (c :: next) mid -> Reads (.items kind) mid rest ->
      Reads (.items kind) (comma :: s) rest

/--
The reading comes to a literal with nothing but the end behind it, or to a string
in which an escape reaches over the end.
-/
inductive Overruns : Place -> List UInt8 -> Prop where
  | literal {cur rest : List UInt8} : LiteralAt cur (nul :: rest) ->
      Overruns .value cur
  | string {cur s : List UInt8} :
      ValueAt cur (quote :: s) -> stringEnd s = none -> Overruns .value cur
  | first (kind : Kind) {cur s next : List UInt8} {c : UInt8} :
      ValueAt cur (kind.opening :: s) -> dropSpace s = c :: next ->
        c ≠ kind.closing ->
      Overruns (.entry kind) (c :: next) -> Overruns .value cur
  | inside (kind : Kind) {cur s next mid : List UInt8} {c : UInt8} :
      ValueAt cur (kind.opening :: s) -> dropSpace s = c :: next ->
        c ≠ kind.closing ->
      Reads (.entry kind) (c :: next) mid -> Overruns (.items kind) mid ->
        Overruns .value cur
  | element {cur : List UInt8} : Overruns .value cur -> Overruns (.entry .array) cur
  | name {s : List UInt8} : stringEnd s = none ->
      Overruns (.entry .object) (quote :: s)
  | member {s mid v : List UInt8} :
      stringEnd s = some mid -> dropSpace mid = colon :: v ->
        Overruns .value (dropSpace v) ->
      Overruns (.entry .object) (quote :: s)
  | next (kind : Kind) {s next : List UInt8} {c : UInt8} :
      dropSpace s = c :: next -> c ≠ kind.closing ->
        Overruns (.entry kind) (c :: next) ->
      Overruns (.items kind) (comma :: s)
  | later (kind : Kind) {s next mid : List UInt8} {c : UInt8} :
      dropSpace s = c :: next -> c ≠ kind.closing ->
        Reads (.entry kind) (c :: next) mid ->
      Overruns (.items kind) mid -> Overruns (.items kind) (comma :: s)

/-!
# One value
-/

def Terminated (cur : List UInt8) : Prop :=
  Ended cur ∧ nul ∈ cur

theorem Terminated.rest {cur rest : List UInt8} (h : Terminated cur)
    (hrest : Before rest cur) :
    Terminated rest :=
  ⟨h.left.suffix hrest.left, hrest.right⟩

theorem Terminated.before {cur rest : List UInt8} (h : Terminated cur)
    (hrest : rest <:+ cur)
    (hne : rest ≠ []) : Before rest cur :=
  ⟨hrest, (h.left.suffix hrest).nul_mem hne⟩

theorem Before.tail {c : UInt8} {cur rest : List UInt8}
    (h : Before (c :: rest) cur) (hc : c ≠ nul) :
    Before rest cur :=
  (before_tail hc h.right).trans h

theorem before_dropCommon {cur : List UInt8} (str : List UInt8) (hstr : nul ∉ str)
    (hcur : nul ∈ cur) :
    Before (dropCommon str cur) cur := by
  refine ⟨dropCommon_suffix str cur, ?_⟩
  fun_induction dropCommon str cur with
  | case1 str c cur ih =>
      apply ih (fun h => hstr (List.mem_cons_of_mem c h))
      exact (List.mem_cons.mp hcur).resolve_left (fun h =>
        hstr (h ▸ List.mem_cons_self))
  | case2 s str c cur hc =>
      exact hcur
  | case3 str cur h =>
      exact hcur

theorem skip_dropSpace {cur : List UInt8} (h : nul ∈ cur) :
    skip cur = .ok () (dropSpace cur) := by
  induction cur with
  | nil =>
      cases h
  | cons c cur ih =>
      by_cases hc : isspace c = true
      · have hmem : nul ∈ cur := by
          rcases List.mem_cons.mp h with rfl | h
          · cases hc
          · exact h
        rw [dropSpace, List.dropWhile_cons_of_pos hc, skip, if_pos hc]
        exact ih hmem
      · rw [dropSpace, List.dropWhile_cons_of_neg hc, skip, if_neg hc]

theorem before_dropSpace {cur : List UInt8} (h : nul ∈ cur) :
    Before (dropSpace cur) cur :=
  before_dropWhile h rfl

theorem LiteralAt.before {cur rest : List UInt8} (h : LiteralAt cur rest)
    (hcur : nul ∈ cur) :
    Before rest cur := by
  have hbehind : forall {text rest : List UInt8}, nul ∉ text ->
      nul ∈ text ++ rest ->
      Before rest (text ++ rest) := by
    intro text rest htext hmem
    exact ⟨List.suffix_append text rest,
      (List.mem_append.mp hmem).resolve_left htext⟩
  have hnull := before_dropCommon nullText (by decide) hcur
  have hfalse := before_dropCommon falseText (by decide) hnull.right
  cases h with
  | null =>
      exact hbehind (by decide) hcur
  | false hne hdrop =>
      rw [hdrop] at hnull
      exact (hbehind (by decide) hnull.right).trans hnull
  | true hne hne' hdrop =>
      rw [hdrop] at hfalse
      exact ((hbehind (by decide) hfalse.right).trans hfalse).trans hnull

theorem LiteralAt.unique {cur rest rest' : List UInt8} (h : LiteralAt cur rest)
    (h' : LiteralAt cur rest') : rest = rest' := by
  cases h with
  | null =>
      cases h' with
      | null =>
          rfl
      | false hne | true hne =>
          exact absurd (List.prefix_append _ _) hne
  | false hne hdrop =>
      cases h' with
      | null =>
          exact absurd (List.prefix_append _ _) hne
      | false _ hdrop' =>
          exact List.append_cancel_left (hdrop.symm.trans hdrop')
      | true _ hne' =>
          exact absurd (hdrop ▸ List.prefix_append _ _) hne'
  | true hne hne' hdrop =>
      cases h' with
      | null =>
          exact absurd (List.prefix_append _ _) hne
      | false _ hdrop' =>
          exact absurd (hdrop' ▸ List.prefix_append _ _) hne'
      | true _ _ hdrop' =>
          exact List.append_cancel_left (hdrop.symm.trans hdrop')

/-- A text starts with a literal, or is read as a value of another kind. -/
theorem literalAt_or_valueAt {cur : List UInt8} (h : nul ∈ cur) :
    (exists rest, LiteralAt cur rest) ∨ (exists c s, ValueAt cur (c :: s)) := by
  by_cases hliteral : exists rest, LiteralAt cur rest
  · exact Or.inl hliteral
  · have hnull := before_dropCommon nullText (by decide) h
    have hfalse := before_dropCommon falseText (by decide) hnull.right
    have htrue := before_dropCommon trueText (by decide) hfalse.right
    refine Or.inr ?_
    cases hafter : afterLiterals cur with
    | nil =>
        rw [afterLiterals] at hafter
        rw [hafter] at htrue
        cases htrue.right
    | cons c s =>
        exact ⟨c, s, fun rest hrest => hliteral ⟨rest, hrest⟩, hafter⟩

/-!
# How far a reading goes
-/

theorem Kind.opening_ne_nul (kind : Kind) : kind.opening ≠ nul := by
  cases kind <;> decide

theorem Kind.closing_ne_nul (kind : Kind) : kind.closing ≠ nul := by
  cases kind <;> decide

theorem ValueAt.before {cur rest : List UInt8} (h : ValueAt cur rest)
    (hcur : nul ∈ cur) :
    Before rest cur := by
  have hnull := before_dropCommon nullText (by decide) hcur
  have hfalse := before_dropCommon falseText (by decide) hnull.right
  have htrue := before_dropCommon trueText (by decide) hfalse.right
  rw [← h.right]
  exact (htrue.trans hfalse).trans hnull

theorem ValueAt.length_lt {cur s : List UInt8} {c : UInt8}
    (h : ValueAt cur (c :: s))
    (hcur : nul ∈ cur) : s.length < cur.length :=
  (h.before hcur).left.length_le

theorem stringEnd_before {s rest : List UInt8} (hs : Terminated s)
    (h : stringEnd s = some rest) :
    Before rest s := by
  unfold stringEnd at h
  split at h
  · cases h
  · rcases Option.map_eq_some_iff.mp h with ⟨stop, hstop, rfl⟩
    rcases unitStop_atDelimiter hstop with ⟨⟨c, tail, rfl, hc⟩, hsuffix⟩
    have hbefore := hs.before hsuffix (by simp)
    unfold afterQuote
    by_cases hquote : c = quote
    · simp only [if_pos hquote]
      exact hbefore.tail (by rw [hquote]; decide)
    · simp only [if_neg hquote]
      exact hbefore

theorem Reads.before {place : Place} {cur rest : List UInt8}
    (h : Reads place cur rest)
    (hcur : Terminated cur) : Before rest cur := by
  induction h with
  | literal hliteral hc =>
      exact hliteral.before hcur.right
  | string hvalue hstring =>
      have hs := (hvalue.before hcur.right).tail (by decide)
      exact (stringEnd_before (hcur.rest hs) hstring).trans hs
  | number hvalue hc =>
      have hs := hvalue.before hcur.right
      exact (afterNumber_before hs.right).trans hs
  | empty kind hvalue hspace =>
      have hs := (hvalue.before hcur.right).tail kind.opening_ne_nul
      have hclose := hspace ▸ before_dropSpace hs.right
      exact (hclose.tail kind.closing_ne_nul).trans hs
  | container kind hvalue hspace hc hentry hitems ih ihitems =>
      have hs := (hvalue.before hcur.right).tail kind.opening_ne_nul
      have hfirst := (hspace ▸ before_dropSpace hs.right).trans hs
      have hmid := (ih (hcur.rest hfirst)).trans hfirst
      exact (ihitems (hcur.rest hmid)).trans hmid
  | element hvalue ih =>
      have hmid := ih hcur
      exact (before_dropSpace hmid.right).trans hmid
  | member hstring hspace hvalue ih =>
      have hs := before_tail (by decide) hcur.right
      have hmid := (stringEnd_before (hcur.rest hs) hstring).trans hs
      have hv := ((hspace ▸ before_dropSpace hmid.right).tail (by decide)).trans
        hmid
      have hstart := (before_dropSpace hv.right).trans hv
      have hrest := (ih (hcur.rest hstart)).trans hstart
      exact (before_dropSpace hrest.right).trans hrest
  | close kind =>
      exact before_tail kind.closing_ne_nul hcur.right
  | trailing kind hspace =>
      have hs := before_tail (by decide) hcur.right
      have hclose := (hspace ▸ before_dropSpace hs.right).trans hs
      exact (hclose.tail kind.closing_ne_nul).tail kind.closing_ne_nul
  | more kind hspace hc hentry hitems ih ihitems =>
      have hs := before_tail (by decide) hcur.right
      have hnext := (hspace ▸ before_dropSpace hs.right).trans hs
      have hmid := (ih (hcur.rest hnext)).trans hnext
      exact (ihitems (hcur.rest hmid)).trans hmid

/-!
# The parser follows the readings
-/

variable {double : Type}

theorem parseMember_name (stack : Stack) (parse : Parse (Item double))
    {s mid v : List UInt8}
    (hs : Terminated s) (hstring : stringEnd s = some mid)
    (hspace : dropSpace mid = colon :: v) :
    exists name, parseMember stack parse (quote :: s) =
      afterColon parse name v := by
  rcases parseStringAt_eq stack hs.left with ⟨hnone, _⟩ | ⟨name, rest, hrest, hok⟩
  · rw [hstring] at hnone
    cases hnone
  · rw [hstring] at hrest
    cases hrest
    have hmid := stringEnd_before hs hstring
    exact ⟨name, parseMember_colon hok (hspace ▸ skip_dropSpace hmid.right)⟩

variable [CDouble double]

theorem parseValue_valueAt (stack : Stack) (depth : Nat) {cur rest : List UInt8}
    (hcur : nul ∈ cur)
    (h : ValueAt cur rest) :
    parseValue stack (depth + 1) cur =
      (dispatch stack (parseValue stack depth) rest :
        Outcome _ _ (Item double)) := by
  have hnull := before_dropCommon nullText (by decide) hcur
  have hfalse := before_dropCommon falseText (by decide) hnull.right
  have hne : ¬ nullText <+: cur := by
    rintro ⟨t, rfl⟩
    exact h.left t .null
  have hne' : ¬ falseText <+: dropCommon nullText cur := by
    rintro ⟨t, ht⟩
    exact h.left t (.false hne ht.symm)
  have hne'' : ¬ trueText <+: dropCommon falseText (dropCommon nullText cur) := by
    rintro ⟨t, ht⟩
    exact h.left t (.true hne hne' ht.symm)
  rcases streamCmp_mismatch (by decide) hcur hne with ⟨a, ha, hcmp⟩
  rcases streamCmp_mismatch (by decide) hnull.right hne' with ⟨b, hb, hcmp'⟩
  rcases streamCmp_mismatch (by decide) hfalse.right hne'' with ⟨c, hc, hcmp''⟩
  rw [parseValue_dispatch ha hcmp hb hcmp' hc hcmp'', ← h.right]
  rfl

theorem parseValue_literalAt (stack : Stack) (depth : Nat)
    {cur rest : List UInt8} {c : UInt8}
    (hcur : nul ∈ cur) (h : LiteralAt cur (c :: rest)) (hc : c ≠ nul) :
    exists v : Item double, parseValue stack (depth + 1) cur =
      .ok v (c :: rest) := by
  have hnull := before_dropCommon nullText (by decide) hcur
  cases h with
  | null =>
      exact ⟨_, parseValue_null (streamCmp_literal nullText hc rest)⟩
  | false hne hdrop =>
      rcases streamCmp_mismatch (by decide) hcur hne with ⟨a, ha, hcmp⟩
      rw [hdrop] at hcmp
      exact ⟨_, parseValue_false ha hcmp (streamCmp_literal falseText hc rest)⟩
  | true hne hne' hdrop =>
      rcases streamCmp_mismatch (by decide) hcur hne with ⟨a, ha, hcmp⟩
      rcases streamCmp_mismatch (by decide) hnull.right hne' with ⟨b, hb, hcmp'⟩
      rw [hdrop] at hcmp'
      exact ⟨_, parseValue_true ha hcmp hb hcmp'
        (streamCmp_literal trueText hc rest)⟩

theorem parseValue_literalAt_nul (stack : Stack) (depth : Nat)
    {cur rest : List UInt8}
    (hcur : nul ∈ cur) (h : LiteralAt cur (nul :: rest)) :
    parseValue stack (depth + 1) cur =
      (.fault .literal : Outcome _ _ (Item double)) := by
  have hnull := before_dropCommon nullText (by decide) hcur
  cases h with
  | null =>
      exact parseValue_null_fault (streamCmp_literal_nul nullText rest)
  | false hne hdrop =>
      rcases streamCmp_mismatch (by decide) hcur hne with ⟨a, ha, hcmp⟩
      rw [hdrop] at hcmp
      exact parseValue_false_fault ha hcmp (streamCmp_literal_nul falseText rest)
  | true hne hne' hdrop =>
      rcases streamCmp_mismatch (by decide) hcur hne with ⟨a, ha, hcmp⟩
      rcases streamCmp_mismatch (by decide) hnull.right hne' with ⟨b, hb, hcmp'⟩
      rw [hdrop] at hcmp'
      exact parseValue_true_fault ha hcmp hb hcmp'
        (streamCmp_literal_nul trueText rest)

theorem dispatch_opening {stack : Stack} {parse : Parse (Item double)} {kind : Kind}
    {s next : List UInt8} {c : UInt8} (hs : nul ∈ s)
    (hspace : dropSpace s = c :: next)
    (hc : c ≠ kind.closing) :
    dispatch stack parse (kind.opening :: s) =
      andThen (andThen (kind.parseEntry stack parse (c :: next))
        (fun child cur => itemsLoop kind.closing (kind.parseEntry stack parse)
          (cur.length + 1)
          [child] cur)) (fun items rest => .ok (kind.wrap items) rest) := by
  rw [dispatch_container, parseItems_first (hspace ▸ skip_dropSpace hs) hc]

def ParsedTo (stack : Stack) (double : Type) [CDouble double] (rest : List UInt8) :
    Place -> List UInt8 -> Prop
  | .value, cur =>
      forall depth, cur.length < depth ->
        exists v : Item double, parseValue stack depth cur = .ok v rest
  | .entry kind, cur =>
      forall depth, cur.length < depth ->
        exists e, kind.parseEntry stack (parseValue stack depth :
          Parse (Item double)) cur = .ok e rest
  | .items kind, cur =>
      forall depth fuel acc, cur.length < depth -> cur.length < fuel ->
        exists es, itemsLoop kind.closing
          (kind.parseEntry stack (parseValue stack depth : Parse (Item double)))
            fuel acc cur =
            .ok es rest

theorem parsedTo_of_reads (stack : Stack) {place : Place} {cur rest : List UInt8}
    (h : Reads place cur rest) (hcur : Terminated cur) :
    ParsedTo stack double rest place cur := by
  induction h with
  | literal hliteral hc =>
      intro depth hdepth
      cases depth with
      | zero =>
          cases hdepth
      | succ depth =>
          exact parseValue_literalAt stack depth hcur.right hliteral hc
  | string hvalue hstring =>
      intro depth hdepth
      have hs := hvalue.before hcur.right
      have hs' := hs.tail (by decide)
      cases depth with
      | zero =>
          cases hdepth
      | succ depth =>
          rw [parseValue_valueAt stack depth hcur.right hvalue, dispatch_string]
          rcases parseStringAt_eq stack (hcur.rest hs').left with
            ⟨hnone, _⟩ | ⟨v, rest, hrest, hok⟩
          · rw [hstring] at hnone
            cases hnone
          · rw [hstring] at hrest
            cases hrest
            exact ⟨_, by rw [hok]; rfl⟩
  | number hvalue hc =>
      intro depth hdepth
      cases depth with
      | zero =>
          cases hdepth
      | succ depth =>
          rw [parseValue_valueAt stack depth hcur.right hvalue,
            dispatch_number _ _ hc]
          exact (parseNumber_total (hvalue.before hcur.right).right).left
  | empty kind hvalue hspace =>
      intro depth hdepth
      have hs := (hvalue.before hcur.right).tail kind.opening_ne_nul
      cases depth with
      | zero =>
          cases hdepth
      | succ depth =>
          rw [parseValue_valueAt stack depth hcur.right hvalue, dispatch_container,
            parseItems_empty (hspace ▸ skip_dropSpace hs.right)]
          exact ⟨_, rfl⟩
  | @container kind cur s next mid rest c hvalue hspace hc hentry hitems ih
      ihitems =>
      intro depth hdepth
      have hs := (hvalue.before hcur.right).tail kind.opening_ne_nul
      have hfirst := (hspace ▸ before_dropSpace hs.right).trans hs
      have hmid := (hentry.before (hcur.rest hfirst)).trans hfirst
      cases depth with
      | zero =>
          cases hdepth
      | succ depth =>
          have hshort := hvalue.length_lt hcur.right
          have hlength : (c :: next).length < depth :=
            Nat.lt_of_le_of_lt (hspace ▸ before_dropSpace hs.right).left.length_le
              (Nat.lt_of_lt_of_le hshort (Nat.le_of_lt_succ hdepth))
          have hlength' : mid.length < depth :=
            Nat.lt_of_le_of_lt (hentry.before (hcur.rest hfirst)).left.length_le
              hlength
          rcases ih (hcur.rest hfirst) depth hlength with ⟨e, he⟩
          rcases ihitems (hcur.rest hmid) depth (mid.length + 1) [e] hlength'
            (Nat.lt_succ_self _) with ⟨es, hes⟩
          rw [parseValue_valueAt stack depth hcur.right hvalue,
            dispatch_opening hs.right hspace hc, he, andThen_ok, hes]
          exact ⟨_, rfl⟩
  | element hvalue ih =>
      intro depth hdepth
      rcases ih hcur depth hdepth with ⟨v, hv⟩
      have hmid := hvalue.before hcur
      change exists e, parseElement _ _ = _
      rw [parseElement_apply, hv, andThen_ok, skip_dropSpace hmid.right]
      exact ⟨_, rfl⟩
  | @member s mid v rest hstring hspace hvalue ih =>
      intro depth hdepth
      have hs := before_tail (by decide) hcur.right
      have hmid := (stringEnd_before (hcur.rest hs) hstring).trans hs
      have hv := ((hspace ▸ before_dropSpace hmid.right).tail (by decide)).trans
        hmid
      have hstart := (before_dropSpace hv.right).trans hv
      have hrest := hvalue.before (hcur.rest hstart)
      rcases ih (hcur.rest hstart) depth
        (Nat.lt_of_le_of_lt hstart.left.length_le hdepth)
        with ⟨a, ha⟩
      rcases parseMember_name stack (parseValue stack depth :
        Parse (Item double)) (hcur.rest hs)
        hstring hspace with ⟨name, hname⟩
      change exists e, parseMember _ _ _ = _
      rw [hname, afterColon_apply _ _ (skip_dropSpace hv.right),
        parseElement_apply, ha, andThen_ok,
        skip_dropSpace hrest.right]
      exact ⟨_, rfl⟩
  | @close kind rest =>
      intro depth fuel acc hdepth hfuel
      cases fuel with
      | zero =>
          cases hfuel
      | succ fuel =>
          exact ⟨acc, itemsLoop_close kind.closing_ne_comma _ fuel acc rest⟩
  | trailing kind hspace =>
      intro depth fuel acc hdepth hfuel
      have hs := before_tail (by decide) hcur.right
      cases fuel with
      | zero =>
          cases hfuel
      | succ fuel =>
          rw [itemsLoop_trailing (hspace ▸ skip_dropSpace hs.right),
            closeItems_self]
          exact ⟨acc, rfl⟩
  | more kind hspace hc hentry hitems ih ihitems =>
      intro depth fuel acc hdepth hfuel
      have hs := before_tail (by decide) hcur.right
      have hspaced := hspace ▸ before_dropSpace hs.right
      have hnext := hspaced.trans hs
      have hmid := (hentry.before (hcur.rest hnext)).trans hnext
      cases fuel with
      | zero =>
          cases hfuel
      | succ fuel =>
          have hmid' := (hentry.before (hcur.rest hnext)).left.length_le
          have hlength := hspaced.left.length_le
          rw [List.length_cons] at hfuel hdepth
          rcases ih (hcur.rest hnext) depth (by omega) with ⟨e, he⟩
          rw [itemsLoop_more (hspace ▸ skip_dropSpace hs.right) hc, he, andThen_ok]
          exact ihitems (hcur.rest hmid) depth fuel (acc ++ [e]) (by omega)
            (by omega)

end CJson
end Lepd
