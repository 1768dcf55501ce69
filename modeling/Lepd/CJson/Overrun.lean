import Lepd.CJson.Readings

/-!
# Overruns

The parser stays inside of its text exactly when the reading of the text comes to
no place where it overruns.
-/

namespace Lepd
namespace CJson

open Foundation
open Foundation.Scan

variable {double : Type}

/-!
# Every text is read, rejected or overrun
-/

/-- What an outcome says about the text it came from. -/
def Explained {value : Type} (place : Place) (cur : List UInt8) :
    Outcome Fault UInt8 value -> Prop
  | .ok _ rest => Reads place cur rest
  | .null rest => Before rest cur
  | .fault _ => Overruns place cur

theorem explained_parseElement {parse : Parse (Item double)} {cur : List UInt8}
    (hcur : Terminated cur) (h : Explained .value cur (parse cur)) :
    Explained (.entry .array) cur (parseElement parse cur) := by
  rw [parseElement_apply]
  cases ho : parse cur with
  | ok v mid =>
      rw [ho] at h
      rw [andThen_ok, skip_dropSpace (Reads.before h hcur).right]
      exact .element h
  | null rest =>
      rw [ho] at h
      exact h
  | fault reason =>
      rw [ho] at h
      exact .element h

theorem parseStringAt_other (stack : Stack) {c : UInt8} (hc : c ≠ quote)
    (s : List UInt8) :
    parseStringAt stack (c :: s) = .null (c :: s) := by
  simp only [parseStringAt, parseString, bind_apply, peek, peek_cons,
    andThen_ok, ne_eq, if_pos hc,
    fail_apply]

theorem explained_parseMember (stack : Stack) {parse : Parse (Item double)}
    {cur : List UInt8}
    (hcur : Terminated cur)
    (h : forall rest, Before rest cur -> Explained .value rest (parse rest)) :
    Explained (.entry .object) cur (parseMember stack parse cur) := by
  match cur, hcur with
  | [], hcur =>
      cases hcur.right
  | c :: s, hcur =>
      by_cases hc : c = quote
      · subst hc
        have hs := before_tail (by decide) hcur.right
        rcases parseStringAt_eq stack (hcur.rest hs).left with
          ⟨hnone, hfault⟩ | ⟨name, mid, hstring, hok⟩
        · rw [parseMember, bind_apply, hfault]
          exact .name hnone
        · have hmid := (stringEnd_before (hcur.rest hs) hstring).trans hs
          have hspaced := before_dropSpace hmid.right
          have hskip := skip_dropSpace hmid.right
          cases hspace : dropSpace mid with
          | nil =>
              rw [hspace] at hspaced
              cases hspaced.right
          | cons d v =>
              rw [hspace] at hskip hspaced
              by_cases hd : d = colon
              · subst hd
                have hv := (hspaced.tail (by decide)).trans hmid
                have hstart := (before_dropSpace hv.right).trans hv
                have hvalue := h _ hstart
                rw [parseMember_colon hok hskip,
                  afterColon_apply _ _ (skip_dropSpace hv.right),
                  parseElement_apply]
                cases ho : parse (dropSpace v) with
                | ok a after =>
                    rw [ho] at hvalue
                    rw [andThen_ok, skip_dropSpace
                      (Reads.before hvalue (hcur.rest hstart)).right]
                    exact .member hstring hspace hvalue
                | null rest =>
                    rw [ho] at hvalue
                    exact Before.trans hvalue hstart
                | fault reason =>
                    rw [ho] at hvalue
                    exact .member hstring hspace hvalue
              · rw [parseMember_stop hok hskip hd]
                exact hspaced.trans hmid
      · have hstop : parseMember stack parse (c :: s) = .null (c :: s) := by
          rw [parseMember, bind_apply, parseStringAt_other stack hc]
          rfl
        rw [hstop]
        exact before_self hcur.right

theorem explained_trailing (kind : Kind) (acc : List (kind.Entry double))
    {s cur : List UInt8}
    (hspace : dropSpace s = kind.closing :: cur) (hcur : Before cur (comma :: s)) :
    Explained (.items kind) (comma :: s) (closeItems kind.closing acc cur) := by
  cases cur with
  | nil =>
      cases hcur.right
  | cons e rest =>
      by_cases he : e = kind.closing
      · subst he
        rw [closeItems_self]
        exact .trailing kind hspace
      · rw [closeItems_other he]
        exact hcur

theorem explained_itemsLoop (kind : Kind)
    {parseItem : Parse (kind.Entry double)} (fuel : Nat)
    {cur : List UInt8} (hcur : Terminated cur) (hfuel : cur.length < fuel)
    (h : forall rest, Before rest cur ->
    Explained (.entry kind) rest (parseItem rest))
    (acc : List (kind.Entry double)) :
    Explained (.items kind) cur (itemsLoop kind.closing parseItem fuel acc
      cur) := by
  induction fuel generalizing cur acc with
  | zero =>
      cases hfuel
  | succ fuel ih =>
      match cur, hcur, hfuel, h with
      | [], hcur, _, _ =>
          cases hcur.right
      | c :: s, hcur, hfuel, h =>
          by_cases hcomma : c = comma
          · subst hcomma
            have hs := before_tail (by decide) hcur.right
            have hspaced := before_dropSpace hs.right
            have hskip := skip_dropSpace hs.right
            cases hspace : dropSpace s with
            | nil =>
                rw [hspace] at hspaced
                cases hspaced.right
            | cons d next =>
                rw [hspace] at hskip hspaced
                have hnext := hspaced.trans hs
                by_cases hd : d = kind.closing
                · subst hd
                  rw [itemsLoop_trailing hskip]
                  exact explained_trailing kind acc hspace
                    (hnext.tail kind.closing_ne_nul)
                · have hentry := h (d :: next) hnext
                  have hlength := hspaced.left.length_le
                  rw [itemsLoop_more hskip hd]
                  rw [List.length_cons] at hfuel
                  cases ho : parseItem (d :: next) with
                  | ok e mid =>
                      rw [ho] at hentry
                      have hmid := Reads.before hentry (hcur.rest hnext)
                      have hlength' := hmid.left.length_le
                      have hitems := ih (hcur.rest (hmid.trans hnext)) (by omega)
                        (fun rest hrest =>
                          h rest (hrest.trans (hmid.trans hnext))) (acc ++ [e])
                      rw [andThen_ok]
                      cases hloop : itemsLoop kind.closing parseItem fuel
                        (acc ++ [e]) mid with
                      | ok es rest =>
                          rw [hloop] at hitems
                          exact .more kind hspace hd hentry hitems
                      | null rest =>
                          rw [hloop] at hitems
                          exact (Before.trans hitems hmid).trans hnext
                      | fault reason =>
                          rw [hloop] at hitems
                          exact .later kind hspace hd hentry hitems
                  | null rest =>
                      rw [ho] at hentry
                      exact Before.trans hentry hnext
                  | fault reason =>
                      rw [ho] at hentry
                      exact .next kind hspace hd hentry
          · by_cases hclosing : c = kind.closing
            · subst hclosing
              rw [itemsLoop_close kind.closing_ne_comma]
              exact .close kind
            · rw [itemsLoop_stop hcomma hclosing]
              exact before_self hcur.right

variable [CDouble double]

theorem explained_container (stack : Stack) (kind : Kind)
    {parse : Parse (Item double)}
    {cur s : List UInt8} (hcur : Terminated cur)
    (hvalue : ValueAt cur (kind.opening :: s))
    (h : forall rest, Before rest s -> Explained .value rest (parse rest)) :
    Explained .value cur (dispatch stack parse (kind.opening :: s)) := by
  have hs := (hvalue.before hcur.right).tail kind.opening_ne_nul
  have hspaced := before_dropSpace hs.right
  have hskip := skip_dropSpace hs.right
  have hentry : forall rest, Before rest s ->
      Explained (.entry kind) rest (kind.parseEntry stack parse rest) := by
    intro rest hrest
    have hterm := hcur.rest (hrest.trans hs)
    cases kind with
    | array =>
        exact explained_parseElement hterm (h rest hrest)
    | object =>
        exact explained_parseMember stack hterm (fun r hr => h r (hr.trans hrest))
  cases hspace : dropSpace s with
  | nil =>
      rw [hspace] at hspaced
      cases hspaced.right
  | cons d next =>
      rw [hspace] at hskip hspaced
      by_cases hd : d = kind.closing
      · subst hd
        rw [dispatch_container, parseItems_empty hskip]
        exact .empty kind hvalue hspace
      · rw [dispatch_opening hs.right hspace hd]
        have hfirst := hentry (d :: next) hspaced
        cases ho : kind.parseEntry stack parse (d :: next) with
        | ok e mid =>
            rw [ho] at hfirst
            have hmid := Reads.before hfirst (hcur.rest (hspaced.trans hs))
            have hitems := explained_itemsLoop kind (mid.length + 1)
              (hcur.rest (hmid.trans (hspaced.trans hs))) (Nat.lt_succ_self _)
              (fun rest hrest => hentry rest (hrest.trans (hmid.trans hspaced))) [e]
            rw [andThen_ok]
            cases hloop : itemsLoop kind.closing (kind.parseEntry stack parse)
              (mid.length + 1) [e]
              mid with
            | ok es rest =>
                rw [hloop] at hitems
                exact .container kind hvalue hspace hd hfirst hitems
            | null rest =>
                rw [hloop] at hitems
                exact (Before.trans hitems hmid).trans (hspaced.trans hs)
            | fault reason =>
                rw [hloop] at hitems
                exact .inside kind hvalue hspace hd hfirst hitems
        | null rest =>
            rw [ho] at hfirst
            exact Before.trans hfirst (hspaced.trans hs)
        | fault reason =>
            rw [ho] at hfirst
            exact .first kind hvalue hspace hd hfirst

theorem explained_parseValue (stack : Stack) (depth : Nat) {cur : List UInt8}
    (hcur : Terminated cur) (hdepth : cur.length < depth) :
    Explained .value cur (parseValue stack depth cur :
      Outcome _ _ (Item double)) := by
  induction depth generalizing cur with
  | zero =>
      cases hdepth
  | succ depth ih =>
      rcases literalAt_or_valueAt hcur.right with ⟨rest, hliteral⟩ | ⟨c, s, hvalue⟩
      · have hrest := hliteral.before hcur.right
        cases rest with
        | nil =>
            cases hrest.right
        | cons c rest =>
            by_cases hc : c = nul
            · subst hc
              rw [parseValue_literalAt_nul stack depth hcur.right hliteral]
              exact .literal hliteral
            · have hread : exists v : Item double,
                  parseValue stack (depth + 1) cur =
                  .ok v (c :: rest) :=
                    parseValue_literalAt stack depth hcur.right hliteral hc
              rcases hread with ⟨v, hv⟩
              rw [hv]
              exact .literal hliteral hc
      · have hbefore := hvalue.before hcur.right
        rw [parseValue_valueAt stack depth hcur.right hvalue]
        by_cases hquote : c = quote
        · subst hquote
          have hs := hcur.rest (hbefore.tail (by decide))
          rw [dispatch_string]
          rcases parseStringAt_eq stack hs.left with
            ⟨hnone, hfault⟩ | ⟨v, rest, hstring, hok⟩
          · rw [hfault]
            exact .string hvalue hnone
          · rw [hok]
            exact .string hvalue hstring
        · by_cases hnumber : c = minus ∨ isDigit c = true
          · have htotal : (exists v : Item double, parseNumber (c :: s) =
                .ok v (afterNumber (c :: s))) ∧ _ := parseNumber_total hbefore.right
            rcases htotal with ⟨⟨v, hv⟩, _⟩
            rw [dispatch_number _ _ hnumber, hv]
            exact .number hvalue hnumber
          · by_cases hkind : exists kind : Kind, c = kind.opening
            · rcases hkind with ⟨kind, rfl⟩
              have hshort := hvalue.length_lt hcur.right
              refine explained_container stack kind hcur hvalue
                (fun rest hrest => ?_)
              have hlength := hrest.left.length_le
              exact ih (hcur.rest
                (hrest.trans (hbefore.tail kind.opening_ne_nul))) (by omega)
            · rw [dispatch_fail _ _ hquote hnumber
                (fun kind hc => hkind ⟨kind, hc⟩)]
              exact hbefore

/-!
# Overruns leave the text
-/

/-- A byte behind the text, or behind a literal, is examined. -/
def Leaves {value : Type} (o : Outcome Fault UInt8 value) : Prop :=
  o = .fault .overread ∨ o = .fault .literal

theorem Leaves.followed {value other : Type} {o : Outcome Fault UInt8 value}
    (h : Leaves o)
    (f : value -> Parse other) : Leaves (andThen o f) := by
  rcases h with rfl | rfl
  · exact Or.inl rfl
  · exact Or.inr rfl

def LeavesFrom (stack : Stack) (double : Type) [CDouble double] :
    Place -> List UInt8 -> Prop
  | .value, cur =>
      forall depth, cur.length < depth ->
        Leaves (parseValue stack depth cur : Outcome _ _ (Item double))
  | .entry kind, cur =>
      forall depth, cur.length < depth ->
        Leaves (kind.parseEntry stack (parseValue stack depth :
          Parse (Item double)) cur)
  | .items kind, cur =>
      forall depth fuel acc, cur.length < depth -> cur.length < fuel ->
        Leaves (itemsLoop kind.closing
          (kind.parseEntry stack (parseValue stack depth : Parse (Item double)))
            fuel acc cur)

theorem parseStringAt_none (stack : Stack) {s : List UInt8} (hs : Terminated s)
    (h : stringEnd s = none) :
    parseStringAt stack (quote :: s) = .fault .overread := by
  rcases parseStringAt_eq stack hs.left with ⟨_, hfault⟩ | ⟨v, rest, hrest, _⟩
  · exact hfault
  · rw [h] at hrest
    cases hrest

theorem leavesFrom_of_overruns (stack : Stack) {place : Place} {cur : List UInt8}
    (h : Overruns place cur) (hcur : Terminated cur) :
    LeavesFrom stack double place cur := by
  induction h with
  | literal hliteral =>
      intro depth hdepth
      cases depth with
      | zero =>
          cases hdepth
      | succ depth =>
          exact Or.inr (parseValue_literalAt_nul stack depth hcur.right hliteral)
  | string hvalue hstring =>
      intro depth hdepth
      have hs := (hvalue.before hcur.right).tail (by decide)
      cases depth with
      | zero =>
          cases hdepth
      | succ depth =>
          rw [parseValue_valueAt stack depth hcur.right hvalue, dispatch_string,
            parseStringAt_none stack (hcur.rest hs) hstring]
          exact Or.inl rfl
  | @first kind cur s next c hvalue hspace hc hentry ih =>
      intro depth hdepth
      have hs := (hvalue.before hcur.right).tail kind.opening_ne_nul
      have hspaced := hspace ▸ before_dropSpace hs.right
      cases depth with
      | zero =>
          cases hdepth
      | succ depth =>
          have hshort := hvalue.length_lt hcur.right
          have hnext := hspaced.left.length_le
          rw [parseValue_valueAt stack depth hcur.right hvalue,
            dispatch_opening hs.right hspace hc]
          exact ((ih (hcur.rest (hspaced.trans hs)) depth (by omega)).followed
            _).followed _
  | @inside kind cur s next mid c hvalue hspace hc hentry hitems ih =>
      intro depth hdepth
      have hs := (hvalue.before hcur.right).tail kind.opening_ne_nul
      have hspaced := hspace ▸ before_dropSpace hs.right
      have hfirst := hcur.rest (hspaced.trans hs)
      have hmid := hentry.before hfirst
      cases depth with
      | zero =>
          cases hdepth
      | succ depth =>
          have hshort := hvalue.length_lt hcur.right
          have hnext := hspaced.left.length_le
          have hrest := hmid.left.length_le
          have hentry' : ParsedTo stack double mid (.entry kind) (c :: next) :=
            parsedTo_of_reads stack hentry hfirst
          rcases hentry' depth (by omega) with ⟨e, he⟩
          rw [parseValue_valueAt stack depth hcur.right hvalue,
            dispatch_opening hs.right hspace hc, he, andThen_ok]
          exact (ih (hfirst.rest hmid) depth (mid.length + 1) [e] (by omega)
            (Nat.lt_succ_self _)).followed _
  | element hvalue ih =>
      intro depth hdepth
      change Leaves (parseElement _ _)
      rw [parseElement_apply]
      exact (ih hcur depth hdepth).followed _
  | @name s hstring =>
      intro depth hdepth
      have hs := before_tail (by decide) hcur.right
      change Leaves (parseMember _ _ _)
      rw [parseMember, bind_apply, parseStringAt_none stack (hcur.rest hs) hstring]
      exact Or.inl rfl
  | @member s mid v hstring hspace hvalue ih =>
      intro depth hdepth
      have hs := before_tail (by decide) hcur.right
      have hmid := (stringEnd_before (hcur.rest hs) hstring).trans hs
      have hv := ((hspace ▸ before_dropSpace hmid.right).tail (by decide)).trans
        hmid
      have hstart := (before_dropSpace hv.right).trans hv
      have hvalue := ih (hcur.rest hstart) depth
        (Nat.lt_of_le_of_lt hstart.left.length_le hdepth)
      rcases parseMember_name stack (parseValue stack depth :
        Parse (Item double)) (hcur.rest hs)
        hstring hspace with ⟨name, hname⟩
      change Leaves (parseMember _ _ _)
      rw [hname, afterColon_apply _ _ (skip_dropSpace hv.right), parseElement_apply]
      exact (hvalue.followed _).followed _
  | next kind hspace hc hentry ih =>
      intro depth fuel acc hdepth hfuel
      have hs := before_tail (by decide) hcur.right
      have hspaced := hspace ▸ before_dropSpace hs.right
      have hlength := hspaced.left.length_le
      rw [List.length_cons] at hdepth
      cases fuel with
      | zero =>
          cases hfuel
      | succ fuel =>
          rw [itemsLoop_more (hspace ▸ skip_dropSpace hs.right) hc]
          exact (ih (hcur.rest (hspaced.trans hs)) depth (by omega)).followed _
  | @later kind s next mid c hspace hc hentry hitems ih =>
      intro depth fuel acc hdepth hfuel
      have hs := before_tail (by decide) hcur.right
      have hspaced := hspace ▸ before_dropSpace hs.right
      have hnext := hcur.rest (hspaced.trans hs)
      have hmid := hentry.before hnext
      have hlength := hspaced.left.length_le
      have hlength' := hmid.left.length_le
      rw [List.length_cons] at hdepth hfuel
      cases fuel with
      | zero =>
          cases hfuel
      | succ fuel =>
          have hentry' : ParsedTo stack double mid (.entry kind) (c :: next) :=
            parsedTo_of_reads stack hentry hnext
          rcases hentry' depth (by omega) with ⟨e, he⟩
          rw [itemsLoop_more (hspace ▸ skip_dropSpace hs.right) hc, he, andThen_ok]
          exact ih (hnext.rest hmid) depth fuel (acc ++ [e]) (by omega) (by omega)

/-!
# The whole text
-/

/-- The end pointer is left on a byte of the text, or on its NUL. -/
def StaysInside {value : Type} (text : List UInt8)
    (o : Outcome Fault UInt8 value) : Prop :=
  exists rest, rest <:+ text ∧ rest ≠ [] ∧
    (o = .null rest ∨ exists v, o = .ok v rest)

theorem not_staysInside_of_leaves {value : Type} {text : List UInt8}
    {o : Outcome Fault UInt8 value} (h : Leaves o) : ¬ StaysInside text o := by
  rintro ⟨rest, _, _, rfl | ⟨v, rfl⟩⟩
  · rcases h with h | h <;> cases h
  · rcases h with h | h <;> cases h

theorem staysInside_of_explained {value : Type} {place : Place}
    {text cur : List UInt8}
    {o : Outcome Fault UInt8 value} (h : Explained place cur o)
    (hcur : Terminated cur)
    (htext : cur <:+ text) (hover : ¬ Overruns place cur) : StaysInside text o := by
  cases o with
  | ok v rest =>
      have hrest := Reads.before h hcur
      exact ⟨rest, hrest.left.trans htext, List.ne_nil_of_mem hrest.right,
        Or.inr ⟨v, rfl⟩⟩
  | null rest =>
      have hrest : Before rest cur := h
      exact ⟨rest, hrest.left.trans htext, List.ne_nil_of_mem hrest.right,
        Or.inl rfl⟩
  | fault reason =>
      exact absurd h hover

theorem terminated_append (text : List UInt8) : Terminated (text ++ [nul]) := by
  refine ⟨fun c hc => ?_, by simp⟩
  rw [List.getLast?_concat] at hc
  exact (Option.some.inj hc).symm

/--
The parser examines no byte behind the NUL and none behind a literal, and leaves
the end pointer in the text, exactly when the reading of the text overruns nowhere.
-/
theorem cJSONParseStream_staysInside_iff (stack : Stack) (text : List UInt8) :
    (StaysInside (text ++ [nul])
        (cJSONParseStream stack (text ++ [nul]) : Outcome _ _ (Item double)) <->
      ¬ Overruns .value (dropSpace (text ++ [nul]))) ∧
    (Leaves (cJSONParseStream stack (text ++ [nul]) : Outcome _ _ (Item double)) <->
      Overruns .value (dropSpace (text ++ [nul]))) := by
  have htext := terminated_append text
  have hspaced := before_dropSpace htext.right
  have hcur := htext.rest hspaced
  have hparse : cJSONParseStream stack (text ++ [nul]) = (parseValue stack
      ((dropSpace (text ++ [nul])).length + 1) (dropSpace (text ++ [nul])) :
        Outcome _ _ (Item double)) := by
    simp only [cJSONParseStream, bind_apply, skip_dropSpace htext.right, andThen_ok]
  have hleaves : Overruns .value (dropSpace (text ++ [nul])) ->
      Leaves (cJSONParseStream stack (text ++ [nul]) :
        Outcome _ _ (Item double)) := by
    intro hover
    rw [hparse]
    have hfrom : LeavesFrom stack double .value _ :=
      leavesFrom_of_overruns stack hover hcur
    exact hfrom _ (Nat.lt_succ_self _)
  have hstays : ¬ Overruns .value (dropSpace (text ++ [nul])) ->
      StaysInside (text ++ [nul])
        (cJSONParseStream stack (text ++ [nul]) : Outcome _ _ (Item double)) := by
    intro hover
    rw [hparse]
    exact staysInside_of_explained (explained_parseValue stack _ hcur
      (Nat.lt_succ_self _)) hcur
      hspaced.left hover
  constructor
  · constructor
    · intro hinside hover
      exact not_staysInside_of_leaves (hleaves hover) hinside
    · exact hstays
  · constructor
    · intro hleave
      by_contra hover
      exact not_staysInside_of_leaves hleave (hstays hover)
    · exact hleaves

/-- The bytes of a request received up to the end of a literal. -/
def cutMember : List UInt8 :=
  [lbrace, quote, 97, quote, colon] ++ nullText

/-- With `null` as the last bytes received, the comparison reads behind the
literal. -/
theorem cJSONParseStream_leaves :
    ¬ StaysInside (cutMember ++ [nul])
      (cJSONParseStream (fun _ => (0, 0)) (cutMember ++ [nul]) :
        Outcome _ _ (Item Rat)) := by
  apply not_staysInside_of_leaves
  exact Or.inr rfl

end CJson
end Lepd
