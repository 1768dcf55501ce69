import Lepd.CJson.Soundness

/-!
# A comma before a closing bracket

The branches for a trailing comma step over the closing bracket and leave the
loop, which is followed by the test for a closing bracket and a step over it. So
no text with such a comma is read up to its end: what is accepted takes a
bracket of what stands behind it.
-/

namespace Lepd
namespace CJson

open Foundation
open Foundation.Scan

/--
The second text is the first one with a comma before the closing bracket of one
of its containers, which has an entry and may be nested at any depth.
-/
inductive CommaAdded : Place -> List UInt8 -> List UInt8 -> Prop where
  | here (kind : Kind) : CommaAdded (.items kind) [kind.closing]
      [comma, kind.closing]
  | first (kind : Kind) {w entry entry' items : List UInt8} :
      Ws w -> CommaAdded (.entry kind) entry entry' ->
        JsonText False (.items kind) items ->
      CommaAdded .value (kind.opening :: (w ++ (entry ++ items)))
        (kind.opening :: (w ++ (entry' ++ items)))
  | behind (kind : Kind) {w entry items items' : List UInt8} :
      Ws w -> JsonText False (.entry kind) entry ->
        CommaAdded (.items kind) items items' ->
      CommaAdded .value (kind.opening :: (w ++ (entry ++ items)))
        (kind.opening :: (w ++ (entry ++ items')))
  | element {text text' w : List UInt8} :
      CommaAdded .value text text' -> Ws w ->
        CommaAdded (.entry .array) (text ++ w) (text' ++ w)
  | member (s : List StringChar) {text text' w w' w'' : List UInt8} :
      Utf8 (stringText s) -> Ws w -> Ws w' -> CommaAdded .value text text' ->
        Ws w'' ->
      CommaAdded (.entry .object) (stringText s ++
        (w ++ (colon :: (w' ++ (text ++ w'')))))
        (stringText s ++ (w ++ (colon :: (w' ++ (text' ++ w'')))))
  | next (kind : Kind) {w entry entry' items : List UInt8} :
      Ws w -> CommaAdded (.entry kind) entry entry' ->
        JsonText False (.items kind) items ->
      CommaAdded (.items kind) (comma :: (w ++ (entry ++ items)))
        (comma :: (w ++ (entry' ++ items)))
  | later (kind : Kind) {w entry items items' : List UInt8} :
      Ws w -> JsonText False (.entry kind) entry ->
        CommaAdded (.items kind) items items' ->
      CommaAdded (.items kind) (comma :: (w ++ (entry ++ items)))
        (comma :: (w ++ (entry ++ items')))

/-- The second text has as many brackets closed as opened, and one of them
behind a comma. -/
theorem CommaAdded.counts {place : Place} {text text' : List UInt8}
    (h : CommaAdded place text text') :
    exists dangling, dangling ≠ 0 ∧ CountsAt place text' 0 dangling := by
  induction h with
  | here kind =>
      refine ⟨0 + 1, by decide, ?_⟩
      exact (counts_comma false).append (counts_closing kind true)
  | first kind hw _ hitems ih =>
      rcases ih with ⟨n, hn, hcounts⟩
      rcases counts_jsonText hitems with ⟨m, hcountsItems, _⟩
      refine ⟨0 + (n + m), by omega, ?_⟩
      intro before
      exact (counts_opening kind before).append
        (counts_entries (fun c hc => isspace_of_isWs (hw c hc)) hcounts
          hcountsItems)
  | behind kind hw hentry _ ih =>
      rcases ih with ⟨m, hm, hcountsItems⟩
      rcases counts_jsonText hentry with ⟨n, hcounts, _⟩
      refine ⟨0 + (n + m), by omega, ?_⟩
      intro before
      exact (counts_opening kind before).append
        (counts_entries (fun c hc => isspace_of_isWs (hw c hc)) hcounts
          hcountsItems)
  | element _ hw ih =>
      rcases ih with ⟨n, hn, hcounts⟩
      refine ⟨n + 0, hn, ?_⟩
      intro before
      exact (hcounts before).append (counts_ws hw false)
  | member s hs hw hw' _ hw'' ih =>
      rcases ih with ⟨n, hn, hcounts⟩
      refine ⟨n, hn, ?_⟩
      intro before
      have htail := ((counts_colon false).append ((counts_ws hw' false).append
        ((hcounts false).append (counts_ws hw'' false))))
      have hall := (counts_stringText s before).append
        ((counts_ws hw false).append htail)
      simpa using hall
  | next kind hw _ hitems ih =>
      rcases ih with ⟨n, hn, hcounts⟩
      rcases counts_jsonText hitems with ⟨m, hcountsItems, _⟩
      refine ⟨0 + (n + m), by omega, ?_⟩
      exact (counts_comma false).append
        (counts_entries (fun c hc => isspace_of_isWs (hw c hc)) hcounts
          hcountsItems)
  | later kind hw hentry _ ih =>
      rcases ih with ⟨m, hm, hcountsItems⟩
      rcases counts_jsonText hentry with ⟨n, hcounts, _⟩
      refine ⟨0 + (n + m), by omega, ?_⟩
      exact (counts_comma false).append
        (counts_entries (fun c hc => isspace_of_isWs (hw c hc)) hcounts
          hcountsItems)

theorem CommaAdded.head {text text' : List UInt8}
    (h : CommaAdded .value text text') :
    exists (kind : Kind) (tail : List UInt8), text' = kind.opening :: tail := by
  cases h with
  | first kind =>
      exact ⟨kind, _, rfl⟩
  | behind kind =>
      exact ⟨kind, _, rfl⟩

theorem CommaAdded.not_reads {text text' rest : List UInt8}
    (h : CommaAdded .value text text') :
    ¬ Reads .value (text' ++ rest) rest := by
  intro hread
  rcases h.counts with ⟨n, hn, hcounts⟩
  rcases tallied_reads hread with ⟨read, hsame, htallied⟩
  have htext : read = text' := List.append_cancel_right hsame.symm
  subst htext
  rcases htallied with ⟨m, hcounts'⟩ | ⟨hopen, _⟩
  · rcases Counts.unique (hcounts false) (hcounts' false) with ⟨hdepth, hdangling⟩
    omega
  · exact absurd hopen (hcounts false).not_unclosed

variable {double : Type} [CDouble double]

/--
Whatever stands behind it, a text with a comma before the closing bracket of one
of its containers is not parsed up to its end.
-/
theorem cJSONParseStream_comma (stack : Stack) {w text text' : List UInt8}
    (hw : Ws w)
    (h : CommaAdded .value text text') (rest : List UInt8) (v : Item double) :
    cJSONParseStream stack (w ++ (text' ++ (rest ++ [nul]))) ≠
      .ok v (rest ++ [nul]) := by
  intro haccept
  rcases h.head with ⟨kind, tail, hhead⟩
  have hopening : isspace kind.opening = false := by
    cases kind with
    | array =>
        rfl
    | object =>
        rfl
  have hstart : text' ++ (rest ++ [nul]) = kind.opening ::
      (tail ++ (rest ++ [nul])) :=
    congrArg (· ++ (rest ++ [nul])) hhead
  have hspace := (spaced hw hstart hopening).left
  have hwhole : w ++ (text' ++ (rest ++ [nul])) = w ++ (text' ++ rest) ++
      [nul] := by
    simp
  rw [hwhole] at haccept
  have hread := reads_of_accepted haccept
  rw [← hwhole, hspace] at hread
  exact h.not_reads hread

theorem commaAdded_true :
    CommaAdded .value (lbracket :: (trueText ++ [rbracket]))
      (lbracket :: (trueText ++ [comma, rbracket])) := by
  have hentry : JsonText False (.entry .array) trueText := by
    have htext := JsonText.element (.true : JsonText False .value trueText) ws_nil
    rw [List.append_nil] at htext
    exact htext
  exact .behind .array ws_nil hentry (.here .array)

theorem cJSONParseStream_comma_true :
    cJSONParseStream (fun _ => (0, 0))
      ([] ++ ((lbracket :: (trueText ++ [comma, rbracket])) ++ ([] ++ [nul]))) ≠
      .ok (.array [.true] : Item Rat) ([] ++ [nul]) :=
  cJSONParseStream_comma _ ws_nil commaAdded_true [] _

/--
`[true]` is parsed, `[true,]` is not, and in `[[true,]]` the array inside takes
both brackets: the text is parsed only with a third one behind it.
-/
theorem cJSONParseStream_takes_bracket :
    cJSONParseStream (fun _ => (0, 0)) (lbracket :: (trueText ++ [rbracket, nul])) =
        (.ok (.array [.true]) [nul] : Outcome _ _ (Item Rat)) ∧
      cJSONParseStream (fun _ => (0, 0))
        (lbracket :: (trueText ++ [comma, rbracket, nul])) =
        (.null [nul] : Outcome _ _ (Item Rat)) ∧
      cJSONParseStream (fun _ => (0, 0))
        (lbracket :: lbracket :: (trueText ++ [comma, rbracket, rbracket, nul])) =
        (.null [nul] : Outcome _ _ (Item Rat)) ∧
      cJSONParseStream (fun _ => (0, 0))
          (lbracket :: lbracket ::
            (trueText ++ [comma, rbracket, rbracket, rbracket, nul])) =
        (.ok (.array [.array [.true]]) [nul] : Outcome _ _ (Item Rat)) :=
  ⟨rfl, rfl, rfl, rfl⟩

end CJson
end Lepd
