import Lepd.Foundation.Ledger
import Lepd.Ps.Parser

/-!
# The nodes of ps

What the deferred options are turned into, node by node. A node is held by the
routine that has allocated it until it is on one of the lists.
-/

namespace Lepd
namespace Ps

open Foundation
open Foundation.Ledger (Returns)

def formatNodes (list : List FormatNode) : List Nat :=
  list.map FormatNode.node

def sortNodes (list : List SortNode) : List Nat :=
  list.map SortNode.node

/-- How often a node has been given back or is on `format_list` or `sort_list`. -/
def listed (b : State) (n : Nat) : Nat :=
  b.freed.count n + (formatNodes b.globals.formatList).count n +
    (sortNodes b.globals.sortList).count n

/-- The nodes outside of `sf_list`, which stays as it is. -/
def lists : Ledger State where
  nodes := State.nodes
  count := listed
  frame b b' := b'.sfList = b.sfList
  refl _ := rfl
  trans h h' := h'.trans h

/-!
# Allocation
-/

section Allocation

variable {ctx : Context} {held : List Nat}

theorem newNode_keeps : lists.Keeps newNode [] (fun node => [node]) := by
  intro b node b' h
  cases h
  refine ⟨rfl, Nat.le_succ _, fun n => ?_⟩
  show listed b n + [b.nodes].count n + 0 = listed b n + 0 + if b.nodes <= n ∧
    n < b.nodes + 1 then 1 else 0
  rw [List.count_singleton]
  by_cases hn : b.nodes = n
  · subst hn
    simp
  · have hnot : ¬ (b.nodes <= n ∧ n < b.nodes + 1) := by omega
    rw [if_neg hnot, if_neg (by simpa using hn)]

theorem stop_keeps {ledger : Ledger State} {value : Type} {reason : Stop}
    {held' : value -> List Nat} :
    ledger.Keeps (stop reason : Run value) held held' :=
  Ledger.Keeps.of_error (fun _ => ⟨reason, rfl⟩)

/-- Where a condition stops the call, what follows is looked at only once. -/
theorem unless_keeps {value : Type} {condition : Prop} [Decidable condition]
    {reason : Stop} {rest : Unit -> Run value}
    {held' : value -> List Nat} (h : forall u, lists.Keeps (rest u) held held') :
    lists.Keeps (have k := rest; if condition then stop reason >>= fun u => k u
      else k ()) held held' := by
  dsimp only
  split
  · exact stop_keeps.bind (fun u _ => h u)
  · exact h ()

theorem globals_keeps {ledger : Ledger State} :
    ledger.Keeps globals held (fun _ => held) := by
  intro b g b' h
  cases h
  exact Ledger.Moved.refl b held

theorem get_keeps : lists.Keeps (get : Run State) held (fun _ => held) := by
  intro b s b' h
  cases h
  exact Ledger.Moved.refl b held

theorem get_accounts {value : Type} {f : State -> Run value}
    {held' : value -> List Nat} (kept : State -> State -> Prop)
    (h : forall s, lists.Accounts (f s) held held' (kept s)) :
    lists.Accounts (get >>= f) held held' (fun b => kept b b) :=
  fun b a b' hrun => h b b a b' hrun

theorem globals_accounts {ledger : Ledger State} {value : Type}
    {f : Globals -> Run value} {held' : value -> List Nat}
    (kept : Globals -> State -> Prop)
    (h : forall g, ledger.Accounts (f g) held held' (kept g)) :
    ledger.Accounts (globals >>= f) held held' (fun b => kept b.globals b) :=
  fun b a b' hrun => h b.globals b a b' hrun

theorem modify_keeps {change : State -> State}
    (hsf : forall b, (change b).sfList = b.sfList)
    (hnodes : forall b, (change b).nodes = b.nodes)
    (hlisted : forall b, listed (change b) = listed b) :
    lists.Keeps (modify change : Run Unit) held (fun _ => held) := by
  apply Ledger.Keeps.modify
  intro b
  refine Ledger.Moved.of_count (hsf b) (hnodes b) (fun n => ?_)
  show listed (change b) n + held.count n = listed b n + held.count n
  rw [hlisted]

theorem parsedSort_keeps :
    lists.Keeps (modify (fun s => { s with alreadyParsedSort := true }) :
      Run Unit) held (fun _ => held) :=
  modify_keeps (fun _ => rfl) (fun _ => rfl) (fun _ => rfl)

theorem parsedFormat_keeps :
    lists.Keeps (modify (fun s => { s with alreadyParsedFormat := true }) :
      Run Unit) held (fun _ => held) :=
  modify_keeps (fun _ => rfl) (fun _ => rfl) (fun _ => rfl)

theorem pidDigitsRead_keeps :
    lists.Keeps (modify (fun s => { s with pidDigitsRead := true }) : Run Unit)
      held (fun _ => held) :=
  modify_keeps (fun _ => rfl) (fun _ => rfl) (fun _ => rfl)

theorem getPidDigits_keeps : lists.Keeps (getPidDigits ctx) held
    (fun _ => held) := by
  unfold getPidDigits
  exact pidDigitsRead_keeps.bind (fun _ _ => Ledger.Keeps.pure rfl)

theorem columnWidth_keeps (fs : FormatStruct) : lists.Keeps (columnWidth ctx fs)
    [] (fun _ => []) := by
  unfold columnWidth
  split
  · exact getPidDigits_keeps.bind (fun _ _ => Ledger.Keeps.pure rfl)
  · exact Ledger.Keeps.pure rfl

theorem formatNode_keeps (fs : FormatStruct) (override : Option Text) :
    lists.Keeps (formatNode ctx fs override) [] (fun node => [node.node]) := by
  unfold formatNode
  apply (columnWidth_keeps fs).bind
  intro width _
  apply newNode_keeps.bind
  intro node _
  exact Ledger.Keeps.pure rfl

theorem macroNodes_keeps (override : Option Text) (specs : List Text) :
    forall list : List FormatNode,
    lists.Keeps (macroNodes ctx override specs list)
      (formatNodes list) formatNodes := by
  induction specs with
  | nil =>
      intro list
      exact Ledger.Keeps.pure rfl
  | cons spec specs ih =>
      intro list
      unfold macroNodes
      split
      · exact stop_keeps
      · next fs _ =>
          apply ((formatNode_keeps fs override).hold (formatNodes list)).bind
          intro node _
          exact ih (node :: list)

theorem doOneSpec_keeps (spec : Text) (override : Option Text) :
    lists.Keeps (doOneSpec ctx spec override) [] formatNodes := by
  unfold doOneSpec
  split
  · next fs _ =>
      apply (formatNode_keeps fs override).bind
      intro node _
      exact Ledger.Keeps.pure rfl
  · split
    · next head _ => exact macroNodes_keeps override (macroSpecs head) []
    · exact Ledger.Keeps.pure rfl

theorem literalNode_keeps (text : Text) : lists.Keeps (literalNode text) []
    (fun node => [node.node]) := by
  unfold literalNode
  apply newNode_keeps.bind
  intro node _
  exact Ledger.Keeps.pure rfl

end Allocation

/-!
# Formats
-/

section Formats

variable {ctx : Context}

theorem formatNodes_append (list list' : List FormatNode) :
    formatNodes (list ++ list') = formatNodes list ++ formatNodes list' :=
  List.map_append

theorem oWrap_keeps (trailer : String) (fCooked : List FormatNode) :
    lists.Keeps (oWrap ctx trailer fCooked) (formatNodes fCooked) formatNodes := by
  unfold oWrap
  apply ((doOneSpec_keeps (bytes "pid") none).hold (formatNodes fCooked)).bind
  intro pid _
  apply unless_keeps
  intro _
  apply unless_keeps
  intro _
  apply ((doOneSpec_keeps (bytes trailer) none).hold
    (formatNodes pid ++ formatNodes fCooked)).bind
  intro default _
  apply unless_keeps
  intro _
  have hpure : lists.Keeps (pure (default ++ (fCooked ++ pid)) :
    Run (List FormatNode))
      (formatNodes default ++ (formatNodes fCooked ++ formatNodes pid))
        formatNodes := by
    apply Ledger.Keeps.pure
    rw [formatNodes_append, formatNodes_append]
  exact hpure.perm (List.Perm.append_left _ List.perm_append_comm)
    (fun _ => List.Perm.refl _)

theorem aixNodes_keeps (items : List AixItem) : forall fCooked : List FormatNode,
    lists.Keeps (aixNodes ctx items fCooked) (formatNodes fCooked)
      (fun found => formatNodes found.2) := by
  induction items with
  | nil =>
      intro fCooked
      exact Ledger.Keeps.pure rfl
  | cons item items ih =>
      intro fCooked
      have hliteral : forall text, lists.Keeps (do
          let node <- literalNode text
          aixNodes ctx items (node :: fCooked)) (formatNodes fCooked)
            (fun found => formatNodes found.2) := by
        intro text
        apply ((literalNode_keeps text).hold (formatNodes fCooked)).bind
        intro node _
        exact ih (node :: fCooked)
      cases item with
      | text t =>
          exact hliteral t
      | desc c =>
          unfold aixNodes
          split
          · exact hliteral [c]
          · split
            · exact Ledger.Keeps.pure rfl
            · next spec head _ =>
                apply ((doOneSpec_keeps spec (some head)).hold
                  (formatNodes fCooked)).bind
                intro nodes _
                split
                · next hnone =>
                    subst hnone
                    exact Ledger.Keeps.pure rfl
                · rw [← formatNodes_append]
                  exact ih (nodes ++ fCooked)

theorem aixFormatParse_keeps (sf : Text) (fCooked : List FormatNode) :
    lists.Keeps (aixFormatParse ctx sf fCooked) (formatNodes fCooked)
      (fun found => formatNodes found.2) := by
  unfold aixFormatParse
  split
  · exact Ledger.Keeps.pure rfl
  · next items _ =>
      apply (aixNodes_keeps items fCooked).bind
      intro found _
      dsimp only
      split
      · exact parsedFormat_keeps.bind (fun _ _ => Ledger.Keeps.pure rfl)
      · exact Ledger.Keeps.pure rfl

theorem retryAix_keeps (sf : Text) (err : Err) (fCooked : List FormatNode) :
    lists.Keeps (retryAix ctx sf err fCooked) (formatNodes fCooked)
      (fun found => formatNodes found.2) := by
  unfold retryAix
  split
  · exact aixFormatParse_keeps sf fCooked
  · exact Ledger.Keeps.pure rfl

/-!
# Items with a width

A width for a specifier of several columns is refused when its nodes are there
already.
-/

def specOf (item : Text) : Text :=
  (cutAt (byte ':') (cutAt (byte '=') item).1).1

def widthOf (item : Text) : Option Text :=
  (cutAt (byte ':') (cutAt (byte '=') item).1).2

def columns (tables : Tables) (spec : Text) : Nat :=
  match tables.searchFormatArray spec, tables.searchMacroArray spec with
  | some _, _ => 1
  | none, some head => (macroSpecs head).length
  | none, none => 0

def Widened (tables : Tables) (item : Text) : Prop :=
  (widthOf item).any (fun width => !badWidth width) = true ∧
    1 < columns tables (specOf item)

/-- An item is in error. -/
def Refused (tables : Tables) (item : Text) : Prop :=
  (widthOf item).any badWidth = true ∨ columns tables (specOf item) = 0 ∨
    Widened tables item

def ItemsKept (tables : Tables) : List Text -> Prop
  | [] => True
  | item :: items =>
      ¬ Widened tables item ∧ (¬ Refused tables item -> ItemsKept tables items)

/-- No nodes are lost when a text is read as a list of specifiers. -/
def TextKept (tables : Tables) (sf : Text) : Prop :=
  forall items, listItems sf "improper format list" "empty format list" =
    .ok items -> ItemsKept tables items

theorem macroNodes_length {override : Option Text} {specs : List Text} :
    forall {list nodes : List FormatNode},
      Returns (macroNodes ctx override specs list) nodes ->
      nodes.length = specs.length + list.length := by
  induction specs with
  | nil =>
      intro list nodes h
      rcases h with ⟨b, b', h⟩
      cases h
      exact (Nat.zero_add _).symm
  | cons spec specs ih =>
      intro list nodes h
      rcases h with ⟨b, b', h⟩
      cases hfound : ctx.tables.searchFormatArray spec with
      | none =>
          simp only [macroNodes, hfound] at h
          cases h
      | some fs =>
          simp only [macroNodes, hfound] at h
          rcases Ledger.bind_returns h with ⟨node, c, _, hrest⟩
          have hlength := ih ⟨c, b', hrest⟩
          rw [List.length_cons] at hlength ⊢
          omega

theorem doOneSpec_length {spec : Text} {override : Option Text}
    {nodes : List FormatNode}
    (h : Returns (doOneSpec ctx spec override) nodes) :
    nodes.length = columns ctx.tables spec := by
  rcases h with ⟨b, b', h⟩
  unfold columns
  cases hfound : ctx.tables.searchFormatArray spec with
  | some fs =>
      simp only [doOneSpec, hfound] at h
      rcases Ledger.bind_returns h with ⟨node, c, _, hreturn⟩
      cases hreturn
      rfl
  | none =>
      cases hmacro : ctx.tables.searchMacroArray spec with
      | none =>
          simp only [doOneSpec, hfound, hmacro] at h
          cases h
          rfl
      | some head =>
          simp only [doOneSpec, hfound, hmacro] at h
          exact macroNodes_length ⟨b, b', h⟩

def itemNodes : Except Err (List FormatNode) -> List Nat
  | .ok nodes => formatNodes nodes
  | .error _ => []

theorem overrideWidth_some {width : Option Text} {nodes nodes' : List FormatNode}
    (h : overrideWidth width nodes = some nodes') :
    formatNodes nodes' = formatNodes nodes ∧
      (width.isSome = true -> nodes.length = 1) := by
  unfold overrideWidth at h
  split at h
  · cases h
    exact ⟨rfl, fun hsome => (nomatch hsome)⟩
  · cases h
    exact ⟨by simp only [formatNodes, List.map_cons, List.map_nil], fun _ => rfl⟩
  · cases h

theorem overrideWidth_none {width : Option Text} {nodes : List FormatNode}
    (h : overrideWidth width nodes = none) :
    width.isSome = true ∧ nodes.length ≠ 1 := by
  unfold overrideWidth at h
  split at h
  · cases h
  · cases h
  · next w hother =>
      refine ⟨rfl, fun hlength => ?_⟩
      rcases List.length_eq_one_iff.mp hlength with ⟨node, hnode⟩
      exact hother node hnode

theorem formatItem_eq (item : Text) : formatItem ctx item =
    if ((widthOf item).map badWidth).getD false then
      return .error (.text "column widths must be unsigned decimal numbers")
    else do
      let nodes <- doOneSpec ctx (specOf item) (cutAt (byte '=') item).2
      if nodes = [] then return .error .errbuf
      else
        match overrideWidth (widthOf item) nodes with
        | none =>
            return .error (.text
              "can not set width for a macro (multi-column) format specifier")
        | some nodes => return .ok nodes :=
  rfl

/-- What an item comes to: its width is none, its specifier has no columns, or
they can take the width or not. -/
theorem formatItem_cases {item : Text} {r : Except Err (List FormatNode)}
    {b b' : State}
    (h : formatItem ctx item b = .ok (r, b')) :
    ((widthOf item).any badWidth = true ∧ b' = b ∧ exists err, r = .error err) ∨
      (widthOf item).any badWidth = false ∧
        exists nodes, doOneSpec ctx (specOf item) (cutAt (byte '=') item).2 b =
          .ok (nodes, b') ∧
          (nodes = [] ∧ (exists err, r = .error err) ∨
            nodes ≠ [] ∧ overrideWidth (widthOf item) nodes = none ∧
              (exists err, r = .error err) ∨
            nodes ≠ [] ∧ exists nodes', overrideWidth (widthOf item) nodes =
              some nodes' ∧ r = .ok nodes') := by
  rw [formatItem_eq] at h
  have hany : (widthOf item).any badWidth =
      ((widthOf item).map badWidth).getD false := by
    cases widthOf item with
    | none => rfl
    | some width => rfl
  rw [hany]
  split at h
  · next hbad =>
      cases h
      exact Or.inl ⟨hbad, rfl, _, rfl⟩
  · next hgood =>
      rcases Ledger.bind_returns h with ⟨nodes, c, hnodes, h⟩
      refine Or.inr ⟨by simpa using hgood, nodes, ?_⟩
      split at h
      · next hnone =>
          cases h
          exact ⟨hnodes, Or.inl ⟨hnone, _, rfl⟩⟩
      · next hsome =>
          cases hwidth : overrideWidth (widthOf item) nodes with
          | none =>
              simp only [hwidth] at h
              cases h
              exact ⟨hnodes, Or.inr (Or.inl ⟨hsome, rfl, _, rfl⟩)⟩
          | some nodes' =>
              simp only [hwidth] at h
              cases h
              exact ⟨hnodes, Or.inr (Or.inr ⟨hsome, nodes', rfl, rfl⟩)⟩

theorem good_width_iff {width : Option Text} (h : width.any badWidth = false) :
    width.any (fun width => !badWidth width) = true <-> width.isSome = true := by
  cases width with
  | none =>
      exact Iff.rfl
  | some width =>
      rw [Option.any_some] at h ⊢
      rw [h]
      exact Iff.rfl

theorem widened_of_bad {item : Text} (h : (widthOf item).any badWidth = true)
    (tables : Tables) :
    ¬ Widened tables item := by
  intro hwidened
  have hgood := hwidened.left
  cases hwidth : widthOf item with
  | none =>
      rw [hwidth] at hgood
      cases hgood
  | some width =>
      rw [hwidth, Option.any_some] at h hgood
      rw [h] at hgood
      cases hgood

/-- A width is asked for that cannot be set if and only if there are several
nodes for it. -/
theorem widened_iff {item : Text} {override : Option Text} {nodes : List FormatNode}
    (hgood : (widthOf item).any badWidth = false)
    (hnodes : Returns (doOneSpec ctx (specOf item) override) nodes) :
    Widened ctx.tables item <-> (widthOf item).isSome = true ∧
      1 < nodes.length := by
  rw [Widened, good_width_iff hgood, doOneSpec_length hnodes]

/-- An item is turned into its nodes unless it is in error, and loses some if it
is so for its width. -/
theorem formatItem_accounts (item : Text) :
    lists.Accounts (formatItem ctx item) [] itemNodes (fun _ =>
      ¬ Widened ctx.tables item) := by
  intro b r b' h
  rcases formatItem_cases h with ⟨hbad, rfl, err, rfl⟩ | ⟨hgood, nodes, hnodes,
    hrest⟩
  · exact ⟨[], Ledger.Moved.refl b' [], fun _ => widened_of_bad hbad ctx.tables,
      fun _ => rfl⟩
  · have hmoved := doOneSpec_keeps (specOf item) _ b nodes b' hnodes
    rw [widened_iff hgood ⟨b, b', hnodes⟩]
    rcases hrest with ⟨rfl, err, rfl⟩ | ⟨hsome, hnone, err, rfl⟩ | ⟨hsome,
      nodes', hnodes', rfl⟩
    · exact ⟨[], hmoved, fun _ h => (nomatch h.right), fun _ => rfl⟩
    · rcases overrideWidth_none hnone with ⟨hwidth, hlength⟩
      have hpos := List.length_pos_iff.mpr hsome
      refine ⟨formatNodes nodes, hmoved.lose, fun h => ?_, fun h => ?_⟩
      · exact absurd (List.map_eq_nil_iff.mp h) hsome
      · exact absurd ⟨hwidth, by omega⟩ h
    · rcases overrideWidth_some hnodes' with ⟨hsame, hone⟩
      refine ⟨[], ?_, fun _ h => ?_, fun _ => rfl⟩
      · rw [itemNodes, hsame]
        exact hmoved
      · have hlength := hone h.left
        omega

theorem formatItem_refused {item : Text} {r : Except Err (List FormatNode)}
    (h : Returns (formatItem ctx item) r) :
    Refused ctx.tables item <-> exists err, r = .error err := by
  rcases h with ⟨b, b', h⟩
  unfold Refused
  rcases formatItem_cases h with ⟨hbad, _, herr⟩ | ⟨hgood, nodes, hnodes, hrest⟩
  · exact ⟨fun _ => herr, fun _ => Or.inl hbad⟩
  · rw [widened_iff hgood ⟨b, b', hnodes⟩, ← doOneSpec_length ⟨b, b', hnodes⟩,
      hgood]
    rcases hrest with ⟨hnone, herr⟩ | ⟨hsome, hnone, herr⟩ | ⟨hsome, nodes',
      hnodes', rfl⟩
    · exact ⟨fun _ => herr, fun _ =>
        Or.inr (Or.inl (List.length_eq_zero_iff.mpr hnone))⟩
    · rcases overrideWidth_none hnone with ⟨hwidth, hlength⟩
      have hpos := List.length_pos_iff.mpr hsome
      exact ⟨fun _ => herr, fun _ => Or.inr (Or.inr ⟨hwidth, by omega⟩)⟩
    · have hpos := List.length_pos_iff.mpr hsome
      constructor
      · intro hrefused
        rcases hrefused with hfalse | hzero | ⟨hwidth, hseveral⟩
        · cases hfalse
        · omega
        · have hone := (overrideWidth_some hnodes').right hwidth
          omega
      · intro herr
        rcases herr with ⟨err, herr⟩
        cases herr

theorem formatItem_ne_nil {item : Text} {nodes : List FormatNode}
    (h : Returns (formatItem ctx item) (.ok nodes)) :
    nodes ≠ [] := by
  rcases h with ⟨b, b', h⟩
  rcases formatItem_cases h with ⟨_, _, _, herr⟩ | ⟨_, found, _, hrest⟩
  · cases herr
  · rcases hrest with ⟨_, _, herr⟩ | ⟨_, _, _, herr⟩ | ⟨hsome, nodes', hnodes', hok⟩
    · cases herr
    · cases herr
    · cases hok
      intro hnone
      have hsame := (overrideWidth_some hnodes').left
      rw [hnone] at hsame
      exact hsome (List.map_eq_nil_iff.mp hsame.symm)

theorem formatItems_rest {items : List Text} (fCooked : List FormatNode)
    (hitems : forall fCooked : List FormatNode,
    lists.Accounts (formatItems ctx items fCooked) (formatNodes fCooked)
      (fun found => formatNodes found.2) (fun _ => ItemsKept ctx.tables items))
    (r : Except Err (List FormatNode)) :
    lists.Accounts (match r with
        | .error err => return (some err, fCooked)
        | .ok nodes =>
            formatItems ctx items (nodes ++ fCooked) :
            Run (Option Err × List FormatNode))
      (itemNodes r ++ formatNodes fCooked) (fun found => formatNodes found.2)
      (fun _ => forall nodes, r = .ok nodes -> ItemsKept ctx.tables items) := by
  cases r with
  | error err =>
      exact Ledger.Keeps.accounts (Ledger.Keeps.pure rfl)
        (fun _ _ _ _ _ h => (nomatch h))
  | ok nodes =>
      have hnext := hitems (nodes ++ fCooked)
      rw [formatNodes_append] at hnext
      exact hnext.congr (fun _ _ _ _ => ⟨fun h _ _ => h, fun h => h nodes rfl⟩)

theorem formatItems_accounts (items : List Text) : forall fCooked : List FormatNode,
    lists.Accounts (formatItems ctx items fCooked) (formatNodes fCooked)
      (fun found => formatNodes found.2)
      (fun _ => ItemsKept ctx.tables items) := by
  induction items with
  | nil =>
      intro fCooked
      exact Ledger.Keeps.accounts (Ledger.Keeps.pure rfl) (fun _ _ _ _ => trivial)
  | cons item items ih =>
      intro fCooked
      unfold formatItems
      apply (((formatItem_accounts item).hold (formatNodes fCooked)).bind
        (fun r _ => formatItems_rest fCooked ih r)).congr
      intro b found b' hrun
      rcases Ledger.bind_returns hrun with ⟨r, c, hr, _⟩
      have hrefused := formatItem_refused ⟨b, c, hr⟩
      rw [ItemsKept, and_congr_right_iff]
      intro _
      cases r with
      | error err =>
          constructor
          · intro _ hnot
            exact absurd (hrefused.mpr ⟨err, rfl⟩) hnot
          · intro _ r' c' hr' nodes hnodes
            cases hr.symm.trans hr'
            cases hnodes
      | ok nodes =>
          constructor
          · intro h _
            exact h _ c hr nodes rfl
          · intro h r' c' hr' nodes' _
            apply h
            intro hbad
            rcases hrefused.mp hbad with ⟨err, herr⟩
            cases herr

/-- The items of a text have all been read, or it is tried in the other way. -/
theorem formatParse_rest (sf : Text) (found : Option Err × List FormatNode) :
    lists.Keeps (match found.1 with
        | some err => retryAix ctx sf err found.2
        | none => do
            modify (fun s => { s with alreadyParsedFormat := true })
            return (none, found.2) : Run (Option Err × List FormatNode))
      (formatNodes found.2) (fun found => formatNodes found.2) := by
  rcases found with ⟨err, fCooked⟩
  cases err with
  | some err => exact retryAix_keeps sf err fCooked
  | none => exact parsedFormat_keeps.bind (fun _ _ => Ledger.Keeps.pure rfl)

theorem formatParse_accounts (sf : Text) (fCooked : List FormatNode) :
    lists.Accounts (formatParse ctx sf fCooked) (formatNodes fCooked)
      (fun found => formatNodes found.2)
      (fun _ => TextKept ctx.tables sf) := by
  unfold formatParse TextKept
  cases hitems : listItems sf "improper format list" "empty format list" with
  | error err =>
      exact (retryAix_keeps sf err fCooked).accounts
        (fun _ _ _ _ _ h => (nomatch h))
  | ok items =>
      dsimp only
      apply ((formatItems_accounts items fCooked).bind_keeps (fun found _ =>
        formatParse_rest sf found)).congr
      intro _ _ _ _
      constructor
      · intro h items' heq
        cases heq
        exact h
      · intro h
        exact h items rfl

end Formats

/-!
# Sorting
-/

section Sorting

variable {ctx : Context}

def sortNode : Option SortNode -> List Nat
  | some node => [node.node]
  | none => []

theorem doOneSortSpec_keeps (spec : Text) : lists.Keeps (doOneSortSpec ctx spec)
    [] sortNode := by
  unfold doOneSortSpec
  dsimp only
  split
  · exact Ledger.Keeps.pure rfl
  · exact newNode_keeps.bind (fun _ _ => Ledger.Keeps.pure rfl)

theorem sortItems_keeps (items : List Text) : forall sCooked : List SortNode,
    lists.Keeps (sortItems ctx items sCooked) (sortNodes sCooked)
      (fun found => sortNodes found.2) := by
  induction items with
  | nil =>
      intro sCooked
      exact Ledger.Keeps.pure rfl
  | cons item items ih =>
      intro sCooked
      unfold sortItems
      apply ((doOneSortSpec_keeps item).hold (sortNodes sCooked)).bind
      intro node _
      cases node with
      | none => exact Ledger.Keeps.pure rfl
      | some node => exact ih (node :: sCooked)

theorem longSortParse_keeps (sf : Text) (sCooked : List SortNode) :
    lists.Keeps (longSortParse ctx sf sCooked) (sortNodes sCooked)
      (fun found => sortNodes found.2) := by
  unfold longSortParse
  split
  · exact Ledger.Keeps.pure rfl
  · next items _ =>
      apply (sortItems_keeps items sCooked).bind
      intro found _
      dsimp only
      split
      · exact parsedSort_keeps.bind (fun _ _ => Ledger.Keeps.pure rfl)
      · exact Ledger.Keeps.pure rfl

theorem shortSortParse_keeps (text : Text) :
    forall (direction : Bool) (sCooked : List SortNode),
    lists.Keeps (shortSortParse ctx direction text sCooked)
      (sortNodes sCooked) sortNodes := by
  induction text with
  | nil =>
      intro direction sCooked
      exact Ledger.Keeps.pure rfl
  | cons c text ih =>
      intro direction sCooked
      unfold shortSortParse
      split
      · exact ih false sCooked
      · split
        · exact ih true sCooked
        · split
          · exact Ledger.Keeps.pure rfl
          · next spec _ =>
              apply ((doOneSortSpec_keeps spec).hold (sortNodes sCooked)).bind
              intro node _
              cases node with
              | none => exact Ledger.Keeps.pure rfl
              | some node =>
                  exact ih false ({ node with reverse := direction } :: sCooked)

end Sorting

/-!
# The deferred options
-/

section Deferred

variable {ctx : Context}

def NoSort (b : State) (sf : Text) : Prop :=
  b.haveGnuSort = true ∨ b.alreadyParsedSort = true ∨
    verifyShortSort (b.globals.forestType != 0) sf ≠ none

/-- No nodes are lost when an option is turned into nodes. -/
def NodeKept (tables : Tables) (sfn : SfNode) (b : State) : Prop :=
  match sfn.sfCode with
  | .bsdo => TextKept tables sfn.sf
  | .gnuFormat => TextKept tables sfn.sf
  | .sysvo => TextKept tables sfn.sf
  | .sysvO => b.alreadyParsedFormat = false -> TextKept tables sfn.sf
  | .bsdO =>
      NoSort b sfn.sf -> b.alreadyParsedFormat = false -> TextKept tables sfn.sf
  | .gnuSort => True
  | .bsdm => True

/-- No nodes are lost when the options are turned into nodes, the last one of
the list first. -/
def DeferredKept (ctx : Context) : List SfNode -> State -> Prop
  | [], _ => True
  | sfn :: next, b =>
      DeferredKept ctx next b ∧
        after (parseOOption ctx next) (fun found c => found.1 = none ->
          NodeKept ctx.tables sfn c) b

theorem wrap_keeps (sfn : SfNode) (trailer : String) (fCooked : List FormatNode) :
    lists.Keeps (do
        modify (fun s => { s with alreadyParsedFormat := true })
        let fCooked <- oWrap ctx trailer fCooked
        return (none, { sfn with fCooked := fCooked }) : Run (Option Err × SfNode))
      (formatNodes fCooked ++ sortNodes sfn.sCooked)
        (fun found => found.2.nodes) := by
  apply parsedFormat_keeps.bind
  intro _ _
  apply ((oWrap_keeps trailer fCooked).hold (sortNodes sfn.sCooked)).bind
  intro fCooked _
  exact Ledger.Keeps.pure rfl

theorem parseSysvO_accounts (sfn : SfNode) :
    lists.Accounts (parseSysvO ctx sfn) sfn.nodes (fun found => found.2.nodes)
      (fun b => b.alreadyParsedFormat = false -> TextKept ctx.tables sfn.sf) := by
  unfold parseSysvO
  apply get_accounts (fun s _ => s.alreadyParsedFormat = false ->
    TextKept ctx.tables sfn.sf)
  intro s
  split
  · next hparsed =>
      refine Ledger.Keeps.accounts (Ledger.Keeps.pure rfl) (fun _ _ _ _ h => ?_)
      rw [hparsed] at h
      cases h
  · next hparsed =>
      have hfirst : s.alreadyParsedFormat = false := by simpa using hparsed
      refine (((formatParse_accounts sfn.sf sfn.fCooked).hold
        (sortNodes sfn.sCooked)).bind_keeps ?_).congr
        (fun _ _ _ _ => ⟨fun h _ => h, fun h => h hfirst⟩)
      intro found _
      rcases found with ⟨err, fCooked⟩
      cases err with
      | some err => exact Ledger.Keeps.pure rfl
      | none => exact wrap_keeps sfn "END_SYS5" fCooked

theorem parseBSDOFormat_accounts (err : Err) (sfn : SfNode) :
    lists.Accounts (parseBSDOFormat ctx err sfn) sfn.nodes
      (fun found => found.2.nodes)
      (fun b => b.alreadyParsedFormat = false -> TextKept ctx.tables sfn.sf) := by
  unfold parseBSDOFormat
  apply get_accounts (fun s _ => s.alreadyParsedFormat = false ->
    TextKept ctx.tables sfn.sf)
  intro s
  split
  · next hparsed =>
      refine Ledger.Keeps.accounts (Ledger.Keeps.pure rfl) (fun _ _ _ _ h => ?_)
      rw [hparsed] at h
      cases h
  · next hparsed =>
      have hfirst : s.alreadyParsedFormat = false := by simpa using hparsed
      refine (((formatParse_accounts sfn.sf sfn.fCooked).hold
        (sortNodes sfn.sCooked)).bind_keeps ?_).congr
        (fun _ _ _ _ => ⟨fun h _ => h, fun h => h hfirst⟩)
      intro found _
      rcases found with ⟨formatErr, fCooked⟩
      cases formatErr with
      | some _ => exact Ledger.Keeps.pure rfl
      | none => exact wrap_keeps sfn "END_BSD" fCooked

theorem noSort_iff (b : State) (sf : Text) : NoSort b sf <->
    (if b.haveGnuSort || b.alreadyParsedSort then
    some (Err.text "multiple sort options")
      else verifyShortSort (b.globals.forestType != 0) sf) ≠ none := by
  unfold NoSort
  cases b.haveGnuSort with
  | true => exact ⟨fun _ h => (nomatch h), fun _ => Or.inl rfl⟩
  | false =>
      cases b.alreadyParsedSort with
      | true => exact ⟨fun _ h => (nomatch h), fun _ => Or.inr (Or.inl rfl)⟩
      | false =>
          exact ⟨fun h => (h.resolve_left Bool.false_ne_true).resolve_left
          Bool.false_ne_true,
          fun h => Or.inr (Or.inr h)⟩

theorem parseBSDO_accounts (sfn : SfNode) :
    lists.Accounts (parseBSDO ctx sfn) sfn.nodes (fun found => found.2.nodes)
      (fun b => NoSort b sfn.sf -> b.alreadyParsedFormat = false ->
        TextKept ctx.tables sfn.sf) := by
  unfold parseBSDO
  apply get_accounts (fun s b => NoSort s sfn.sf -> b.alreadyParsedFormat =
    false -> TextKept ctx.tables sfn.sf)
  intro s
  rw [noSort_iff]
  dsimp only
  generalize (if (s.haveGnuSort || s.alreadyParsedSort) = true then
    some (Err.text "multiple sort options")
    else verifyShortSort (s.globals.forestType != 0) sfn.sf) = err
  cases err with
  | some err =>
      apply (parseBSDOFormat_accounts err sfn).congr
      intro _ _ _ _
      exact ⟨fun h _ => h, fun h => h (fun heq => (nomatch heq))⟩
  | none =>
      refine Ledger.Keeps.accounts ?_ (fun _ _ _ _ h => absurd rfl h)
      have hsort : lists.Keeps (shortSortParse ctx false sfn.sf sfn.sCooked)
          (formatNodes sfn.fCooked ++ sortNodes sfn.sCooked)
          (fun sCooked => formatNodes sfn.fCooked ++ sortNodes sCooked) :=
        ((shortSortParse_keeps sfn.sf false sfn.sCooked).hold
          (formatNodes sfn.fCooked)).perm
          List.perm_append_comm (fun _ => List.perm_append_comm)
      apply hsort.bind
      intro sCooked _
      exact parsedSort_keeps.bind (fun _ _ => Ledger.Keeps.pure rfl)

theorem parseSort_keeps (sfn : SfNode) :
    lists.Keeps (parseSort ctx sfn) sfn.nodes (fun found => found.2.nodes) := by
  have hsort : lists.Keeps (longSortParse ctx sfn.sf sfn.sCooked)
      (formatNodes sfn.fCooked ++ sortNodes sfn.sCooked)
      (fun found => formatNodes sfn.fCooked ++ sortNodes found.2) :=
    ((longSortParse_keeps sfn.sf sfn.sCooked).hold (formatNodes sfn.fCooked)).perm
      List.perm_append_comm (fun _ => List.perm_append_comm)
  unfold parseSort
  apply get_keeps.bind
  intro s _
  split
  · exact Ledger.Keeps.pure rfl
  · apply hsort.bind
    intro found _
    exact parsedSort_keeps.bind (fun _ _ => Ledger.Keeps.pure rfl)

theorem parseFormat_accounts (sfn : SfNode) :
    lists.Accounts (do
        let (err, fCooked) <- formatParse ctx sfn.sf sfn.fCooked
        if err.isNone then modify (fun s => { s with alreadyParsedFormat := true })
        return (err, { sfn with fCooked := fCooked }) : Run (Option Err × SfNode))
      sfn.nodes (fun found => found.2.nodes) (fun _ =>
        TextKept ctx.tables sfn.sf) := by
  apply ((formatParse_accounts sfn.sf sfn.fCooked).hold
    (sortNodes sfn.sCooked)).bind_keeps
  intro found _
  dsimp only
  split
  · exact parsedFormat_keeps.bind (fun _ _ => Ledger.Keeps.pure rfl)
  · exact Ledger.Keeps.pure rfl

theorem parseSfNode_accounts (sfn : SfNode) :
    lists.Accounts (parseSfNode ctx sfn) sfn.nodes (fun found => found.2.nodes)
      (NodeKept ctx.tables sfn) := by
  rcases sfn with ⟨fCooked, sCooked, sf, code⟩
  cases code with
  | sysvO => exact parseSysvO_accounts _
  | sysvo => exact parseFormat_accounts _
  | bsdO => exact parseBSDO_accounts _
  | bsdo => exact parseFormat_accounts _
  | bsdm => exact (parseSort_keeps _).accounts (fun _ _ _ _ => trivial)
  | gnuSort => exact (parseSort_keeps _).accounts (fun _ _ _ _ => trivial)
  | gnuFormat => exact parseFormat_accounts _

theorem parseOOption_rest (sfn : SfNode) (found : Option Err × List SfNode) :
    lists.Accounts (if found.1.isSome then return (found.1, sfn :: found.2)
        else do
          let parsed <- parseSfNode ctx sfn
          return (parsed.1, parsed.2 :: found.2) : Run (Option Err × List SfNode))
      (found.2.flatMap SfNode.nodes ++ sfn.nodes) (fun found =>
        found.2.flatMap SfNode.nodes)
      (fun b => found.1 = none -> NodeKept ctx.tables sfn b) := by
  rcases found with ⟨err, next⟩
  have hpure : forall (err : Option Err) (sfn : SfNode),
      lists.Keeps (pure (err, sfn :: next) : Run (Option Err × List SfNode))
        (next.flatMap SfNode.nodes ++ sfn.nodes)
        (fun found => found.2.flatMap SfNode.nodes) := by
    intro err sfn
    have hcons : lists.Keeps (pure (err, sfn :: next) :
      Run (Option Err × List SfNode))
        (sfn.nodes ++ next.flatMap SfNode.nodes) (fun found =>
          found.2.flatMap SfNode.nodes) := Ledger.Keeps.pure rfl
    exact hcons.perm List.perm_append_comm (fun _ => List.Perm.refl _)
  cases err with
  | some err =>
      exact (hpure (some err) sfn).accounts (fun _ _ _ _ h => (nomatch h))
  | none =>
      have hnode : lists.Accounts (parseSfNode ctx sfn)
          (next.flatMap SfNode.nodes ++ sfn.nodes)
          (fun parsed => next.flatMap SfNode.nodes ++ parsed.2.nodes)
            (NodeKept ctx.tables sfn) :=
        ((parseSfNode_accounts sfn).hold (next.flatMap SfNode.nodes)).perm
          List.perm_append_comm
          (fun _ => List.perm_append_comm)
      exact (hnode.bind_keeps (fun parsed _ => hpure parsed.1 parsed.2)).congr
        (fun _ _ _ _ => ⟨fun h _ => h, fun h => h rfl⟩)

theorem parseOOption_accounts (list : List SfNode) :
    lists.Accounts (parseOOption ctx list) (list.flatMap SfNode.nodes)
      (fun found => found.2.flatMap SfNode.nodes)
      (DeferredKept ctx list) := by
  induction list with
  | nil =>
      exact Ledger.Keeps.accounts (Ledger.Keeps.pure rfl) (fun _ _ _ _ => trivial)
  | cons sfn next ih =>
      unfold parseOOption
      exact ((ih.hold sfn.nodes).bind (fun found _ =>
        parseOOption_rest sfn found)).perm
        (by rw [List.flatMap_cons]; exact List.perm_append_comm)
          (fun _ => List.Perm.refl _)

end Deferred

end Ps
end Lepd
