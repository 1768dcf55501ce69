import Lepd.Ps.Nodes

/-!
# The nodes of ps while the arguments are read

All nodes of a call: those on the two lists, those of the deferred options and
those given back. Reading the arguments moves none of them.
-/

namespace Lepd
namespace Ps

open Foundation
open Foundation.Ledger (Returns)

def sfNodes (b : State) : List Nat :=
  b.sfList.flatMap SfNode.nodes

/-- How often a node has been given back or is on one of the lists. -/
def places (b : State) (n : Nat) : Nat :=
  listed b n + (sfNodes b).count n

def whole : Ledger State where
  nodes := State.nodes
  count := places
  frame _ _ := True
  refl _ := trivial
  trans _ _ := trivial

/-- A routine that holds no nodes of its own moves them from list to list. -/
abbrev Whole {value : Type} (x : Run value) (kept : State -> Prop) : Prop :=
  whole.Accounts x [] (fun _ => []) kept

abbrev Still {value : Type} (x : Run value) : Prop :=
  whole.Keeps x [] (fun _ => [])

variable {ctx : Context} {value result : Type}

/-!
# Routines
-/

theorem whole_of_lists {x : Run value} {kept : State -> Prop}
    (h : lists.Accounts x [] (fun _ => []) kept) :
    Whole x kept := by
  intro b a b' hrun
  rcases h b a b' hrun with ⟨lost, ⟨hframe, hnodes, hcount⟩, hlost⟩
  refine ⟨lost, ⟨trivial, hnodes, fun n => ?_⟩, hlost⟩
  have hsame : sfNodes b' = sfNodes b := congrArg (List.flatMap SfNode.nodes) hframe
  have hcountn := hcount n
  show listed b' n + (sfNodes b').count n + _ + _ = listed b n +
    (sfNodes b).count n + _ + whole.allocated b b' n
  rw [hsame]
  change listed b' n + _ + _ = listed b n + _ + whole.allocated b b' n at hcountn
  omega

theorem pure_still {a : value} : Still (pure a : Run value) :=
  Ledger.Keeps.pure rfl

theorem modifyGlobals_still {change : Globals -> Globals}
    (hformat : forall g, (change g).formatList = g.formatList)
    (hsort : forall g, (change g).sortList = g.sortList) :
    Still (modifyGlobals change) := by
  apply Ledger.Keeps.modify
  intro b
  refine Ledger.Moved.of_count trivial rfl (fun n => ?_)
  show b.freed.count n + (formatNodes (change b.globals).formatList).count n +
      (sortNodes (change b.globals).sortList).count n + (sfNodes b).count n +
        0 = places b n + 0
  rw [hformat, hsort]
  rfl

theorem deferSfOption_still (arg : Text) (source : SfCode) :
    Still (deferSfOption arg source) := by
  apply Ledger.Keeps.modify
  intro b
  exact Ledger.Moved.of_count trivial rfl (fun _ => rfl)

/-!
# Options
-/

theorem defer_still (source : SfCode) (arg : Text) : Still (defer source arg) :=
  (deferSfOption_still arg source).bind (fun _ _ => pure_still)

theorem parseList_still (parseFn : ParseFn) (typecode : Sel) (arg : Text) :
    Still (parseList ctx parseFn typecode arg) := by
  unfold parseList
  apply globals_keeps.bind
  intro g _
  cases listValues (parseFn ctx.sys g.negateSelection) arg with
  | error err => exact pure_still
  | ok u =>
      have hpush :
          Still (modifyGlobals (pushSelection { typecode := typecode, u := u })) :=
        modifyGlobals_still (fun _ => rfl) (fun _ => rfl)
      exact hpush.bind (fun _ _ => pure_still)

theorem parseSessionOrGroup_still (arg : Text) :
    Still (parseSessionOrGroup ctx arg) := by
  unfold parseSessionOrGroup
  apply (parseList_still parsePid .sess arg).bind
  intro err _
  split
  · exact pure_still
  · apply (parseList_still parseGid .egid arg).bind
    intro err _
    split
    · exact pure_still
    · exact pure_still

theorem withArgument_still (found : Option (Text × Nat)) (missing : String)
    {action : Text -> Run (Option Err)}
    (h : forall arg, Still (action arg)) :
    Still (withArgument found missing action) := by
  cases found with
  | none => exact pure_still
  | some entry => exact (h entry.1).bind (fun _ _ => pure_still)

theorem exclusive_still (x : String) : Still (exclusive ctx x) := by
  unfold exclusive
  split
  · exact stop_keeps
  · exact pure_still

def LetterStill : Letter -> Prop
  | .more _ action => Still action
  | .last action => Still action

theorem set_still {change : Globals -> Globals}
    (hformat : forall g, (change g).formatList = g.formatList)
    (hsort : forall g, (change g).sortList = g.sortList) :
    LetterStill (set change) :=
  modifyGlobals_still hformat hsort

theorem reject_still (message : String) : LetterStill (reject message) :=
  pure_still

theorem letterStill_takes {found : Option (Text × Nat)} {missing : String}
    {action : Text -> Run (Option Err)}
    (h : forall arg, Still (action arg)) :
    LetterStill (.last (withArgument found missing action)) :=
  withArgument_still found missing h

theorem letterStill_ite {condition : Prop} [Decidable condition]
    {letter letter' : Letter} (h : LetterStill letter)
    (h' : LetterStill letter') :
    LetterStill (if condition then letter else letter') := by
  split
  · exact h
  · exact h'

theorem bsdTty_still (rest : Text) (next : List Text) :
    Still (bsdTty ctx rest next) := by
  unfold bsdTty
  split
  · have htty : Still (modifyGlobals selectOwnTty) :=
      modifyGlobals_still (fun _ => rfl) (fun _ => rfl)
    exact htty.bind (fun _ _ => pure_still)
  · next arg used _ =>
      exact (parseList_still parseTty .tty arg).bind (fun _ _ => pure_still)

theorem bsdPids_still (arg : Text) : Still (bsdPids ctx arg) :=
  (parseList_still parsePid .pid arg).bind (fun _ _ => pure_still)

theorem bsdM_still (g : Globals) : LetterStill (bsdM g) := by
  unfold bsdM
  apply letterStill_ite
  · exact set_still (fun _ => rfl) (fun _ => rfl)
  · apply letterStill_ite
    · exact deferSfOption_still (bytes "pmem") .bsdm
    · exact set_still (fun _ => rfl) (fun _ => rfl)

theorem sysvOption_still (next : List Text) (g : Globals) (c : UInt8)
    (rest : Text) :
    LetterStill (sysvOption ctx next g c rest) := by
  have hpersonality : LetterStill
      (if has g.personality perSVR4x then setModifier fmy
      else if has g.personality perHPUXx then
        .more 2 (modifyGlobals (fun g => { g with unixFOption := true }))
      else reject "must set personality to get -x option") := by
    apply letterStill_ite
    · exact set_still (fun _ => rfl) (fun _ => rfl)
    · apply letterStill_ite
      · exact modifyGlobals_still (fun _ => rfl) (fun _ => rfl)
      · exact reject_still _
  unfold sysvOption
  extract_lets takes
  split
  all_goals
    first
      | exact set_still (fun _ => rfl) (fun _ => rfl)
      | exact reject_still _
      | exact letterStill_takes (defer_still _)
      | exact letterStill_takes (parseList_still _ _)
      | exact letterStill_takes parseSessionOrGroup_still
      | exact exclusive_still _
      | exact pure_still
      | exact hpersonality
      | exact letterStill_ite (set_still (fun _ => rfl) (fun _ => rfl))
          (set_still (fun _ => rfl) (fun _ => rfl))

theorem bsdLetter_still (next : List Text) (g : Globals) (c : UInt8) (rest : Text) :
    LetterStill (bsdLetter ctx next g c rest) := by
  unfold bsdLetter
  extract_lets takes
  split
  all_goals
    first
      | exact set_still (fun _ => rfl) (fun _ => rfl)
      | exact reject_still _
      | exact letterStill_takes (defer_still _)
      | exact letterStill_takes (parseList_still _ _)
      | exact exclusive_still _
      | exact pure_still
      | exact bsdTty_still rest next
      | exact bsdM_still g
      | exact letterStill_ite (reject_still _)
          (set_still (fun _ => rfl) (fun _ => rfl))

theorem bsdOption_still (next : List Text) (g : Globals) (c : UInt8) (rest : Text) :
    LetterStill (bsdOption ctx next g c rest) := by
  unfold bsdOption
  apply letterStill_ite
  · exact bsdPids_still (c :: rest)
  · exact bsdLetter_still next g c rest

theorem parseLetters_still {option : Globals -> UInt8 -> Text -> Letter}
    (h : forall g c rest, LetterStill (option g c rest)) (text : Text) :
    forall wide : Nat,
    Still (parseLetters option wide text) := by
  induction text with
  | nil =>
      intro wide
      exact pure_still
  | cons c rest ih =>
      intro wide
      unfold parseLetters
      apply globals_keeps.bind
      intro g _
      have hletter := h g c rest
      cases hoption : option g c rest with
      | more count action =>
          rw [hoption] at hletter
          exact Ledger.Keeps.bind hletter (fun _ _ => ih (wide + count))
      | last action =>
          rw [hoption] at hletter
          exact Ledger.Keeps.bind hletter (fun _ _ => pure_still)

theorem parseSysvOption_still (arg : Text) (next : List Text) :
    Still (parseSysvOption ctx arg next) :=
  parseLetters_still (sysvOption_still next) (arg.drop 1) 0

theorem parseBsdOption_still (force : Bool) (arg : Text) (next : List Text) :
    Still (parseBsdOption ctx force arg next) := by
  unfold parseBsdOption
  apply globals_keeps.bind
  intro g _
  split
  · exact pure_still
  · exact parseLetters_still (bsdOption_still next) (bsdLetters arg) 0

def GnuStill : GnuOption -> Prop
  | .argument _ action => forall arg, Still (action arg)
  | .bare _ action => Still action
  | .other action => Still action

theorem gnuSize_still (message : String) {change : Nat -> Globals -> Globals}
    (hformat : forall t g, (change t g).formatList = g.formatList)
    (hsort : forall t g, (change t g).sortList = g.sortList) :
    GnuStill (gnuSize message change) := by
  intro arg
  unfold parseSize
  dsimp only
  split
  · exact (modifyGlobals_still (hformat _) (hsort _)).bind (fun _ _ => pure_still)
  · exact pure_still

theorem gnuSet_still (name : String) {change : Globals -> Globals}
    (hformat : forall g, (change g).formatList = g.formatList)
    (hsort : forall g, (change g).sortList = g.sortList) :
    GnuStill (gnuSet name change) :=
  (modifyGlobals_still hformat hsort).bind (fun _ _ => pure_still)

theorem setHeading_still (heading : Heading) (message : String) (g : Globals) :
    Still (setHeading heading message g) := by
  unfold setHeading
  split
  · exact pure_still
  · have hheading :
        Still (modifyGlobals (fun g => { g with headerType := heading })) :=
      modifyGlobals_still (fun _ => rfl) (fun _ => rfl)
    exact hheading.bind (fun _ _ => pure_still)

theorem gnuHeading_still (name : String) (heading : Heading) :
    GnuStill (gnuHeading name heading) :=
  globals_keeps.bind (fun g _ => setHeading_still heading _ g)

theorem gnuExclusive_still (x : String) : GnuStill (gnuExclusive ctx x) :=
  (exclusive_still x).bind (fun _ _ => pure_still)

theorem gnuContext_still : GnuStill (.other (do
    modifyGlobals (fun g => { g with formatFlags := g.formatFlags ||| ffFc })
    return none)) := by
  have hflags :
      Still (modifyGlobals (fun g =>
    { g with formatFlags := g.formatFlags ||| ffFc })) :=
    modifyGlobals_still (fun _ => rfl) (fun _ => rfl)
  exact hflags.bind (fun _ _ => pure_still)

theorem gnuStill_ite {condition : Prop} [Decidable condition]
    {entry : GnuOption} {others : Option GnuOption}
    (h : GnuStill entry) (h' : forall option, others = some option ->
    GnuStill option) :
    forall option, (if condition then some entry else others) = some option ->
      GnuStill option := by
  intro option heq
  split at heq
  · cases heq
    exact h
  · exact h' option heq

theorem gnuTable_still (name : Text) :
    forall option, gnuTable ctx name = some option -> GnuStill option := by
  unfold gnuTable
  extract_lets isOne selects
  repeat' refine gnuStill_ite ?_ ?_
  all_goals
    first
      | exact parseList_still _ _
      | exact gnuSize_still _ (fun _ _ => rfl) (fun _ _ => rfl)
      | exact gnuSet_still _ (fun _ => rfl) (fun _ => rfl)
      | exact gnuHeading_still _ _
      | exact defer_still _
      | exact gnuExclusive_still _
      | exact gnuContext_still
      | exact fun _ hnone => (nomatch hnone)

theorem unknownGnuOption_still (arg : Text) : Still (unknownGnuOption arg) := by
  unfold unknownGnuOption
  apply globals_keeps.bind
  intro g _
  split
  · exact stop_keeps
  · exact pure_still

theorem doGnuOption_still {option : GnuOption} (h : GnuStill option)
    (rest : Text) (next : List Text) :
    Still (doGnuOption option rest next) := by
  cases option with
  | argument missing action =>
      exact withArgument_still (grabGnuArg rest next) missing h
  | bare refusal action =>
      show Still (if rest ≠ [] then return (some (.text refusal), 0)
        else do
          let err <- action
          return (err, 0))
      split
      · exact pure_still
      · exact Ledger.Keeps.bind h (fun _ _ => pure_still)
  | other action =>
      exact Ledger.Keeps.bind h (fun _ _ => pure_still)

theorem parseGnuOption_still (arg : Text) (next : List Text) :
    Still (parseGnuOption ctx arg next) := by
  unfold parseGnuOption
  cases hoption : gnuOption ctx arg with
  | none =>
      exact (unknownGnuOption_still arg).bind (fun _ _ => pure_still)
  | some option =>
      have hstill : GnuStill option := by
        unfold gnuOption at hoption
        split at hoption
        · cases hoption
        · exact gnuTable_still _ option hoption
      exact (doGnuOption_still hstill (gnuName arg).2 next).bind
        (fun _ _ => pure_still)

/-!
# Arguments
-/

theorem pushTrailing_lists (found : List (Sel × SelUnion)) (typecode : Sel)
    (g : Globals) :
    (pushTrailing found typecode g).formatList = g.formatList ∧
    (pushTrailing found typecode g).sortList = g.sortList := by
  unfold pushTrailing
  split
  · exact ⟨rfl, rfl⟩
  · exact ⟨rfl, rfl⟩

theorem parseTrailingPids_still (arg : Text) (next : List Text) :
    Still (parseTrailingPids ctx arg next) := by
  have hpush : forall found typecode,
      Still (modifyGlobals (pushTrailing found typecode)) :=
    fun found typecode => modifyGlobals_still (fun g =>
      (pushTrailing_lists found typecode g).left)
      (fun g => (pushTrailing_lists found typecode g).right)
  unfold parseTrailingPids
  split
  · exact pure_still
  · next found _ =>
      apply (hpush found .pid).bind
      intro _ _
      apply (hpush found .pgrp).bind
      intro _ _
      exact (hpush found .sess).bind (fun _ _ => pure_still)

theorem setPreferBsd_still : Still setPreferBsd :=
  modifyGlobals_still (fun _ => rfl) (fun _ => rfl)

theorem parseBsd_still (force : Bool) (arg : Text) (next : List Text) :
    Still (parseBsd ctx force arg next) :=
  setPreferBsd_still.bind (fun _ _ => parseBsdOption_still force arg next)

theorem parseArgument_still (force : Bool) (arg : Text) (next : List Text) :
    Still (parseArgument ctx force arg next) := by
  have hnumbers : Still (parseNumbers ctx arg next) :=
    setPreferBsd_still.bind (fun _ _ => parseTrailingPids_still arg next)
  unfold parseArgument
  cases argType arg with
  | gnu =>
      exact parseGnuOption_still arg next
  | sysv =>
      unfold parseSysv
      dsimp only
      split
      · exact parseBsd_still force arg next
      · exact parseSysvOption_still arg next
  | bsd =>
      unfold parsePlain
      apply globals_keeps.bind
      intro g _
      split
      · exact pure_still
      · exact parseBsd_still force arg next
  | pgrp => exact hnumbers
  | sess => exact hnumbers
  | pid => exact hnumbers
  | finish => exact pure_still
  | fail => exact pure_still

theorem parseAllOptions_still (force : Bool) (args : List Text) :
    forall used wide : Nat,
    Still (parseAllOptions ctx force used wide args) := by
  induction args with
  | nil =>
      intro used wide
      cases used with
      | zero => exact pure_still
      | succ used => exact pure_still
  | cons arg args ih =>
      intro used wide
      cases used with
      | succ used =>
          exact ih used wide
      | zero =>
          unfold parseAllOptions
          apply (parseArgument_still force arg args).bind
          intro parsed _
          split
          · exact pure_still
          · exact ih parsed.used (wide + parsed.wide)

end Ps
end Lepd
