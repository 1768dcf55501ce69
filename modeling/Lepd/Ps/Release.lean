import Lepd.Ps.History
import Lepd.Ps.Reading
import Lepd.Ps.Settle

/-!
# What becomes of the nodes of ps

A call gives every node back once, if no reading of its arguments loses one.
-/

namespace Lepd
namespace Ps

open Foundation
open Foundation.Ledger (Returns)

variable {ctx : Context}

/-!
# From the options to the lists
-/

/-- The options take their nodes with them into the list that replaces them. -/
theorem parseSfList_accounts :
    Whole (parseSfList ctx) (fun b => DeferredKept ctx b.sfList b) := by
  intro b err b' h
  rcases Ledger.bind_returns h with ⟨s, c, hs, h⟩
  cases hs
  rcases Ledger.bind_returns h with ⟨⟨err', list⟩, d, hparse, h⟩
  rcases Ledger.bind_returns h with ⟨u, e, hmodify, hreturn⟩
  cases hmodify
  cases hreturn
  rcases parseOOption_accounts b.sfList b (err, list) d hparse with
    ⟨lost, ⟨hframe, hnodes, hcount⟩, hlost⟩
  refine ⟨lost, ⟨trivial, hnodes, fun n => ?_⟩, hlost⟩
  have hcountn := hcount n
  change listed d n + (list.flatMap SfNode.nodes).count n + lost.count n =
    listed b n + (b.sfList.flatMap SfNode.nodes).count n +
      whole.allocated b d n at hcountn
  show listed d n + (list.flatMap SfNode.nodes).count n + 0 + lost.count n =
    listed b n + (b.sfList.flatMap SfNode.nodes).count n + 0 + whole.allocated b d n
  omega

theorem count_merged (sfs : List SfNode) (n : Nat) :
    forall (formats : List FormatNode) (sorts : List SortNode),
    (formatNodes (sfs.foldl (fun list sfn => sfn.fCooked.reverse ++ list)
    formats)).count n +
        (sortNodes (sfs.foldl (fun list sfn => sfn.sCooked.reverse ++ list)
          sorts)).count n =
      (formatNodes formats).count n + (sortNodes sorts).count n +
        (sfs.flatMap SfNode.nodes).count n := by
  induction sfs with
  | nil =>
      intro formats sorts
      rfl
  | cons sfn sfs ih =>
      intro formats sorts
      have hformats : (formatNodes sfn.fCooked.reverse).Perm
          (formatNodes sfn.fCooked) :=
        (List.reverse_perm sfn.fCooked).map FormatNode.node
      have hsorts : (sortNodes sfn.sCooked.reverse).Perm (sortNodes sfn.sCooked) :=
        (List.reverse_perm sfn.sCooked).map SortNode.node
      have hnodes : sfn.nodes.count n = (formatNodes sfn.fCooked).count n +
          (sortNodes sfn.sCooked).count n :=
        List.count_append
      have hsplit : sortNodes (sfn.sCooked.reverse ++ sorts) =
          sortNodes sfn.sCooked.reverse ++ sortNodes sorts :=
        List.map_append
      rw [List.foldl_cons, List.foldl_cons, ih, formatNodes_append, hsplit,
        List.flatMap_cons, List.count_append,
        List.count_append, List.count_append, hformats.count_eq,
          hsorts.count_eq, hnodes]
      omega

theorem mergeLists_still : Still mergeLists := by
  apply Ledger.Keeps.modify
  intro b
  refine Ledger.Moved.of_count trivial rfl (fun n => ?_)
  have hmerged := count_merged b.sfList n b.globals.formatList b.globals.sortList
  have hempty :
      (b.sfList.map (fun sfn =>
    { sfn with fCooked := [], sCooked := [] })).flatMap SfNode.nodes = [] := by
    rw [List.flatMap_map, List.flatMap_eq_nil_iff]
    intro sfn _
    rfl
  show b.freed.count n +
        (formatNodes (b.sfList.foldl (fun list sfn => sfn.fCooked.reverse ++
          list) b.globals.formatList)).count n +
        (sortNodes (b.sfList.foldl (fun list sfn => sfn.sCooked.reverse ++ list)
          b.globals.sortList)).count n +
      ((b.sfList.map (fun sfn =>
        { sfn with fCooked := [], sCooked := [] })).flatMap SfNode.nodes).count
        n + 0 =
    b.freed.count n + (formatNodes b.globals.formatList).count n +
      (sortNodes b.globals.sortList).count n +
      (b.sfList.flatMap SfNode.nodes).count n + 0
  rw [hempty, List.count_nil]
  omega

def MergedKept (ctx : Context) : State -> Prop :=
  after mergeLists (fun _ b => SettleKept ctx b.globals b)

/-- No node is lost on the way from the options to the lists. -/
def SfKept (ctx : Context) (b : State) : Prop :=
  DeferredKept ctx b.sfList b ∧
    after (parseSfList ctx) (fun err c => err = none -> MergedKept ctx c) b

theorem processSfOptions_accounts (own : OwnColumns ctx.tables) :
    Whole (processSfOptions ctx) (SfKept ctx) := by
  have hmerged : Whole (mergeLists >>= fun _ => settleFormat ctx)
      (MergedKept ctx) :=
    mergeLists_still.bind_accounts (fun _ _ =>
      whole_of_lists (settleFormat_accounts own))
  unfold processSfOptions
  apply parseSfList_accounts.bind
  intro err _
  cases err with
  | some err =>
      exact Ledger.Keeps.accounts pure_still (fun _ _ _ _ h => (nomatch h))
  | none =>
      apply globals_accounts (fun _ c => none = (none : Option Err) ->
        MergedKept ctx c)
      intro g
      split
      · exact Ledger.Keeps.accounts (Ledger.Keeps.of_error
          (fun _ => ⟨.exit, rfl⟩)) (fun _ _ _ h => (nomatch h))
      · exact hmerged.congr (fun _ _ _ _ => ⟨fun h _ => h, fun h => h rfl⟩)

/-!
# Readings
-/

def ReadKept (ctx : Context) (force : Bool) (b : State) : Prop :=
  after (parseAllOptions ctx force 0 0 (ctx.argv.drop 1))
    (fun found c => found.1 = none ->
    after threadOptionCheck (fun err d => err = none -> SfKept ctx d) c) b

theorem threadOptionCheck_still : Still threadOptionCheck := by
  unfold threadOptionCheck
  apply globals_keeps.bind
  intro g _
  split
  · exact pure_still
  · next flags _ =>
      have hflags :
          Still (modifyGlobals (fun g => { g with threadFlags := flags })) :=
        modifyGlobals_still (fun _ => rfl) (fun _ => rfl)
      exact hflags.bind (fun _ _ => pure_still)

theorem selectBitsSetup_still : Still selectBitsSetup := by
  unfold selectBitsSetup
  apply globals_keeps.bind
  intro g _
  split
  · have hall :
        Still (modifyGlobals (fun g =>
      { g with allProcesses := true, simpleSelect := 0 })) :=
      modifyGlobals_still (fun _ => rfl) (fun _ => rfl)
    exact hall.bind (fun _ _ => pure_still)
  · exact pure_still

theorem readArguments_accounts (own : OwnColumns ctx.tables) (force : Bool) :
    Whole (readArguments ctx force) (ReadKept ctx force) := by
  unfold readArguments
  apply (parseAllOptions_still force (ctx.argv.drop 1) 0 0).bind_accounts
  intro found _
  rcases found with ⟨err, wide⟩
  cases err with
  | some err =>
      exact Ledger.Keeps.accounts pure_still (fun _ _ _ _ h => (nomatch h))
  | none =>
      have hkept : forall c, after threadOptionCheck (fun err d => err = none ->
        SfKept ctx d) c <->
          ((none : Option Err) = none ->
            after threadOptionCheck (fun err d => err = none -> SfKept ctx d) c) :=
        fun _ => ⟨fun h _ => h, fun h => h rfl⟩
      refine Ledger.Accounts.congr ?_ (fun c _ _ _ => hkept c)
      apply threadOptionCheck_still.bind_accounts
      intro err _
      cases err with
      | some err =>
          exact Ledger.Keeps.accounts pure_still (fun _ _ _ _ h => (nomatch h))
      | none =>
          refine ((processSfOptions_accounts own).bind_keeps ?_).congr
            (fun _ _ _ _ => ⟨fun h _ => h, fun h => h rfl⟩)
          intro err _
          cases err with
          | some err =>
              exact pure_still
          | none =>
              apply selectBitsSetup_still.bind
              intro bits _
              cases bits with
              | error err => exact pure_still
              | ok bits => exact pure_still

/-- No node is lost in the first way, if the arguments are read this way at all. -/
def FirstKept (ctx : Context) (force : Bool) (b : State) : Prop :=
  has b.globals.personality perForceBSD = false -> ReadKept ctx force b

theorem firstReading_accounts (own : OwnColumns ctx.tables) (force : Bool) :
    Whole (firstReading ctx force) (FirstKept ctx force) := by
  unfold firstReading
  apply globals_accounts (fun g b => has g.personality perForceBSD = false ->
    ReadKept ctx force b)
  intro g
  split
  · next hforced =>
      refine Ledger.Keeps.accounts pure_still (fun _ _ _ _ h => ?_)
      rw [hforced] at h
      cases h
  · next hfree =>
      have hfree' : has g.personality perForceBSD = false := by simpa using hfree
      refine ((readArguments_accounts own force).bind_keeps ?_).congr
        (fun _ _ _ _ => ⟨fun h _ => h, fun h => h hfree'⟩)
      intro found _
      cases found with
      | error err => exact pure_still
      | ok reading => exact pure_still

theorem forget_accounts (env : Environment) (sys : System) :
    Whole (modifyGlobals (resetGlobal env sys)) (fun b => b.globals.formatList =
      [] ∧ b.globals.sortList = []) := by
  intro b u b' h
  cases h
  refine ⟨formatNodes b.globals.formatList ++ sortNodes b.globals.sortList,
    ⟨trivial, Nat.le_refl _, fun n => ?_⟩, ?_⟩
  · have hnone :
        whole.allocated b { b with globals := resetGlobal env sys b.globals }
      n = 0 :=
      Ledger.allocated_self b n
    rw [List.count_append]
    show b.freed.count n + 0 + 0 + (sfNodes b).count n + 0 + _ = listed b n +
      (sfNodes b).count n + 0 + _
    rw [hnone, listed]
    omega
  · rw [List.append_eq_nil_iff, formatNodes, sortNodes, List.map_eq_nil_iff,
      List.map_eq_nil_iff]

theorem resetSortformat_ok {b b' : State} {u : Unit}
    (h : resetSortformat b = .ok (u, b')) :
    b'.nodes = b.nodes ∧ b'.globals.formatList = [] ∧ b'.globals.sortList = [] ∧
      b'.sfList = [] ∧
      b'.freed = b.freed ++ sfNodes b ++ formatNodes b.globals.formatList ++
        sortNodes b.globals.sortList := by
  cases h
  exact ⟨rfl, rfl, rfl, rfl, rfl⟩

theorem resetSortformat_still : Still resetSortformat := by
  intro b u b' h
  rcases resetSortformat_ok h with ⟨hnodes, hformat, hsort, hsf, hfreed⟩
  refine Ledger.Moved.of_count trivial hnodes (fun n => ?_)
  show b'.freed.count n + (formatNodes b'.globals.formatList).count n +
    (sortNodes b'.globals.sortList).count n +
      (b'.sfList.flatMap SfNode.nodes).count n + 0 =
    b.freed.count n + (formatNodes b.globals.formatList).count n +
      (sortNodes b.globals.sortList).count n +
      (sfNodes b).count n + 0
  rw [hfreed, hformat, hsort, hsf, List.count_append, List.count_append,
    List.count_append]
  show _ + 0 + 0 + 0 + 0 = _
  omega

/-- The lists are empty when they are forgotten, and no node is lost in the
second way. -/
def RetryKept (ctx : Context) (b : State) : Prop :=
  (b.globals.formatList = [] ∧ b.globals.sortList = []) ∧
    after (modifyGlobals (resetGlobal ctx.env ctx.sys)) (fun _ =>
      after resetSortformat (fun _ =>
        after (modifyGlobals preferBsd) (fun _ => ReadKept ctx true))) b

theorem secondReading_accounts (own : OwnColumns ctx.tables) :
    Whole (secondReading ctx) (RetryKept ctx) := by
  have hprefer : Still (modifyGlobals preferBsd) :=
    modifyGlobals_still (fun _ => rfl) (fun _ => rfl)
  unfold secondReading
  apply (forget_accounts ctx.env ctx.sys).bind
  intro _ _
  apply resetSortformat_still.bind_accounts
  intro _ _
  apply hprefer.bind_accounts
  intro _ _
  exact readArguments_accounts own true

def ParseKept (ctx : Context) (force : Bool) (b : State) : Prop :=
  FirstKept ctx force b ∧ after (firstReading ctx force) (fun first c =>
    first = none -> RetryKept ctx c) b

theorem argParse_accounts (own : OwnColumns ctx.tables) (wCount : Nat)
    (force : Bool) :
    Whole (argParse ctx wCount force) (ParseKept ctx force) := by
  have haccept : forall wCount force bits, Still (accept wCount force bits) := by
    intro wCount force bits
    have hdimensions : Still (modifyGlobals (chooseDimensions wCount)) :=
      modifyGlobals_still (fun _ => rfl) (fun _ => rfl)
    exact hdimensions.bind (fun _ _ => pure_still)
  unfold argParse
  apply (firstReading_accounts own force).bind
  intro first _
  cases first with
  | some reading =>
      exact (haccept _ _ _).accounts (fun _ _ _ _ h => (nomatch h))
  | none =>
      refine ((secondReading_accounts own).bind_keeps ?_).congr (fun _ _ _ _ =>
        ⟨fun h _ => h, fun h => h rfl⟩)
      intro second _
      cases second with
      | error err => exact stop_keeps
      | ok reading => exact haccept _ _ _

theorem parseCall_accounts (own : OwnColumns ctx.tables) (wCount : Nat)
    (force : Bool) :
    Whole (parseCall ctx wCount force) (ParseKept ctx force) := by
  have hcheck : Still argCheckConflicts := by
    intro b u b' h
    rw [argCheckConflicts_ok h]
    exact Ledger.Moved.refl b []
  unfold parseCall
  apply (argParse_accounts own wCount force).bind_keeps
  intro parse _
  exact hcheck.bind (fun _ _ => pure_still)

/-!
# No node in two places

Whatever is lost, a node that is given back is on one list then, and on no other
one.
-/

/-- No node is in two places, and one that is still to be allocated is in none. -/
def Apart (b : State) : Prop :=
  forall n, places b n <= if n < b.nodes then 1 else 0

theorem Apart.after_run {value : Type} {x : Run value} {kept : State -> Prop}
    {b b' : State} {a : value} (h : Apart b)
    (hx : Whole x kept) (hrun : x b = .ok (a, b')) : Apart b' := by
  intro n
  rcases hx b a b' hrun with ⟨lost, ⟨_, hnodes, hcount⟩, _⟩
  have hcountn := hcount n
  have hplaces := h n
  change b.nodes <= b'.nodes at hnodes
  change places b' n + 0 + lost.count n = places b n + 0 +
    (if b.nodes <= n ∧ n < b'.nodes then 1 else 0) at hcountn
  split at hplaces
  · next hold =>
      rw [if_neg (fun hnew => absurd hold (Nat.not_lt.mpr hnew.left))] at hcountn
      rw [if_pos (Nat.lt_of_lt_of_le hold hnodes)]
      omega
  · next hnew =>
      simp only [Nat.not_lt.mp hnew, true_and] at hcountn
      omega

theorem Apart.freed_nodup {b : State} (h : Apart b) : b.freed.Nodup := by
  apply List.nodup_iff_count.mpr
  intro n
  have hplaces := h n
  change b.freed.count n + (formatNodes b.globals.formatList).count n +
    (sortNodes b.globals.sortList).count n +
    (sfNodes b).count n <= _ at hplaces
  split at hplaces
  · omega
  · omega

/-- A column that is deleted was on the format list, and in no other place. -/
theorem Apart.fmtDelete_frees {findme : String} {b b' : State} {u : Unit}
    (h : Apart b)
    (hrun : fmtDelete findme b = .ok (u, b')) :
    b'.freed = b.freed ∨ exists n, b'.freed = b.freed ++ [n] ∧
      (formatNodes b.globals.formatList).count n = 1 ∧
      n ∉ b.freed ∧ n ∉ sortNodes b.globals.sortList ∧ n ∉ sfNodes b := by
  rcases fmtDelete_cases hrun with rfl | ⟨old, hold, rfl⟩
  · exact Or.inl rfl
  · refine Or.inr ⟨old.node, rfl, ?_⟩
    have hpos := List.count_pos_iff.mpr
      (List.mem_map_of_mem (f := FormatNode.node) hold)
    have hplaces := h old.node
    change b.freed.count old.node + (formatNodes b.globals.formatList).count
      old.node +
      (sortNodes b.globals.sortList).count old.node +
        (sfNodes b).count old.node <= _ at hplaces
    change 0 < (formatNodes b.globals.formatList).count old.node at hpos
    rw [← List.count_eq_zero, ← List.count_eq_zero, ← List.count_eq_zero]
    split at hplaces
    · omega
    · omega

/-!
# Calls
-/

variable {tables : Tables} {call : Call} {s s' : Statics}

/-- Every node of a call has been given back once, or is on one of the lists
once. -/
def OnePlace (b : State) : Prop :=
  forall n, places b n = if n < b.nodes then 1 else 0

/-- Every node of a call has been given back once, and there are no lists any
more. -/
structure Released (b : State) : Prop where
  formatList : b.globals.formatList = []
  sortList : b.globals.sortList = []
  sfList : b.sfList = []
  freed : b.freed.Perm (List.range b.nodes)

/--
Whenever an accepted call gives its lists back, each node is in one place:
before the second way of reading, and at the end, when all nodes are given back.
-/
def Releases (tables : Tables) (call : Call) (s : Statics) : Prop :=
  forall options s', psMain tables call s = .ok (options, s') ->
    (forall b, firstReading (call.context tables s.pidDigits) s.forceBsd
    (begin call s.state) = .ok (none, b) ->
        OnePlace b) ∧
      (forall parse b, parseCall (call.context tables s.pidDigits) s.wCount
        s.forceBsd (begin call s.state) =
          .ok (parse, b) -> OnePlace b) ∧
      Released s'.state

/-- A property of every call of a process, with the variables that it finds, up
to one that is not accepted. -/
def EachCall (tables : Tables) (property : Call -> Statics -> Prop) :
    List Call -> Statics -> Prop
  | [], _ => True
  | call :: calls, s =>
      property call s ∧
        forall options s', psMain tables call s = .ok (options, s') ->
          EachCall tables property calls s'

theorem psMain_ok {options : Options}
    (h : psMain tables call s = .ok (options, s')) :
    exists parse b, parseCall (call.context tables s.pidDigits) s.wCount
      s.forceBsd (begin call s.state) =
        .ok (parse, b) ∧
      resetSortformat b = .ok ((), s'.state) := by
  cases hcall : parseCall (call.context tables s.pidDigits) s.wCount s.forceBsd
    (begin call s.state) with
  | error reason =>
      rw [psMain_of_error hcall] at h
      cases h
  | ok p =>
      rcases p with ⟨parse, b⟩
      have hleave : psMain tables call s =
          leave (call.context tables s.pidDigits) s parse b := by
        show (parseCall (call.context tables s.pidDigits) s.wCount s.forceBsd
          (begin call s.state) >>= _) = _
        rw [hcall]
        rfl
      rw [hleave] at h
      cases h
      exact ⟨parse, b, rfl, rfl⟩

theorem places_begin (call : Call) (hsf : s.state.sfList = []) (n : Nat) :
    places (begin call s.state) n = 0 := by
  show 0 + 0 + 0 + (s.state.sfList.flatMap SfNode.nodes).count n = 0
  rw [hsf]
  rfl

theorem psMain_freed_nodup (own : OwnColumns tables) (hsf : s.state.sfList = [])
    {options : Options}
    (h : psMain tables call s = .ok (options, s')) : s'.state.freed.Nodup := by
  rcases psMain_ok h with ⟨parse, b, hparse, hreset⟩
  have hbegin : Apart (begin call s.state) := by
    intro n
    rw [places_begin call hsf n]
    exact Nat.zero_le _
  have hreset' : Whole resetSortformat (fun _ => True) :=
    resetSortformat_still.accounts (fun _ _ _ _ => trivial)
  exact ((hbegin.after_run (parseCall_accounts own _ _) hparse).after_run
    hreset' hreset).freed_nodup

theorem calls_free_no_node_twice (own : OwnColumns tables) (calls : List Call) :
    forall s : Statics, Settled s.state ->
    EachCall tables (fun call s => forall options s', psMain tables call s =
      .ok (options, s') -> s'.state.freed.Nodup)
      calls s := by
  induction calls with
  | nil =>
      intro s _
      trivial
  | cons call calls ih =>
      intro s hsettled
      exact ⟨fun options s' hcall => psMain_freed_nodup own hsettled.sfList hcall,
        fun options s' hcall => ih s' (psMain_settled hcall)⟩

end Ps
end Lepd
