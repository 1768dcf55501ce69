import Lepd.Ps.Nodes

/-!
# The columns of ps

The format list once the options are merged: columns are pushed onto it, put
behind others and deleted. A column that is to follow one that is not there gets
onto no list.
-/

namespace Lepd
namespace Ps

open Foundation
open Foundation.Ledger (Returns)

def ownSpecs : List String :=
  ["cmd", "args", "bsdtime", "stat", "ucmd", "time", "tname", "stime", "psr",
    "rss", "wchan", "sgi_rss", "sz", "sgi_p",
    "addr_1", "pri", "class", "ni", "priority", "opri", "nlwp", "c", "lwp",
      "sid", "pgid", "ppid", "spid", "pid", "user",
    "uid_hack", "uid", "s", "f", "label"]

/-- None of them is a macro. -/
def OwnColumns (tables : Tables) : Prop :=
  forall spec, spec ∈ ownSpecs -> tables.searchMacroArray (bytes spec) = none

def HasColumn (name : String) (b : State) : Prop :=
  exists column, column ∈ b.globals.formatList ∧ column.name = bytes name

/-!
# Lists of columns
-/

theorem insertAfter_some {name : Text} {node : FormatNode}
    {list : List FormatNode} : forall {list' : List FormatNode},
    insertAfter name node list = some list' -> list'.Perm (node :: list) := by
  induction list with
  | nil =>
      intro list' h
      cases h
  | cons walk list ih =>
      intro list' h
      rw [insertAfter] at h
      split at h
      · cases h
        exact List.Perm.swap node walk list
      · rcases Option.map_eq_some_iff.mp h with ⟨rest, hrest, rfl⟩
        exact ((ih hrest).cons walk).trans (List.Perm.swap node walk list)

theorem insertAfter_eq_none_iff {name : Text} {node : FormatNode}
    {list : List FormatNode} :
    insertAfter name node list = none <-> forall column, column ∈ list ->
      column.name ≠ name := by
  induction list with
  | nil =>
      exact ⟨fun _ _ h => (nomatch h), fun _ => rfl⟩
  | cons walk list ih =>
      rw [insertAfter, List.forall_mem_cons]
      split
      · next hname => exact ⟨fun h => (nomatch h), fun h => absurd hname h.left⟩
      · next hname => rw [Option.map_eq_none_iff, ih, and_iff_right hname]

/-- Nodes move between the format list, those given back and those held. -/
theorem moved_formatList {b : State} {held held' freed : List Nat}
    {list : List FormatNode}
    (h : forall n, freed.count n + (formatNodes list).count n + held'.count n =
      b.freed.count n + (formatNodes b.globals.formatList).count n + held.count n) :
    lists.Moved b held
      { b with freed := freed,
               globals := { b.globals with formatList := list } } held' [] := by
  refine Ledger.Moved.of_count rfl rfl (fun n => ?_)
  have hcount := h n
  show freed.count n + (formatNodes list).count n +
    (sortNodes b.globals.sortList).count n + held'.count n =
    b.freed.count n + (formatNodes b.globals.formatList).count n +
      (sortNodes b.globals.sortList).count n + held.count n
  omega

def unlinked (found : Bool) (putme : List FormatNode) : List FormatNode :=
  if found then putme.tail else putme

theorem unlinked_of_own {putme : List FormatNode} (hone : putme.length <= 1) :
    formatNodes (unlinked true putme) = [] := by
  cases putme with
  | nil =>
      rfl
  | cons node rest =>
      rw [List.length_cons] at hone
      rw [List.length_eq_zero_iff.mp (Nat.le_zero.mp (Nat.le_of_succ_le_succ hone))]
      rfl

/-- The two ways that a column is put behind another one: it is not there, or
the first node is. -/
theorem fmtAddAfter_cases {findme : String} {putme : List FormatNode}
    {b b' : State} {found : Bool}
    (h : fmtAddAfter findme putme b = .ok (found, b')) :
    found = false ∧ b' = b ∧ (putme = [] ∨ ¬ HasColumn findme b) ∨
      found = true ∧ HasColumn findme b ∧ exists node rest list, putme = node ::
        rest ∧
        list.Perm (node :: b.globals.formatList) ∧
          b' = { b with globals := { b.globals with formatList := list } } := by
  rcases Ledger.bind_returns h with ⟨g, c, hg, h⟩
  cases hg
  cases hlist : b.globals.formatList with
  | nil =>
      simp only [hlist] at h
      cases h
  | cons first others =>
      cases putme with
      | nil =>
          simp only [hlist] at h
          split at h
          · cases h
          · cases h
            exact Or.inl ⟨rfl, rfl, Or.inl rfl⟩
      | cons node rest =>
          simp only [hlist] at h
          cases hinsert : insertAfter (bytes findme) node (first :: others) with
          | none =>
              simp only [hinsert] at h
              cases h
              refine Or.inl ⟨rfl, rfl, Or.inr ?_⟩
              intro hcolumn
              rcases hcolumn with ⟨column, hmem, hname⟩
              rw [hlist] at hmem
              exact insertAfter_eq_none_iff.mp hinsert column hmem hname
          | some list =>
              simp only [hinsert] at h
              rcases Ledger.bind_returns h with ⟨_, d, hmodify, hreturn⟩
              cases hmodify
              cases hreturn
              refine Or.inr ⟨rfl, ?_, node, rest, list, rfl, ?_, rfl⟩
              · by_contra hnone
                have hall : insertAfter (bytes findme) node (first :: others) =
                    none :=
                  insertAfter_eq_none_iff.mpr (fun column hmem hname =>
                    hnone ⟨column, hlist ▸ hmem, hname⟩)
                rw [hinsert] at hall
                cases hall
              · exact insertAfter_some hinsert

theorem fmtAddAfter_keeps (findme : String) (putme : List FormatNode) :
    lists.Keeps (fmtAddAfter findme putme) (formatNodes putme) (fun found =>
      formatNodes (unlinked found putme)) := by
  intro b found b' h
  rcases fmtAddAfter_cases h with ⟨rfl, rfl, _⟩ | ⟨rfl, _, node, rest, list,
    rfl, hperm, rfl⟩
  · exact Ledger.Moved.refl b' (formatNodes putme)
  · apply moved_formatList
    intro n
    have hcount := (hperm.map FormatNode.node).count_eq n
    rw [List.map_cons, List.count_cons] at hcount
    show b.freed.count n + (list.map FormatNode.node).count n +
      (rest.map FormatNode.node).count n =
      b.freed.count n + (b.globals.formatList.map FormatNode.node).count n +
        (node.node :: rest.map FormatNode.node).count n
    rw [List.count_cons]
    omega

def Lands (findme : String) (putme : List FormatNode) (b : State) : Prop :=
  putme = [] ∨ HasColumn findme b

theorem fmtAddAfter_accounts (findme : String) {putme : List FormatNode}
    (hone : putme.length <= 1) :
    lists.Accounts (fmtAddAfter findme putme) (formatNodes putme) (fun _ => [])
      (Lands findme putme) := by
  apply (fmtAddAfter_keeps findme putme).drop
  intro b found b' h
  rcases fmtAddAfter_cases h with ⟨rfl, _, hnone⟩ | ⟨rfl, hcolumn, node, rest,
    _, rfl, _, _⟩
  · rw [unlinked, if_neg Bool.false_ne_true, formatNodes, List.map_eq_nil_iff]
    exact ⟨Or.inl, fun hlands => hlands.elim id (fun hcolumn =>
      hnone.resolve_right (not_not_intro hcolumn))⟩
  · have hrest : rest = [] := by
      rw [List.length_cons] at hone
      exact List.length_eq_zero_iff.mp
        (Nat.le_zero.mp (Nat.le_of_succ_le_succ hone))
    subst hrest
    exact ⟨fun _ => Or.inr hcolumn, fun _ => rfl⟩

theorem addAfterFirst_keeps (putme : List FormatNode) (names : List String) :
    lists.Keeps (addAfterFirst putme names) (formatNodes putme) (fun found =>
      formatNodes (unlinked found putme)) := by
  induction names with
  | nil =>
      exact Ledger.Keeps.pure rfl
  | cons findme others ih =>
      unfold addAfterFirst
      apply (fmtAddAfter_keeps findme putme).bind
      intro found _
      cases found with
      | true => exact Ledger.Keeps.pure rfl
      | false => exact ih

theorem addAfterFirst_found {putme : List FormatNode} {names : List String} :
    forall {b b' : State} {found : Bool},
    addAfterFirst putme names b = .ok (found, b') ->
      (found = true <-> putme ≠ [] ∧ exists name, name ∈ names ∧
        HasColumn name b) := by
  induction names with
  | nil =>
      intro b b' found h
      cases h
      constructor
      · intro hfalse
        cases hfalse
      · intro hsome
        rcases hsome with ⟨_, name, hname, _⟩
        cases hname
  | cons findme others ih =>
      intro b b' found h
      unfold addAfterFirst at h
      rcases Ledger.bind_returns h with ⟨first, c, hfirst, hrun⟩
      rcases fmtAddAfter_cases hfirst with
        ⟨rfl, rfl, hnone⟩ | ⟨rfl, hcolumn, node, rest, _, rfl, _, _⟩
      · rw [ih hrun]
        constructor
        · intro hsome
          rcases hsome with ⟨hputme, name, hname, hthere⟩
          exact ⟨hputme, name, List.mem_cons_of_mem findme hname, hthere⟩
        · intro hsome
          rcases hsome with ⟨hputme, name, hname, hthere⟩
          rcases List.mem_cons.mp hname with rfl | hname
          · exact absurd hthere (hnone.resolve_left hputme)
          · exact ⟨hputme, name, hname, hthere⟩
      · cases hrun
        exact ⟨fun _ => ⟨List.cons_ne_nil node rest, findme, List.mem_cons_self,
          hcolumn⟩, fun _ => rfl⟩

/-- The two ways that a column is deleted: it is not there, or it is given back. -/
theorem fmtDelete_cases {findme : String} {b b' : State} {u : Unit}
    (h : fmtDelete findme b = .ok (u, b')) :
    b' = b ∨ exists old, old ∈ b.globals.formatList ∧
      b' = { b with
        freed := b.freed ++ [old.node]
        globals :=
          { b.globals with formatList := b.globals.formatList.erase old } } := by
  rcases Ledger.bind_returns h with ⟨g, c, hg, h⟩
  cases hg
  cases hlist : b.globals.formatList with
  | nil =>
      simp only [hlist] at h
      cases h
  | cons first others =>
      simp only [hlist] at h
      cases hfind : (first :: others).find? (fun node =>
        node.name == bytes findme) with
      | none =>
          simp only [hfind] at h
          cases h
          exact Or.inl rfl
      | some old =>
          simp only [hfind] at h
          rcases Ledger.bind_returns h with ⟨_, d, hfree, hmodify⟩
          cases hfree
          cases hmodify
          exact Or.inr ⟨old, List.mem_of_find?_eq_some hfind, rfl⟩

theorem fmtDelete_keeps (findme : String) : lists.Keeps (fmtDelete findme) []
    (fun _ => []) := by
  intro b u b' h
  rcases fmtDelete_cases h with rfl | ⟨old, hold, rfl⟩
  · exact Ledger.Moved.refl b' []
  · apply moved_formatList
    intro n
    have hperm : (formatNodes b.globals.formatList).Perm
        (old.node :: formatNodes (b.globals.formatList.erase old)) :=
      (List.perm_cons_erase hold).map FormatNode.node
    have hcount := hperm.count_eq n
    rw [List.count_cons] at hcount
    rw [List.count_append, List.count_singleton, List.count_nil]
    omega

theorem pushFormats_keeps (nodes : List FormatNode) :
    lists.Keeps (pushFormats nodes) (formatNodes nodes) (fun _ => []) := by
  apply Ledger.Keeps.modify
  intro b
  apply moved_formatList
  intro n
  have hperm : (formatNodes nodes.reverse).Perm (formatNodes nodes) :=
    (List.reverse_perm nodes).map FormatNode.node
  rw [formatNodes_append, List.count_append, List.count_nil, hperm.count_eq]
  omega

theorem pushNode_keeps (node : FormatNode) :
    lists.Keeps
      (modifyGlobals (fun g => { g with formatList := node :: g.formatList }))
      [node.node] (fun _ => []) :=
  pushFormats_keeps [node]

/-!
# The format that SysV lists
-/

section Sysv

variable {ctx : Context} (own : OwnColumns ctx.tables)

include own

theorem doOneSpec_own {spec : String} (hspec : spec ∈ ownSpecs)
    {nodes : List FormatNode}
    (h : Returns (doOneSpec ctx (bytes spec) none) nodes) : nodes.length <= 1 := by
  rw [doOneSpec_length h, columns]
  cases ctx.tables.searchFormatArray (bytes spec) with
  | some fs =>
      exact Nat.le_refl 1
  | none =>
      rw [own spec hspec]
      exact Nat.zero_le 1

theorem pushSpec_keeps {spec : String} (hspec : spec ∈ ownSpecs) :
    lists.Keeps (pushSpec ctx spec) [] (fun _ => []) := by
  unfold pushSpec
  apply (doOneSpec_keeps (bytes spec) none).bind
  intro nodes hnodes
  have hone := doOneSpec_own own hspec hnodes
  cases nodes with
  | nil =>
      exact stop_keeps
  | cons node rest =>
      have hrest : rest = [] := by
        rw [List.length_cons] at hone
        exact List.length_eq_zero_iff.mp
          (Nat.le_zero.mp (Nat.le_of_succ_le_succ hone))
      subst hrest
      exact pushNode_keeps node

theorem pushWhen_keeps (condition : Bool) {spec : String}
    (hspec : spec ∈ ownSpecs) :
    lists.Keeps (pushWhen ctx condition spec) [] (fun _ => []) := by
  unfold pushWhen
  split
  · exact pushSpec_keeps own hspec
  · exact Ledger.Keeps.pure rfl

omit own in
theorem pushLiteral_keeps (text : String) : lists.Keeps (pushLiteral text) []
    (fun _ => []) := by
  unfold pushLiteral
  exact (literalNode_keeps (bytes text)).bind (fun node _ => pushNode_keeps node)

theorem pushEither_keeps (condition : Prop) [Decidable condition]
    {spec spec' : String} (hspec : spec ∈ ownSpecs)
    (hspec' : spec' ∈ ownSpecs) :
    lists.Keeps (pushSpec ctx (if condition then spec else spec')) []
    (fun _ => []) := by
  split
  · exact pushSpec_keeps own hspec
  · exact pushSpec_keeps own hspec'

/-- What the branches have in common behind them is taken from the last part to
the first. -/
theorem generateSysvList_keeps : lists.Keeps (generateSysvList ctx) []
    (fun _ => []) := by
  unfold generateSysvList
  apply globals_keeps.bind
  intro g _
  extract_lets ff fm per tf state user priority size tty
  have hstate : forall u, lists.Keeps (state u) [] (fun _ => []) := by
    intro u
    unfold state
    repeat refine (pushWhen_keeps own _ (by decide)).bind (fun _ _ => ?_)
    exact Ledger.Keeps.pure rfl
  have huser : forall u, lists.Keeps (user u) [] (fun _ => []) := by
    intro u
    unfold user
    repeat refine (pushWhen_keeps own _ (by decide)).bind (fun _ _ => ?_)
    refine (pushSpec_keeps own (by decide)).bind (fun _ _ => ?_)
    split
    · exact (pushEither_keeps own _ (by decide) (by decide)).bind
        (fun u _ => hstate u)
    · exact (pushWhen_keeps own _ (by decide)).bind (fun u _ => hstate u)
  have hpriority : forall u, lists.Keeps (priority u) [] (fun _ => []) := by
    intro u
    unfold priority
    split
    · refine (pushSpec_keeps own (by decide)).bind (fun _ _ => ?_)
      exact (pushSpec_keeps own (by decide)).bind (fun u _ => huser u)
    · split
      · refine (pushSpec_keeps own (by decide)).bind (fun _ _ => ?_)
        exact (pushEither_keeps own _ (by decide) (by decide)).bind
          (fun u _ => huser u)
      · exact huser ()
  have hsize : forall u, lists.Keeps (size u) [] (fun _ => []) := by
    intro u
    unfold size
    refine (pushWhen_keeps own _ (by decide)).bind (fun _ _ => ?_)
    split
    · have hcolumn : lists.Keeps (pushSpec ctx
          (if fm fmy = true then "rss" else if per (perZapAddr ||| perIrixl) =
            true then "sgi_p" else "addr_1"))
          [] (fun _ => []) := by
        split
        · exact pushSpec_keeps own (by decide)
        · exact pushEither_keeps own _ (by decide) (by decide)
      exact hcolumn.bind (fun u _ => hpriority u)
    · exact hpriority ()
  have htty : forall u, lists.Keeps (tty u) [] (fun _ => []) := by
    intro u
    unfold tty
    refine (pushSpec_keeps own (by decide)).bind (fun _ _ => ?_)
    repeat refine (pushWhen_keeps own _ (by decide)).bind (fun _ _ => ?_)
    split
    · refine (pushSpec_keeps own (by decide)).bind (fun _ _ => ?_)
      exact (pushLiteral_keeps ":").bind (fun u _ => hsize u)
    · exact hsize ()
  split
  · exact Ledger.Keeps.pure rfl
  · split
    · refine (pushEither_keeps own _ (by decide) (by decide)).bind (fun _ _ => ?_)
      refine (pushSpec_keeps own (by decide)).bind (fun _ _ => ?_)
      exact (pushWhen_keeps own _ (by decide)).bind (fun u _ => htty u)
    · refine (pushEither_keeps own _ (by decide) (by decide)).bind (fun _ _ => ?_)
      exact (pushSpec_keeps own (by decide)).bind (fun u _ => htty u)

end Sysv

/-!
# Modifications
-/

def ColumnLands (ctx : Context) (spec findme : String) : State -> Prop :=
  after (doOneSpec ctx (bytes spec) none) (Lands findme)

def ModifyJKept (ctx : Context) : State -> Prop :=
  after (doOneSpec ctx (bytes "pgid") none) (fun fn =>
    after (addAfterFirst fn ["PPID", "PID"]) (fun found c => found = true ->
      ColumnLands ctx "sid" "PGID" c))

def ModifyYKept (ctx : Context) : State -> Prop :=
  after (fmtDelete "F") (fun _ => ColumnLands ctx "rss" "ADDR")

def replaceClass (ctx : Context) : Run Unit := do
  fmtDelete "%CPU"
  fmtDelete "CPU"
  fmtDelete "CP"
  fmtDelete "C"
  fmtDelete "NI"
  let fn <- doOneSpec ctx (bytes "class") none
  if !(<- fmtAddAfter "PRI" fn) then stop .exit
  fmtDelete "PRI"

def ModifyCKept (ctx : Context) : State -> Prop :=
  after (replaceClass ctx) (fun _ => ColumnLands ctx "pri" "CLS")

def lwpPlaces : List String :=
  ["SID", "SESS", "PGID", "PGRP", "PPID", "PID"]

def LwpLands (fn : List FormatNode) (b : State) : Prop :=
  fn = [] ∨ exists name, name ∈ lwpPlaces ∧ HasColumn name b

/-- One of the columns is there that `LWP` is to follow, and `%CPU` is there
when `NLWP` is to follow it. -/
def ModifyLKept (ctx : Context) (g : Globals) : State -> Prop :=
  after (doOneSpec ctx (bytes "lwp") none) (fun fn b =>
    LwpLands fn b ∧
      after (addAfterFirst fn lwpPlaces) (fun found c =>
        (found = true ∨ has g.threadFlags tfMustUse = false) ->
          ColumnLands ctx "nlwp" "%CPU" c) b)

def changes (ctx : Context) (g : Globals) :
    List ((Bool × Run (Option Err)) × (State -> Prop)) :=
  [((has g.formatModifiers fmj, modifyJ ctx), ModifyJKept ctx),
    ((has g.formatModifiers fmy, modifyY ctx), ModifyYKept ctx),
    ((has g.formatModifiers fmc, modifyC ctx), ModifyCKept ctx),
    ((has g.threadFlags tfUT, modifyT ctx), ColumnLands ctx "spid" "PID"),
    ((has g.threadFlags tfUL, modifyL ctx), fun b => ModifyLKept ctx b.globals b),
    ((has g.formatModifiers fmM, modifyM ctx), fun _ => True),
    ((has g.personality perZapAddr && has g.formatFlags ffUl, do
      replaceColumn ctx "sgi_p" "ADDR"
      return none), ColumnLands ctx "sgi_p" "ADDR"),
    ((has g.personality perSaneUser && has g.formatFlags ffUf, do
      replaceColumn ctx "user" "UID"
      return none), ColumnLands ctx "user" "UID")]

def ChangesKept : List ((Bool × Run (Option Err)) × (State -> Prop)) -> State ->
    Prop
  | [], _ => True
  | ((condition, change), kept) :: others, b =>
      if condition then kept b ∧ after change (fun err c => err = none ->
        ChangesKept others c) b
      else ChangesKept others b

section Modifications

variable {ctx : Context} (own : OwnColumns ctx.tables)

/-- A column of the code's own is lost if it is to follow one that is not there. -/
theorem addColumn_accounts (own : OwnColumns ctx.tables) {spec : String}
    (hspec : spec ∈ ownSpecs) (findme : String)
    {value : Type} {rest : Bool -> Run value} {held' : value -> List Nat}
    (hrest : forall found, lists.Keeps (rest found) [] held') :
    lists.Accounts (doOneSpec ctx (bytes spec) none >>= fun fn =>
      fmtAddAfter findme fn >>= fun found => rest found)
      [] held' (ColumnLands ctx spec findme) := by
  apply (doOneSpec_keeps (bytes spec) none).bind_accounts
  intro fn hfn
  exact (fmtAddAfter_accounts findme (doOneSpec_own own hspec hfn)).bind_keeps
    (fun found _ => hrest found)

include own

theorem replaceColumn_accounts {spec : String} (hspec : spec ∈ ownSpecs)
    (findme : String) :
    lists.Accounts (replaceColumn ctx spec findme) [] (fun _ => [])
      (ColumnLands ctx spec findme) := by
  unfold replaceColumn
  apply addColumn_accounts own hspec findme
  intro found
  split
  · exact fmtDelete_keeps findme
  · exact Ledger.Keeps.pure rfl

theorem modifyJ_accounts : lists.Accounts (modifyJ ctx) [] (fun _ => [])
    (ModifyJKept ctx) := by
  unfold modifyJ
  apply (doOneSpec_keeps (bytes "pgid") none).bind_accounts
  intro fn hfn
  have hone := doOneSpec_own own (by decide) hfn
  apply (addAfterFirst_keeps fn ["PPID", "PID"]).bind_accounts
  intro found hfound
  cases found with
  | false =>
      exact Ledger.Keeps.accounts (Ledger.Keeps.of_error
        (fun _ => ⟨.exit, rfl⟩)) (fun _ _ _ _ h => (nomatch h))
  | true =>
      rw [unlinked_of_own hone]
      refine (addColumn_accounts own (by decide) "PGID" (fun found => ?_)).congr
        (fun _ _ _ _ => ⟨fun h _ => h, fun h => h rfl⟩)
      split
      · exact Ledger.Keeps.pure rfl
      · exact Ledger.Keeps.pure rfl

theorem modifyY_accounts : lists.Accounts (modifyY ctx) [] (fun _ => [])
    (ModifyYKept ctx) := by
  unfold modifyY
  apply (fmtDelete_keeps "F").bind_accounts
  intro _ _
  exact (replaceColumn_accounts own (by decide) "ADDR").bind_keeps
    (fun _ _ => Ledger.Keeps.pure rfl)

theorem replaceClass_keeps : lists.Keeps (replaceClass ctx) [] (fun _ => []) := by
  unfold replaceClass
  apply (fmtDelete_keeps "%CPU").bind
  intro _ _
  apply (fmtDelete_keeps "CPU").bind
  intro _ _
  apply (fmtDelete_keeps "CP").bind
  intro _ _
  apply (fmtDelete_keeps "C").bind
  intro _ _
  apply (fmtDelete_keeps "NI").bind
  intro _ _
  apply (doOneSpec_keeps (bytes "class") none).bind
  intro fn hfn
  have hone := doOneSpec_own own (by decide) hfn
  apply (fmtAddAfter_keeps "PRI" fn).bind
  intro found _
  cases found with
  | false =>
      exact Ledger.Keeps.of_error (fun _ => ⟨.exit, rfl⟩)
  | true =>
      rw [unlinked_of_own hone]
      exact fmtDelete_keeps "PRI"

omit own in
theorem modifyC_eq : modifyC ctx = replaceClass ctx >>= fun _ => doOneSpec ctx
    (bytes "pri") none >>= fun fn =>
    fmtAddAfter "CLS" fn >>= fun found => if found then return none
      else return some (.text "lost my CLS") := by
  unfold modifyC replaceClass
  simp only [bind_assoc]
  repeat refine bind_congr (fun _ => ?_)
  split
  · rw [bind_assoc]
  · rfl

theorem modifyC_accounts : lists.Accounts (modifyC ctx) [] (fun _ => [])
    (ModifyCKept ctx) := by
  rw [modifyC_eq]
  apply (replaceClass_keeps own).bind_accounts
  intro _ _
  apply addColumn_accounts own (by decide) "CLS"
  intro found
  split
  · exact Ledger.Keeps.pure rfl
  · exact Ledger.Keeps.pure rfl

theorem modifyT_accounts : lists.Accounts (modifyT ctx) [] (fun _ => [])
    (ColumnLands ctx "spid" "PID") := by
  unfold modifyT
  apply globals_accounts (fun _ => ColumnLands ctx "spid" "PID")
  intro g
  apply addColumn_accounts own (by decide) "PID"
  intro found
  split
  · exact Ledger.Keeps.pure rfl
  · exact Ledger.Keeps.pure rfl

theorem modifyM_accounts : lists.Accounts (modifyM ctx) [] (fun _ => [])
    (fun _ => True) := by
  unfold modifyM
  refine ((pushSpec_keeps own (by decide)).bind (fun _ _ => ?_)).accounts
    (fun _ _ _ _ => trivial)
  exact Ledger.Keeps.pure rfl

omit own in
theorem placeLwp_accounts {fn : List FormatNode} (hone : fn.length <= 1) :
    lists.Accounts (addAfterFirst fn lwpPlaces) (formatNodes fn) (fun _ => [])
      (LwpLands fn) := by
  apply (addAfterFirst_keeps fn lwpPlaces).drop
  intro b found b' hplace
  have hfound := addAfterFirst_found hplace
  cases found with
  | true =>
      rw [unlinked_of_own hone]
      exact ⟨fun _ => Or.inr (hfound.mp rfl).right, fun _ => rfl⟩
  | false =>
      rw [unlinked, if_neg Bool.false_ne_true, formatNodes, List.map_eq_nil_iff]
      constructor
      · exact Or.inl
      · intro hlands
        by_contra hfn
        exact absurd (hfound.mpr ⟨hfn, hlands.resolve_left hfn⟩) Bool.false_ne_true

theorem modifyL_accounts :
    lists.Accounts (modifyL ctx) [] (fun _ => []) (fun b =>
      ModifyLKept ctx b.globals b) := by
  unfold modifyL
  apply globals_accounts (ModifyLKept ctx)
  intro g
  apply (doOneSpec_keeps (bytes "lwp") none).bind_accounts
  intro fn hfn
  apply (placeLwp_accounts (doOneSpec_own own (by decide) hfn)).bind
  intro found _
  split
  · next hrefused =>
      rw [Bool.and_eq_true, Bool.not_eq_true'] at hrefused
      refine Ledger.Keeps.accounts (Ledger.Keeps.pure rfl) (fun _ _ _ _ h => ?_)
      rcases h with hfound | hmust
      · rw [hrefused.left] at hfound
        cases hfound
      · rw [hrefused.right] at hmust
        cases hmust
  · next hgoes =>
      have hplaced : found = true ∨ has g.threadFlags tfMustUse = false := by
        cases found with
        | true => exact Or.inl rfl
        | false => exact Or.inr (by simpa using hgoes)
      exact (addColumn_accounts own (by decide) "%CPU"
        (fun _ => Ledger.Keeps.pure rfl)).congr
        (fun _ _ _ _ => ⟨fun h _ => h, fun h => h hplaced⟩)

end Modifications

end Ps
end Lepd
