import Lepd.Foundation.Qsort
import Lepd.Iotop.Sort
import Lepd.Ps.SortFormat

/-!
# Processes in order

What ps has read of a process, and the order in which processes are shown: the
nodes of `sort_list` one after the other, until one of them tells two processes
apart.
-/

namespace Lepd
namespace Ps

open Foundation
open Iotop (strcmp)

/-- What is read of a process, or of a thread. -/
structure ProcT where
  tid : Nat
  tgid : Nat
  ppid : Nat
  pgrp : Nat
  session : Nat
  tty : Nat
  euid : UInt32
  egid : UInt32
  ruid : UInt32
  rgid : UInt32
  state : UInt8
  cmd : Text
  startTime : Nat
deriving DecidableEq

def cstring (text : Text) : Text :=
  text.takeWhile (fun c => c ≠ 0)

/--
The functions `sr_*` of `output.c`, by the macros they are made with. A field
that `ProcT` leaves out is a function of the process. The values of a `CMP_SMALL`
differ by no more than an `int` holds. `sr_cgroup` is a `str` where the control
groups of every process were read; elsewhere it reads through a null pointer.
-/
inductive Compare where
  | nop
  | str (field : ProcT -> Text)
  | int (field : ProcT -> Int)
  | small (field : ProcT -> Int)

def cmpInt (p q : Int) : Int :=
  if p < q then -1 else if p > q then 1 else 0

def Compare.sr : Compare -> ProcT -> ProcT -> Int
  | .nop, _, _ => 0
  | .str field, P, Q => strcmp (cstring (field P)) (cstring (field Q))
  | .int field, P, Q => cmpInt (field P) (field Q)
  | .small field, P, Q => field P - field Q

/-- The comparisons that the tables name. -/
structure Comparisons (tables : Tables) where
  sr : Text -> Compare
  sr_ppid : forall incoming, tables.searchFormatArray (bytes "ppid") =
    some incoming ->
    sr incoming.sr = .small (fun P => P.ppid)

def compareNode (sr : Text -> Compare) (node : SortNode) (a b : ProcT) : Int :=
  if node.reverse then -(sr node.sr).sr a b else (sr node.sr).sr a b

/-- Compare function for qsort. -/
def compareTwoProcs (sr : Text -> Compare) (sortList : List SortNode) :
    ProcT -> ProcT -> Int :=
  firstOf (sortList.map (compareNode sr))

def pushSort (ctx : Context) (name : String) : Run Unit :=
  match ctx.tables.searchFormatArray (bytes name) with
  | none => stop .exit
  | some incoming => do
      let node <- newNode
      modifyGlobals (fun g => { g with
        sortList :=
          { node := node, sr := incoming.sr, reverse := false,
            need := incoming.need } :: g.sortList })

def prepForestSort (ctx : Context) : Run Unit := do
  let g <- globals
  if g.sortList = [] then pushSort ctx "start_time"
  pushSort ctx "ppid"

/-!
# The comparisons order the processes
-/

theorem strcmp_eq_zero (s : Text) : forall t : Text, (0 : UInt8) ∉ s ->
    (0 : UInt8) ∉ t -> strcmp s t = 0 -> s = t := by
  induction s with
  | nil =>
      intro t _ ht hzero
      cases t with
      | nil => rfl
      | cons d ds =>
          have hd : d ≠ 0 := fun hd => ht (hd ▸ List.mem_cons_self)
          unfold strcmp at hzero
          exact absurd
            (UInt8.toNat_inj.mp (show d.toNat =
            (0 : UInt8).toNat by simpa using hzero)) hd
  | cons c cs ih =>
      intro t hs ht hzero
      have hc : c ≠ 0 := fun hc => hs (hc ▸ List.mem_cons_self)
      cases t with
      | nil =>
          unfold strcmp at hzero
          exact absurd
            (UInt8.toNat_inj.mp (show c.toNat =
            (0 : UInt8).toNat by simpa using hzero)) hc
      | cons d ds =>
          unfold strcmp at hzero
          split at hzero
          · next heq =>
              rw [heq, ih ds (fun h => hs (List.mem_cons_of_mem c h)) (fun h =>
                ht (List.mem_cons_of_mem d h)) hzero]
          · next hne =>
              have hsame : c.toNat = d.toNat := by omega
              exact absurd (UInt8.toNat_inj.mp hsame) hne

theorem cstring_not_mem (text : Text) : (0 : UInt8) ∉ cstring text := by
  intro hmem
  have h := List.mem_takeWhile_imp hmem
  exact of_decide_eq_true h rfl

theorem cmpInt_le {p q : Int} : cmpInt p q <= 0 <-> p <= q := by
  unfold cmpInt
  split
  · omega
  · split <;> omega

theorem le_cmpInt {p q : Int} : 0 <= cmpInt p q <-> q <= p := by
  unfold cmpInt
  split
  · omega
  · split <;> omega

theorem orders_sr (compare : Compare) : Orders compare.sr := by
  cases compare with
  | nop => exact ⟨fun _ _ => Iff.rfl, fun _ _ _ _ _ => Int.le_refl 0⟩
  | str field =>
      constructor
      · intro a b
        show strcmp _ _ <= 0 <-> 0 <= strcmp _ _
        rw [Iotop.strcmp_neg (cstring (field a))]
        omega
      · intro a b c hab hbc
        show strcmp _ _ <= 0
        -- If the first text were behind the third, it would be behind the
        -- second, or the second behind the third.
        by_contra hac
        have hab' : strcmp (cstring (field a)) (cstring (field b)) <= 0 := hab
        have hbc' : strcmp (cstring (field b)) (cstring (field c)) <= 0 := hbc
        have hba := Iotop.strcmp_neg (cstring (field a)) (cstring (field b))
        rcases Int.lt_or_eq_of_le hab' with hlt | heq
        · have htrans := Iotop.strcmp_trans _ _ _
            (show 0 < strcmp (cstring (field b)) (cstring (field a)) by omega)
            (show 0 < strcmp (cstring (field a)) (cstring (field c)) by omega)
          omega
        · rw [strcmp_eq_zero _ _ (cstring_not_mem _) (cstring_not_mem _) heq] at hac
          exact hac hbc'
  | int field =>
      constructor
      · intro a b
        exact cmpInt_le.trans le_cmpInt.symm
      · intro a b c hab hbc
        exact cmpInt_le.mpr (Int.le_trans (cmpInt_le.mp hab) (cmpInt_le.mp hbc))
  | small field =>
      constructor
      · intro a b
        show field a - field b <= 0 <-> 0 <= field b - field a
        omega
      · intro a b c hab hbc
        show field a - field c <= 0
        change field a - field b <= 0 at hab
        change field b - field c <= 0 at hbc
        omega

theorem orders_compareNode (sr : Text -> Compare) (node : SortNode) :
    Orders (compareNode sr node) := by
  cases hreverse : node.reverse with
  | false =>
      have heq : compareNode sr node = (sr node.sr).sr := by
        funext a b
        unfold compareNode
        rw [hreverse]
        rfl
      rw [heq]
      exact orders_sr _
  | true =>
      have heq : compareNode sr node = fun a b => -(sr node.sr).sr a b := by
        funext a b
        unfold compareNode
        rw [hreverse]
        rfl
      rw [heq]
      exact (orders_sr _).neg

theorem orders_compareTwoProcs (sr : Text -> Compare) (sortList : List SortNode) :
    Orders (compareTwoProcs sr sortList) := by
  apply orders_firstOf
  intro compar hcompar
  rcases List.mem_map.mp hcompar with ⟨node, _, rfl⟩
  exact orders_compareNode sr node

/-!
# Sorting for a forest
-/

/-- The order of siblings: the one that was asked for, or by start time. -/
def siblingKeys (start : FormatStruct) (s : State) : List SortNode :=
  if s.globals.sortList = [] then
    [{ node := s.nodes, sr := start.sr, reverse := false, need := start.need }]
  else s.globals.sortList

def withSort (incoming : FormatStruct) (s : State) : State :=
  { s with
    nodes := s.nodes + 1
    globals := { s.globals with sortList :=
      { node := s.nodes, sr := incoming.sr, reverse := false,
        need := incoming.need } :: s.globals.sortList } }

theorem pushSort_apply {ctx : Context} {name : String} {incoming : FormatStruct}
    (h : ctx.tables.searchFormatArray (bytes name) = some incoming) (s : State) :
    pushSort ctx name s = .ok ((), withSort incoming s) := by
  unfold pushSort
  rw [h]
  rfl

theorem prepForestSort_apply {ctx : Context} {start incoming : FormatStruct}
    (hstart : ctx.tables.searchFormatArray (bytes "start_time") = some start)
    (hppid : ctx.tables.searchFormatArray (bytes "ppid") = some incoming)
    (s : State) :
    exists (s' : State) (node : SortNode), prepForestSort ctx s = .ok ((), s') ∧
      node.sr = incoming.sr ∧
      node.reverse = false ∧ s'.globals =
        { s.globals with sortList := node :: siblingKeys start s } := by
  unfold siblingKeys
  by_cases hnil : s.globals.sortList = []
  · have hrun : prepForestSort ctx s =
        .ok ((), withSort incoming (withSort start s)) := by
      show (if s.globals.sortList = [] then (_ : Run Unit) else _) s = _
      rw [if_pos hnil]
      show (pushSort ctx "start_time" s).bind _ = _
      rw [pushSort_apply hstart]
      exact pushSort_apply hppid _
    refine ⟨withSort incoming (withSort start s),
      { node := s.nodes + 1, sr := incoming.sr, reverse := false,
        need := incoming.need }, hrun, rfl, rfl, ?_⟩
    rw [if_pos hnil, ← hnil]
    rfl
  · have hrun : prepForestSort ctx s = .ok ((), withSort incoming s) := by
      show (if s.globals.sortList = [] then (_ : Run Unit) else _) s = _
      rw [if_neg hnil]
      exact pushSort_apply hppid s
    refine ⟨withSort incoming s,
      { node := s.nodes, sr := incoming.sr, reverse := false,
        need := incoming.need }, hrun, rfl, rfl, ?_⟩
    rw [if_neg hnil]
    rfl

theorem compareTwoProcs_ppid {tables : Tables}
    {comparisons : Comparisons tables} {incoming : FormatStruct}
    (hppid : tables.searchFormatArray (bytes "ppid") = some incoming)
    {node : SortNode} (hsr : node.sr = incoming.sr)
    (hreverse : node.reverse = false) (a b : ProcT) :
    compareNode comparisons.sr node a b = (a.ppid : Int) - b.ppid := by
  unfold compareNode
  rw [hreverse, hsr, comparisons.sr_ppid incoming hppid]
  rfl

/-- Sorted for a forest, processes are in the order of their parents, and
siblings in that of the other keys. -/
theorem inOrder_siblings {tables : Tables} {comparisons : Comparisons tables}
    {incoming : FormatStruct}
    (hppid : tables.searchFormatArray (bytes "ppid") = some incoming)
    {node : SortNode} (hsr : node.sr = incoming.sr)
    (hreverse : node.reverse = false) {keys : List SortNode}
    {processes : List ProcT}
    (h : InOrder (compareTwoProcs comparisons.sr (node :: keys)) processes) :
    processes.Pairwise (fun a b => a.ppid <= b.ppid) ∧ forall k,
      InOrder (compareTwoProcs comparisons.sr keys)
        (processes.filter (fun p => p.ppid = k)) := by
  have hle : forall a b : ProcT, compareTwoProcs comparisons.sr
      (node :: keys) a b <= 0 ->
      a.ppid <= b.ppid ∧ (a.ppid = b.ppid ->
        compareTwoProcs comparisons.sr keys a b <= 0) := by
    intro a b hab
    rcases firstOf_le.mp hab with ⟨hfirst, hothers⟩
    rw [compareTwoProcs_ppid hppid hsr hreverse] at hfirst hothers
    exact ⟨by omega, fun heq => hothers (by omega)⟩
  constructor
  · exact h.imp (fun hab => (hle _ _ hab).left)
  · intro k
    apply List.Pairwise.imp_of_mem ?_ (h.filter (fun p => p.ppid = k))
    intro a b ha hb hab
    have ha' : a.ppid = k := of_decide_eq_true (List.mem_filter.mp ha).right
    have hb' : b.ppid = k := of_decide_eq_true (List.mem_filter.mp hb).right
    exact (hle a b hab).right (ha'.trans hb'.symm)

end Ps
end Lepd
