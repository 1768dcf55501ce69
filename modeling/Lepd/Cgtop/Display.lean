import Lepd.CJson.Printer
import Lepd.Cgtop.Process
import Lepd.Foundation.Columns

/-!
# What cgtop writes

`display` sends the pieces of a row to two streams: the one that it was given,
and the standard output of the daemon.
-/

namespace Lepd
namespace Cgtop

open Foundation
open Foundation.RingHeap (Ring)
open Ps (Text bytes byte)
open CJson (decimalText)

/-- What has been written to `out_fp` and to `stdout`. -/
structure Streams where
  outFp : Text
  stdout : Text

abbrev Writing := Program Streams

def fprintf (text : Text) : Writing Unit :=
  fun s => some ((), { s with outFp := s.outFp ++ text })

def printf (text : Text) : Writing Unit :=
  fun s => some ((), { s with stdout := s.stdout ++ text })

def header : Text :=
  bytes ("-----------------------path----------------------\t-task-\t" ++
    "  ----cpu(%)----\t-memory(MB)-\t-input(bp/s)-\t-output(bp/s)-\n")

def tab : Text :=
  [9]

def eightBlanks : Text :=
  List.replicate 8 32

def pathAndTasks (group : Cgroup) : Text :=
  padRight 32 50 group.path ++
    (tab ++ padLeft 32 4 (decimalText group.tasks.toInt32.toInt))

def numberColumn (n : UInt64) : Text :=
  if n = 0 then padLeft 32 8 (bytes "-")
  else padLeft 32 5 (decimalText n.toInt64.toInt)

section Display

variable {addr : Type} [DecidableEq addr]

variable (percent : UInt64 × UInt64 -> Text)

/-- `percent` is what `%9.2lf` writes of the quotient of two numbers, in percent. -/
def cpuColumn (fraction : Option (UInt64 × UInt64)) : Text :=
  match fraction with
  | none => padLeft 32 8 (bytes "-")
  | some quotient => percent quotient

def displayGroup (group : Cgroup) : Writing Unit := do
  if group.tasks ≠ 0 then
    printf (pathAndTasks group)
    fprintf (tab ++ cpuColumn percent group.cpuFraction)
    fprintf (tab ++ numberColumn group.memory)
    fprintf (eightBlanks ++ numberColumn group.ioInBps)
    fprintf (eightBlanks ++ numberColumn group.ioOutBps)
    fprintf [newline]

def displayFrom (heap : RingHeap Cgroup addr) (head : addr) :
    Nat -> Option addr -> Writing Unit
  | 0, _ => fun _ => none
  | fuel + 1, p => do
      let a <- StateT.lift p
      if a = head then return
      let group <- StateT.lift (heap.itemOf a)
      displayGroup percent group
      displayFrom heap head fuel (heap.prevOf a)

/-- `display(out_fp)` -/
def displayTo (heap : RingHeap Cgroup addr) (head : addr) (fuel : Nat) :
    Writing Unit := do
  fprintf header
  displayFrom percent heap head fuel (heap.prevOf head)

def columns (group : Cgroup) : Text :=
  tab ++ cpuColumn percent group.cpuFraction ++
    (tab ++ numberColumn group.memory) ++
    (eightBlanks ++ numberColumn group.ioInBps) ++
    (eightBlanks ++ numberColumn group.ioOutBps) ++ [newline]

def line (group : Cgroup) : Text :=
  pathAndTasks group ++ columns percent group

def shown (groups : List Cgroup) : List Cgroup :=
  groups.filter (fun group => group.tasks ≠ 0)

/-- The header and a line for each group with a task are in the reply, and
nothing is elsewhere. -/
structure Complete (groups : List Cgroup) (s : Streams) : Prop where
  reply : s.outFp = header ++ (shown groups).flatMap (line percent)
  elsewhere : s.stdout = []

/-!
# The loop
-/

theorem displayGroup_run (group : Cgroup) (s : Streams) :
    displayGroup percent group s =
      some ((), ⟨s.outFp ++ (shown [group]).flatMap (columns percent),
      s.stdout ++ (shown [group]).flatMap pathAndTasks⟩) := by
  unfold displayGroup shown
  by_cases h : group.tasks = 0
  · simp [h]
  · have hone : [group].filter (fun group => group.tasks ≠ 0) = [group] := by
      simp [h]
    rw [if_pos h, hone]
    simp [fprintf, printf, columns]

theorem displayFrom_some (heap : RingHeap Cgroup addr) (head : addr)
    (fuel : Nat) (a : addr) (s : Streams) :
    displayFrom percent heap head (fuel + 1) (some a) s =
      if a = head then some ((), s)
      else (heap.itemOf a).bind (fun group => (displayGroup percent group s).bind
        (fun r => displayFrom percent heap head fuel (heap.prevOf a) r.2)) := by
  show (if a = head then (pure () : Writing Unit) else _) s = _
  split
  · rfl
  · cases heap.itemOf a with
    | none => rfl
    | some group => rfl

/-- What the loop writes for the nodes that the `prev` pointers lead through. -/
theorem displayFrom_run {heap : RingHeap Cgroup addr} {head : addr} {fuel : Nat} :
    forall {p : Option addr} {nodes : List addr}, heap.backward head fuel p =
      some nodes ->
      (forall a, a ∈ nodes -> heap.itemOf a ≠ none) -> forall s : Streams,
        displayFrom percent heap head fuel p s = some ((),
          ⟨s.outFp ++ (shown (nodes.filterMap heap.itemOf)).flatMap
            (columns percent),
            s.stdout ++ (shown (nodes.filterMap heap.itemOf)).flatMap
              pathAndTasks⟩) := by
  induction fuel with
  | zero =>
      intro p nodes h
      cases h
  | succ fuel ih =>
      intro p nodes h hitems s
      cases p with
      | none =>
          cases h
      | some a =>
          rw [RingHeap.backward, Option.bind_eq_bind, Option.bind_some] at h
          by_cases ha : a = head
          · rw [if_pos ha] at h
            cases h
            rw [displayFrom_some, if_pos ha]
            simp [shown]
          · rw [if_neg ha] at h
            rcases Option.bind_eq_some_iff.mp h with ⟨rest, hrest, hnodes⟩
            cases hnodes
            have hrun := ih hrest (fun b hb => hitems b (List.mem_cons_of_mem a hb))
            cases hitem : heap.itemOf a with
            | none =>
                exact absurd hitem (hitems a List.mem_cons_self)
            | some group =>
                have hshown : shown ((a :: rest).filterMap heap.itemOf) =
                    shown [group] ++ shown (rest.filterMap heap.itemOf) := by
                  rw [List.filterMap_cons_some hitem, shown, shown, shown,
                    ← List.filter_append]
                  rfl
                rw [displayFrom_some, if_neg ha, hitem, Option.bind_some,
                  displayGroup_run, Option.bind_some, hrun, hshown,
                  List.flatMap_append, List.flatMap_append, List.append_assoc,
                    List.append_assoc]

/-- The pieces of the rows, in the order in which the groups were put in. -/
theorem displayTo_run {heap : RingHeap Cgroup addr} {head : addr}
    {as : List addr} (h : Ring heap head as) {fuel : Nat}
    (hfuel : as.length < fuel) (s : Streams) :
    displayTo percent heap head fuel s = some ((),
      ⟨s.outFp ++ (header ++ (shown (as.reverse.filterMap heap.itemOf)).flatMap
        (columns percent)),
        s.stdout ++ (shown (as.reverse.filterMap heap.itemOf)).flatMap
          pathAndTasks⟩) := by
  have hbackward := RingHeap.backward_mono hfuel h.backward
  have hitems : forall a, a ∈ as.reverse -> heap.itemOf a ≠ none := fun a ha =>
    h.allocated a (List.mem_cons_of_mem head (List.mem_reverse.mp ha))
  show displayFrom percent heap head fuel (heap.prevOf head)
    { s with outFp := s.outFp ++ header } = _
  rw [displayFrom_run percent hbackward hitems, List.append_assoc]

theorem pathAndTasks_ne_nil (group : Cgroup) : pathAndTasks group ≠ [] :=
  List.append_ne_nil_of_right_ne_nil _
    (List.append_ne_nil_of_left_ne_nil (List.cons_ne_nil 9 []) _)

theorem complete_iff (groups : List Cgroup) :
    Complete percent groups ⟨header ++ (shown groups).flatMap (columns percent),
      (shown groups).flatMap pathAndTasks⟩ <->
      forall group, group ∈ groups -> group.tasks = 0 := by
  constructor
  · intro h group hgroup
    by_contra htasks
    have hshown : group ∈ shown groups :=
      List.mem_filter.mpr ⟨hgroup, decide_eq_true htasks⟩
    have hempty := List.flatMap_eq_nil_iff.mp h.elsewhere group hshown
    exact pathAndTasks_ne_nil group hempty
  · intro h
    have hnone : shown groups = [] :=
      List.filter_eq_nil_iff.mpr (fun group hgroup htasks =>
        of_decide_eq_true htasks (h group hgroup))
    constructor
    · show header ++ (shown groups).flatMap (columns percent) = header ++
        (shown groups).flatMap (line percent)
      rw [hnone, List.flatMap_nil, List.flatMap_nil]
    · show (shown groups).flatMap pathAndTasks = []
      rw [hnone, List.flatMap_nil]

theorem displayTo_rows {w w' : World} {as : List Nat}
    (h : Ring w.heap w.head as) (hfuel : as.length < w.fresh + 1)
    (hrows : display w = some ((), w')) : displayTo percent w.heap w.head
    (w.fresh + 1) ⟨[], []⟩ =
      some ((), ⟨header ++ w'.rows.flatMap (columns percent),
        w'.rows.flatMap pathAndTasks⟩) := by
  rw [display, RingHeap.backward_mono hfuel h.backward] at hrows
  cases hrows
  have hsame : shown (as.reverse.filterMap w.heap.itemOf) =
      (as.reverse.filterMap w.heap.itemOf).filter
        (fun group => group.tasks != 0) := by
    apply List.filter_congr
    intro group _
    by_cases hzero : group.tasks = 0
    · simp [hzero]
    · simp [hzero]
  rw [displayTo_run percent h hfuel, hsame, List.nil_append, List.nil_append]

/-- `display` writes the complete reply if and only if no group has a task. -/
theorem displayTo_complete_iff {heap : RingHeap Cgroup addr} {head : addr}
    {as : List addr} (h : Ring heap head as)
    {fuel : Nat} (hfuel : as.length < fuel) :
    exists s, displayTo percent heap head fuel ⟨[], []⟩ = some ((), s) ∧
      (Complete percent (as.reverse.filterMap heap.itemOf) s <->
        forall group, group ∈ as.filterMap heap.itemOf -> group.tasks = 0) := by
  refine ⟨_, displayTo_run percent h hfuel ⟨[], []⟩, ?_⟩
  rw [List.nil_append, List.nil_append, complete_iff, List.filterMap_reverse]
  constructor
  · intro hnone group hgroup
    exact hnone group (List.mem_reverse.mpr hgroup)
  · intro hnone group hgroup
    exact hnone group (List.mem_reverse.mp hgroup)

end Display

/-- A list with one group. -/
def oneGroup (tasks : UInt32) : RingHeap Cgroup Nat
  | 0 => some ⟨.blank, some 1, some 1⟩
  | 1 => some ⟨{ Cgroup.blank with path := bytes "/a", tasks := tasks }, some 0,
      some 0⟩
  | _ => none

theorem oneGroup_ring (tasks : UInt32) : Ring (oneGroup tasks) 0 [1] where
  linked := ⟨rfl, rfl, rfl, rfl, trivial⟩
  allocated a ha := by
    rcases List.mem_cons.mp ha with rfl | ha
    · exact Option.some_ne_none _
    · rw [List.mem_singleton.mp ha]
      exact Option.some_ne_none _
  distinct := by decide

theorem displayTo_complete_idle : exists s, displayTo (fun _ => [])
    (oneGroup 0) 0 2 ⟨[], []⟩ = some ((), s) ∧
    Complete (fun _ => []) ([1].reverse.filterMap (oneGroup 0).itemOf) s := by
  rcases displayTo_complete_iff (fun _ => []) (oneGroup_ring 0)
    (Nat.lt_succ_self 1) with ⟨s, hrun, hiff⟩
  refine ⟨s, hrun, hiff.mpr ?_⟩
  intro group hgroup
  cases List.mem_singleton.mp hgroup
  rfl

/-- The path of a group with tasks is written to the standard output of the
daemon. -/
theorem displayTo_incomplete : exists s, displayTo (fun _ => [])
    (oneGroup 5) 0 2 ⟨[], []⟩ = some ((), s) ∧
    ¬ Complete (fun _ => []) ([1].reverse.filterMap (oneGroup 5).itemOf) s ∧
      s.stdout =
        bytes "/a                                                \t   5" := by
  refine ⟨_, displayTo_run (fun _ => []) (oneGroup_ring 5) (Nat.lt_succ_self 1)
    ⟨[], []⟩, ?_, ?_⟩
  · intro h
    exact absurd h.elsewhere (by decide)
  · decide

end Cgtop
end Lepd
