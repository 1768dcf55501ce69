import Lepd.CJson.Printer
import Lepd.Foundation.Columns
import Lepd.Foundation.Qsort
import Lepd.Ps.Globals

/-!
# The report of procrank

`procrank_main` from its arguments to the lines that it writes. What the kernel
interface tells of a process, and `qsort`, are parameters; allocation is taken
to succeed. The warnings on the standard error are left out.
-/

namespace Lepd
namespace Procrank

open Foundation
open Ps (Text bytes)
open CJson (decimalText)

/-- `pm_memusage_t` -/
structure Usage where
  vss : UInt64
  rss : UInt64
  pss : UInt64
  uss : UInt64
  swap : UInt64
deriving DecidableEq

def Usage.zero : Usage :=
  ⟨0, 0, 0, 0, 0⟩

structure ProcInfo where
  pid : Int
  usage : Usage
deriving DecidableEq

/-!
# Options
-/

inductive Field where
  | vss
  | rss
  | pss
  | uss
  | swap

def Field.of : Field -> Usage -> UInt64
  | .vss, usage => usage.vss
  | .rss, usage => usage.rss
  | .pss, usage => usage.pss
  | .uss, usage => usage.uss
  | .swap, usage => usage.swap

/-- `WS_OFF`, `WS_ONLY` and `WS_RESET`. -/
inductive Ws where
  | off
  | only
  | reset
deriving DecidableEq

structure Options where
  compfn : Field
  order : Int
  ws : Ws
  requiredFlags : UInt64
  flagsMask : UInt64

def Options.initial : Options :=
  ⟨.pss, -1, .off, 0, 0⟩

def pmPageSwapbacked : UInt64 :=
  (1 : UInt64) <<< 14

def pmPageKsm : UInt64 :=
  (1 : UInt64) <<< 21

inductive Parsed where
  | options (o : Options)
  | help
  | invalid (arg : Text)

def Options.take (o : Options) (arg : Text) : Option Options :=
  if arg = bytes "-v" then some { o with compfn := .vss }
  else if arg = bytes "-r" then some { o with compfn := .rss }
  else if arg = bytes "-p" then some { o with compfn := .pss }
  else if arg = bytes "-u" then some { o with compfn := .uss }
  else if arg = bytes "-s" then some { o with compfn := .swap }
  else if arg = bytes "-c" then
    some { o with requiredFlags := 0, flagsMask := pmPageSwapbacked }
  else if arg = bytes "-C" then
    some { o with requiredFlags := pmPageSwapbacked, flagsMask := pmPageSwapbacked }
  else if arg = bytes "-k" then
    some { o with requiredFlags := pmPageKsm, flagsMask := pmPageKsm }
  else if arg = bytes "-w" then some { o with ws := .only }
  else if arg = bytes "-W" then some { o with ws := .reset }
  else if arg = bytes "-R" then some { o with order := o.order * -1 }
  else none

/-- The loop over `argv`. -/
def parseArgs : Options -> List Text -> Parsed
  | o, [] => .options o
  | o, arg :: args =>
      match o.take arg with
      | some o => parseArgs o args
      | none => if arg = bytes "-h" then .help else .invalid arg

/-!
# Processes
-/

/-- What the system tells `procrank_main`. -/
structure Kernel where
  /-- The answer of `pm_kernel_pids`, if neither it nor `pm_kernel_create` fails. -/
  pids : Option (List Int)
  /-- `pm_process_create` answers a process. -/
  created : Int -> Bool
  /-- What `pm_process_usage_flags` leaves in the usage, for a mask and the
  flags required. -/
  usageFlags : Int -> UInt64 -> UInt64 -> Usage
  /-- What `pm_process_workingset` leaves in the usage. -/
  workingset : Int -> Usage
  /-- What can be read of `/proc/<pid>/cmdline`, or the number of the step that
  fails. -/
  cmdline : Int -> Except Nat Text
  /-- The line of `print_mem_info`. -/
  memInfo : Text

/-- `procs[i]` after the first loop. -/
def Kernel.procInfo (kernel : Kernel) (o : Options) (pid : Int) : ProcInfo :=
  ⟨pid, if kernel.created pid then
      match o.ws with
      | .off => kernel.usageFlags pid o.flagsMask o.requiredFlags
      | .only => kernel.workingset pid
      | .reset => .zero
    else .zero⟩

/-- `has_swap` -/
def hasSwap (procs : List ProcInfo) : Bool :=
  procs.any (fun p => p.usage.swap ≠ 0)

/-- The loop that moves the processes with a vss to the front, over `n` more of
them from `i` on. -/
def compact : Nat -> Nat -> Nat -> List ProcInfo -> List ProcInfo × Nat
  | 0, _, j, procs => (procs, j)
  | n + 1, i, j, procs =>
      match procs[i]? with
      | some p =>
          if p.usage.vss ≠ 0 then compact n (i + 1) (j + 1) (procs.set j p)
          else compact n (i + 1) j procs
      | none => (procs, j)

def kept (procs : List ProcInfo) : List ProcInfo :=
  let (procs, j) := compact procs.length 0 0 procs
  procs.take j

def numcmp (a b : UInt64) : Int :=
  if a < b then -1
  else if a > b then 1
  else 0

def Options.compare (o : Options) (a b : ProcInfo) : Int :=
  o.order * numcmp (o.compfn.of a.usage) (o.compfn.of b.usage)

/-!
# Lines
-/

def maxLines : Nat :=
  50

def getprocname (kernel : Kernel) (pid : Int) (len : Int) : Int × Text :=
  if len <= 0 then (-1, [])
  else
    match kernel.cmdline pid with
    | .ok text => (0, text.take (len.toNat - 1))
    | .error rc => (rc, bytes "<unknown>")

structure Totals where
  pss : UInt64
  uss : UInt64
  swap : UInt64

def Totals.add (t : Totals) (usage : Usage) : Totals :=
  ⟨t.pss + usage.pss, t.uss + usage.uss, t.swap + usage.swap⟩

/-- The loop over the sorted processes from the `i`-th on: the rows, and the
totals behind them. -/
def listProcs (kernel : Kernel) : Nat -> Totals -> List ProcInfo ->
    List (ProcInfo × Text) × Totals
  | _, t, [] => ([], t)
  | i, t, p :: procs =>
      let (rc, cmdline) := getprocname kernel p.pid 256
      if rc < 0 then listProcs kernel (i + 1) t procs
      else if i > maxLines then listProcs kernel (i + 1) t procs
      else
        let (rows, t) := listProcs kernel (i + 1) (t.add p.usage) procs
        ((p, cmdline) :: rows, t)

/-- What is written: the rows, and the numbers of the line with the totals. -/
structure Report where
  ws : Bool
  hasSwap : Bool
  rows : List (ProcInfo × Text)
  totalPss : UInt64
  totalUss : UInt64
  totalSwap : Option UInt64
  memInfo : Text

def column (width : Nat) (text : Text) : Text :=
  padLeft 32 width text ++ bytes "  "

def amount (width : Nat) (n : UInt64) : Text :=
  column 0 (padLeft 32 width (decimalText n.toNat) ++ bytes "K")

def Report.rowText (r : Report) (p : ProcInfo) (cmdline : Text) : Text :=
  column 5 (decimalText p.pid) ++
    (if r.ws then [] else amount 7 (p.usage.vss / 1024)) ++
    amount 6 (p.usage.rss / 1024) ++ amount 6 (p.usage.pss / 1024) ++
      amount 6 (p.usage.uss / 1024) ++
    (if r.hasSwap then amount 6 (p.usage.swap / 1024) else []) ++
    cmdline ++ bytes "\n"

def Report.headerText (r : Report) : Text :=
  column 5 (bytes "PID") ++
    (if r.ws then column 0 (bytes "WRss") ++ column 7 (bytes "WPss") ++
    column 7 (bytes "WUss")
    else column 8 (bytes "Vss") ++ column 7 (bytes "Rss") ++
      column 7 (bytes "Pss") ++ column 7 (bytes "Uss")) ++
    (if r.hasSwap then column 7 (bytes (if r.ws then "WSwap" else "Swap"))
    else []) ++
    bytes "cmdline\n"

def Report.separatorText (r : Report) : Text :=
  column 5 [] ++ (if r.ws then column 7 [] else column 8 [] ++ column 7 []) ++
    column 7 (bytes "------") ++ column 7 (bytes "------") ++
    (if r.hasSwap then column 7 (bytes "------") else []) ++ bytes "------\n"

def Report.totalText (r : Report) : Text :=
  column 5 [] ++
    (if r.ws then column 7 [] ++ amount 6 r.totalPss ++ amount 0 r.totalUss
    else column 8 [] ++ column 7 [] ++ amount 6 r.totalPss ++
      amount 6 r.totalUss) ++
    (match r.totalSwap with | some swap => amount 6 swap | none => []) ++
    bytes "TOTAL\n"

def Report.text (r : Report) : Text :=
  r.headerText ++ r.rows.flatMap (fun row => r.rowText row.1 row.2) ++
    r.separatorText ++ r.totalText ++
    bytes "\n" ++ r.memInfo

inductive Outcome where
  | failure
  | exited
  | report (r : Report)

/-- `procrank_main`, with the arguments behind the name of the program. -/
def procrankMain (kernel : Kernel) (qsort : Qsort ProcInfo) (args : List Text) :
    Outcome :=
  match parseArgs .initial args with
  | .help => .exited
  | .invalid _ => .failure
  | .options o =>
      match kernel.pids with
      | none => .failure
      | some pids =>
          let procs := pids.map (kernel.procInfo o)
          let swap := hasSwap procs
          if o.ws = .reset then .failure
          else
            let (rows, t) := listProcs kernel 0 ⟨0, 0, 0⟩
              (qsort.sort o.compare (kept procs))
            .report ⟨o.ws ≠ .off, swap, rows, t.pss / 1024, t.uss / 1024,
              if swap then some t.swap else none,
              kernel.memInfo⟩

/-!
# The processes that are kept
-/

def nonzero (procs : List ProcInfo) : List ProcInfo :=
  procs.filter (fun p => p.usage.vss ≠ 0)

theorem compact_spec {n : Nat} : forall {i j : Nat} {procs : List ProcInfo},
    j <= i -> i + n = procs.length ->
    (compact n i j procs).1.take (compact n i j procs).2 = procs.take j ++
    nonzero (procs.drop i) := by
  induction n with
  | zero =>
      intro i j procs _ hlength
      have hend : procs.drop i = [] :=
        List.drop_eq_nil_of_le (Nat.le_of_eq hlength.symm)
      rw [compact, hend]
      exact (List.append_nil _).symm
  | succ n ih =>
      intro i j procs hj hlength
      have hi : i < procs.length := by omega
      have hdrop : procs.drop i = procs[i] :: procs.drop (i + 1) :=
        List.drop_eq_getElem_cons hi
      rw [compact, List.getElem?_eq_getElem hi, hdrop]
      dsimp only
      by_cases hvss : procs[i].usage.vss = 0
      · rw [if_neg (fun h => h hvss), ih (Nat.le_succ_of_le hj) (by omega),
          nonzero, nonzero,
          List.filter_cons_of_neg (by simpa using hvss)]
      · have hset : (procs.set j procs[i]).take (j + 1) = procs.take j ++
            [procs[i]] := by
          have hj' : j < procs.length := Nat.lt_of_le_of_lt hj hi
          rw [List.take_set, List.take_succ_eq_append_getElem hj',
            List.set_append_right _ _ (by simp),
            List.length_take_of_le (Nat.le_of_lt hj'), Nat.sub_self]
          rfl
        rw [if_pos hvss, ih (Nat.succ_le_succ hj)
          (by rw [List.length_set]; omega), hset,
          List.drop_set_of_lt (by omega), nonzero, nonzero,
            List.filter_cons_of_pos (by simpa using hvss),
          List.append_assoc]
        rfl

theorem kept_eq (procs : List ProcInfo) : kept procs = nonzero procs := by
  have hspec := compact_spec (Nat.le_refl 0) (Nat.zero_add procs.length)
  rw [List.take_zero, List.drop_zero] at hspec
  exact hspec

/-!
# The order
-/

theorem numcmp_nonpos_iff (a b : UInt64) : numcmp a b <= 0 <-> a <= b := by
  unfold numcmp
  split
  · next h =>
      exact ⟨fun _ => Std.le_of_lt h, fun _ => by decide⟩
  · next h =>
      split
      · next h' =>
          exact ⟨fun hle => absurd hle (by decide), fun hle =>
            absurd hle (UInt64.not_le.mpr h')⟩
      · next h' =>
          exact ⟨fun _ => UInt64.not_lt.mp h', fun _ => by decide⟩

theorem numcmp_nonneg_iff (a b : UInt64) : 0 <= numcmp a b <-> b <= a := by
  unfold numcmp
  split
  · next h =>
      exact ⟨fun hle => absurd hle (by decide), fun hle =>
        absurd hle (UInt64.not_le.mpr h)⟩
  · next h =>
      split
      · next h' =>
          exact ⟨fun _ => Std.le_of_lt h', fun _ => by decide⟩
      · exact ⟨fun _ => UInt64.not_lt.mp h, fun _ => by decide⟩

def Options.Directed (o : Options) : Prop :=
  o.order = 1 ∨ o.order = -1

theorem Options.compare_nonpos_iff {o : Options} (h : o.Directed)
    (a b : ProcInfo) : o.compare a b <= 0 <->
    if o.order = 1 then o.compfn.of a.usage <= o.compfn.of b.usage
    else o.compfn.of b.usage <= o.compfn.of a.usage := by
  unfold Options.compare
  rcases h with h | h
  · rw [h, if_pos rfl, Int.one_mul, numcmp_nonpos_iff]
  · rw [h, if_neg (by decide), ← numcmp_nonneg_iff]
    omega

theorem Options.compare_consistent {o : Options} (h : o.Directed) :
    Consistent o.compare := by
  constructor
  · intro a b
    rw [compare_nonpos_iff h, compare_nonpos_iff h]
    split
    · exact Std.le_total
    · exact Std.le_total
  · intro a b c hab hbc
    rw [compare_nonpos_iff h] at hab hbc ⊢
    split at hab
    · next hone =>
        rw [if_pos hone] at hbc ⊢
        exact Std.le_trans hab hbc
    · next hone =>
        rw [if_neg hone] at hbc ⊢
        exact Std.le_trans hbc hab

theorem Options.directed_ite {c : Prop} [Decidable c] {o o' : Options}
    {rest : Option Options} (h : o.Directed)
    (hrest : rest = some o' -> o'.Directed) :
    (if c then some o else rest) = some o' -> o'.Directed := by
  by_cases hc : c
  · rw [if_pos hc]
    intro heq
    cases heq
    exact h
  · rw [if_neg hc]
    exact hrest

theorem Options.take_directed {o o' : Options} {arg : Text} (h : o.Directed) :
    o.take arg = some o' -> o'.Directed := by
  have hturned : o.order * -1 = 1 ∨ o.order * -1 = -1 := by
    rcases h with h | h
    · exact Or.inr (by rw [h]; rfl)
    · exact Or.inl (by rw [h]; rfl)
  unfold Options.take
  iterate 10
    refine directed_ite ?_ ?_
    · exact h
  refine directed_ite ?_ ?_
  · exact hturned
  · intro heq
    cases heq

theorem parseArgs_directed {args : List Text} :
    forall {o o' : Options}, o.Directed ->
    parseArgs o args = .options o' -> o'.Directed := by
  induction args with
  | nil =>
      intro o o' h hparse
      cases hparse
      exact h
  | cons arg args ih =>
      intro o o' h hparse
      unfold parseArgs at hparse
      cases htake : o.take arg with
      | some next =>
          rw [htake] at hparse
          exact ih (Options.take_directed h htake) hparse
      | none =>
          rw [htake] at hparse
          dsimp only at hparse
          split at hparse
          · cases hparse
          · cases hparse

/-!
# Rows and totals
-/

/-- The sum of one number over some processes. -/
def sumOf (field : Usage -> UInt64) (procs : List ProcInfo) : Nat :=
  (procs.map (fun p => (field p.usage).toNat)).sum

def nameOf (kernel : Kernel) (p : ProcInfo) : Text :=
  (getprocname kernel p.pid 256).2

theorem getprocname_nonneg (kernel : Kernel) (pid : Int) :
    ¬ (getprocname kernel pid 256).1 < 0 := by
  have hlen : ¬ (256 : Int) <= 0 := by decide
  unfold getprocname
  rw [if_neg hlen]
  cases kernel.cmdline pid with
  | ok text =>
      exact Int.lt_irrefl 0
  | error rc =>
      exact Int.not_lt.mpr (Int.natCast_nonneg rc)

/-- The loop lists one process more than `MAX_LINES`, and adds up those that it
lists. -/
theorem listProcs_eq (kernel : Kernel) {procs : List ProcInfo} :
    forall (i : Nat) (t : Totals),
    listProcs kernel i t procs =
      ((procs.take (maxLines + 1 - i)).map (fun p => (p, nameOf kernel p)),
      ((procs.take (maxLines + 1 - i)).map ProcInfo.usage).foldl Totals.add t) := by
  induction procs with
  | nil =>
      intro i t
      rw [listProcs, List.take_nil]
      rfl
  | cons p procs ih =>
      intro i t
      rw [listProcs]
      dsimp only
      rw [if_neg (getprocname_nonneg kernel p.pid)]
      by_cases hi : i > maxLines
      · have hnone : maxLines + 1 - i = 0 := Nat.sub_eq_zero_of_le hi
        have hnone' : maxLines + 1 - (i + 1) = 0 :=
          Nat.sub_eq_zero_of_le (Nat.le_succ_of_le hi)
        rw [if_pos hi, ih, hnone, hnone', List.take_zero, List.take_zero]
      · have hmore : maxLines + 1 - i = (maxLines + 1 - (i + 1)) + 1 := by omega
        rw [if_neg hi, ih, hmore, List.take_succ_cons]
        rfl

theorem foldl_add (usages : List Usage) : forall t : Totals,
    (usages.foldl Totals.add t).pss.toNat =
    (t.pss.toNat + (usages.map (fun u => u.pss.toNat)).sum) % 2 ^ 64 ∧
    (usages.foldl Totals.add t).uss.toNat =
    (t.uss.toNat + (usages.map (fun u => u.uss.toNat)).sum) % 2 ^ 64 ∧
    (usages.foldl Totals.add t).swap.toNat =
    (t.swap.toNat + (usages.map (fun u => u.swap.toNat)).sum) % 2 ^ 64 := by
  induction usages with
  | nil =>
      intro t
      have hpss := t.pss.toNat_lt
      have huss := t.uss.toNat_lt
      have hswap := t.swap.toNat_lt
      simp only [List.foldl_nil, List.map_nil, List.sum_nil, Nat.add_zero]
      omega
  | cons u usages ih =>
      intro t
      rcases ih (t.add u) with ⟨hpss, huss, hswap⟩
      simp only [List.foldl_cons, List.map_cons, List.sum_cons]
      rw [hpss, huss, hswap]
      simp only [Totals.add, UInt64.toNat_add]
      omega

/-!
# What the report covers
-/

/--
The first `MAX_LINES` processes in some arrangement by the order that was chosen
are listed, and the line with the totals has the sums over all of them in KiB.
-/
structure Covers (o : Options) (procs : List ProcInfo) (r : Report) : Prop where
  listed : exists all, all.Perm (nonzero procs) ∧ InOrder o.compare all ∧
    r.rows.map Prod.fst = all.take maxLines
  pss : r.totalPss.toNat = sumOf Usage.pss (nonzero procs) / 1024
  uss : r.totalUss.toNat = sumOf Usage.uss (nonzero procs) / 1024
  swap : (r.totalSwap.getD 0).toNat = sumOf Usage.swap (nonzero procs) / 1024

section Covers

variable {kernel : Kernel} {qsort : Qsort ProcInfo} {args : List Text}
  {o : Options} {pids : List Int}

theorem sumOf_perm (field : Usage -> UInt64) {procs procs' : List ProcInfo}
    (h : procs.Perm procs') :
    sumOf field procs = sumOf field procs' :=
  (h.map _).sum_nat

theorem sumOf_swap_eq_zero {procs : List ProcInfo} (h : hasSwap procs = false) :
    sumOf Usage.swap (nonzero procs) = 0 := by
  apply List.sum_eq_zero_iff_forall_eq_nat.mpr
  intro n hn
  rcases List.mem_map.mp hn with ⟨p, hp, rfl⟩
  have hnone := List.any_eq_false.mp h p (List.mem_filter.mp hp).left
  have hzero : p.usage.swap = 0 := by simpa using hnone
  rw [hzero]
  rfl

def listed (o : Options) (qsort : Qsort ProcInfo) (procs : List ProcInfo) :
    List ProcInfo :=
  (qsort.sort o.compare (nonzero procs)).take (maxLines + 1)

def listedTotals (o : Options) (qsort : Qsort ProcInfo)
    (procs : List ProcInfo) : Totals :=
  ((listed o qsort procs).map ProcInfo.usage).foldl Totals.add ⟨0, 0, 0⟩

/-- The report is printed if the arguments ask for one and the processes can be
listed. -/
theorem procrankMain_eq (hargs : parseArgs .initial args = .options o)
    (hws : o.ws ≠ .reset)
    (hpids : kernel.pids = some pids) : procrankMain kernel qsort args = .report
      ⟨o.ws ≠ .off, hasSwap (pids.map (kernel.procInfo o)),
        (listed o qsort (pids.map (kernel.procInfo o))).map
          (fun p => (p, nameOf kernel p)),
        (listedTotals o qsort (pids.map (kernel.procInfo o))).pss / 1024,
        (listedTotals o qsort (pids.map (kernel.procInfo o))).uss / 1024,
        if hasSwap (pids.map (kernel.procInfo o)) then
          some (listedTotals o qsort (pids.map (kernel.procInfo o))).swap else none,
        kernel.memInfo⟩ := by
  unfold procrankMain
  rw [hargs, hpids]
  dsimp only
  rw [if_neg hws, listProcs_eq, kept_eq]
  rfl

theorem listedTotals_toNat (o : Options) (qsort : Qsort ProcInfo)
    (procs : List ProcInfo) :
    (listedTotals o qsort procs).pss.toNat = sumOf Usage.pss
    (listed o qsort procs) % 2 ^ 64 ∧
    (listedTotals o qsort procs).uss.toNat = sumOf Usage.uss
    (listed o qsort procs) % 2 ^ 64 ∧
    (listedTotals o qsort procs).swap.toNat = sumOf Usage.swap
    (listed o qsort procs) % 2 ^ 64 := by
  have hfold := foldl_add ((listed o qsort procs).map ProcInfo.usage) ⟨0, 0, 0⟩
  simp only [List.map_map, UInt64.toNat_zero, Nat.zero_add] at hfold
  exact hfold

theorem listed_perm (o : Options) (qsort : Qsort ProcInfo) {procs : List ProcInfo}
    (hfew : (nonzero procs).length <= maxLines) : (listed o qsort procs).Perm
    (nonzero procs) := by
  have hlength := qsort.length o.compare (nonzero procs)
  rw [listed, List.take_of_length_le (by omega)]
  exact qsort.perm o.compare (nonzero procs)

theorem listedTotals_few (o : Options) (qsort : Qsort ProcInfo)
    {procs : List ProcInfo}
    (hfew : (nonzero procs).length <= maxLines) :
    (listedTotals o qsort procs).pss.toNat = sumOf Usage.pss
    (nonzero procs) % 2 ^ 64 ∧
    (listedTotals o qsort procs).uss.toNat = sumOf Usage.uss
    (nonzero procs) % 2 ^ 64 ∧
    (listedTotals o qsort procs).swap.toNat = sumOf Usage.swap
    (nonzero procs) % 2 ^ 64 := by
  have hperm := listed_perm o qsort hfew
  rw [← sumOf_perm Usage.pss hperm, ← sumOf_perm Usage.uss hperm,
    ← sumOf_perm Usage.swap hperm]
  exact listedTotals_toNat o qsort procs

/-- The sum of the swap is printed as it is, and it is left out only where it is
zero. -/
theorem printedSwap (o : Options) (qsort : Qsort ProcInfo) {procs : List ProcInfo}
    (hfew : (nonzero procs).length <= maxLines) :
    ((if hasSwap procs then some (listedTotals o qsort procs).swap
    else none).getD 0).toNat =
      sumOf Usage.swap (nonzero procs) % 2 ^ 64 := by
  cases hswap : hasSwap procs with
  | true =>
      exact (listedTotals_few o qsort hfew).right.right
  | false =>
      rw [sumOf_swap_eq_zero hswap]
      rfl

theorem kib_iff (n : Nat) : n % 2 ^ 64 / 1024 = n / 1024 <-> n < 2 ^ 64 := by
  omega

def reportOf (kernel : Kernel) (o : Options) (qsort : Qsort ProcInfo)
    (procs : List ProcInfo) : Report :=
  ⟨o.ws ≠ .off, hasSwap procs, (listed o qsort procs).map
    (fun p => (p, nameOf kernel p)),
    (listedTotals o qsort procs).pss / 1024,
    (listedTotals o qsort procs).uss / 1024,
    if hasSwap procs then some (listedTotals o qsort procs).swap
    else none, kernel.memInfo⟩

/-- The rows and the sums fit, and the sum of the swap is the same in KiB. -/
structure Fits (procs : List ProcInfo) : Prop where
  few : (nonzero procs).length <= maxLines
  pss : sumOf Usage.pss (nonzero procs) < 2 ^ 64
  uss : sumOf Usage.uss (nonzero procs) < 2 ^ 64
  swap : sumOf Usage.swap (nonzero procs) % 2 ^ 64 =
    sumOf Usage.swap (nonzero procs) / 1024

theorem reportOf_covers_iff (kernel : Kernel) (hdirected : o.Directed)
    (qsort : Qsort ProcInfo)
    (procs : List ProcInfo) : Covers o procs (reportOf kernel o qsort procs) <->
    Fits procs := by
  have hrows : (reportOf kernel o qsort procs).rows.map Prod.fst =
      listed o qsort procs := by
    rw [reportOf, List.map_map]
    exact List.map_id _
  have hpss : (reportOf kernel o qsort procs).totalPss.toNat =
      (listedTotals o qsort procs).pss.toNat / 1024 :=
    UInt64.toNat_div _ 1024
  have huss : (reportOf kernel o qsort procs).totalUss.toNat =
      (listedTotals o qsort procs).uss.toNat / 1024 :=
    UInt64.toNat_div _ 1024
  constructor
  · intro h
    rcases h.listed with ⟨all, hperm, _, hall⟩
    have hfew : (nonzero procs).length <= maxLines := by
      have hlength := congrArg List.length (hrows.symm.trans hall)
      rw [listed, List.length_take, List.length_take, qsort.length,
        hperm.length_eq] at hlength
      omega
    rcases listedTotals_few o qsort hfew with ⟨hpss', huss', _⟩
    have hcovers := h.pss
    have hcovers' := h.uss
    rw [hpss, hpss', kib_iff] at hcovers
    rw [huss, huss', kib_iff] at hcovers'
    exact ⟨hfew, hcovers, hcovers', (printedSwap o qsort hfew).symm.trans h.swap⟩
  · intro h
    rcases listedTotals_few o qsort h.few with ⟨hpss', huss', _⟩
    have hperm := listed_perm o qsort h.few
    constructor
    · refine ⟨listed o qsort procs, hperm, ?_, ?_⟩
      · exact List.Pairwise.sublist (List.take_sublist _ _)
          (qsort.sorted o.compare (nonzero procs)
            (Options.compare_consistent hdirected))
      · rw [hrows, List.take_of_length_le (hperm.length_eq.trans_le h.few)]
    · rw [hpss, hpss', (kib_iff _).mpr h.pss]
    · rw [huss, huss', (kib_iff _).mpr h.uss]
    · exact (printedSwap o qsort h.few).trans h.swap

/--
The report covers all processes if and only if there are `MAX_LINES` of them at
most, the sums of pss and uss fit in their variables, and the sum of the swap is
the same when it is divided by 1024.
-/
theorem procrankMain_covers_iff (hargs : parseArgs .initial args = .options o)
    (hws : o.ws ≠ .reset)
    (hpids : kernel.pids = some pids) :
    exists r, procrankMain kernel qsort args = .report r ∧
      (Covers o (pids.map (kernel.procInfo o)) r <->
        Fits (pids.map (kernel.procInfo o))) :=
  ⟨_, procrankMain_eq hargs hws hpids,
    reportOf_covers_iff kernel (parseArgs_directed (Or.inr rfl) hargs) qsort
      (pids.map (kernel.procInfo o))⟩

end Covers

/-- A system with `n` processes that use the same memory. -/
def uniform (n : Nat) (usage : Usage) : Kernel where
  pids := some ((List.range n).map Int.ofNat)
  created _ := true
  usageFlags _ _ _ := usage
  workingset _ := usage
  cmdline _ := .ok (bytes "init")
  memInfo := []

theorem procrankMain_covers_two :
    exists r, procrankMain (uniform 2 ⟨4096, 4096, 2048, 1024, 0⟩) Qsort.merge
    [] = .report r ∧
    Covers .initial
      ([0, 1].map ((uniform 2 ⟨4096, 4096, 2048, 1024, 0⟩).procInfo .initial))
      r := by
  have hargs : parseArgs .initial [] = .options .initial := rfl
  have hpids : (uniform 2 ⟨4096, 4096, 2048, 1024, 0⟩).pids = some [0, 1] := rfl
  have hcovers : exists r, procrankMain (uniform 2 ⟨4096, 4096, 2048, 1024, 0⟩)
      Qsort.merge [] = .report r ∧
      (Covers .initial _ r <-> Fits _) :=
        procrankMain_covers_iff hargs (by decide) hpids
  rcases hcovers with ⟨r, hrun, hiff⟩
  exact ⟨r, hrun, hiff.mpr ⟨by decide, by decide, by decide, by decide⟩⟩

/-- The rows are one too many, and where there is swap its sum is printed in
bytes. -/
theorem procrankMain_uncovered :
    (exists r, procrankMain (uniform 51 ⟨4096, 4096, 2048, 1024, 0⟩) Qsort.merge
    [] = .report r ∧
      ¬ Covers .initial (((List.range 51).map Int.ofNat).map
        ((uniform 51 ⟨4096, 4096, 2048, 1024, 0⟩).procInfo .initial)) r) ∧
    (exists r, procrankMain (uniform 1 ⟨4096, 4096, 2048, 1024, 2048⟩)
    Qsort.merge [] = .report r ∧
      ¬ Covers .initial
        ([0].map ((uniform 1 ⟨4096, 4096, 2048, 1024, 2048⟩).procInfo .initial))
        r) := by
  have hdirected : Options.initial.Directed := Or.inr rfl
  constructor
  · refine ⟨_, procrankMain_eq rfl (by decide) rfl, ?_⟩
    intro h
    exact absurd ((reportOf_covers_iff _ hdirected _ _).mp h).few (by decide)
  · refine ⟨_, procrankMain_eq rfl (by decide) rfl, ?_⟩
    intro h
    exact absurd ((reportOf_covers_iff _ hdirected _ _).mp h).swap (by decide)

end Procrank
end Lepd
