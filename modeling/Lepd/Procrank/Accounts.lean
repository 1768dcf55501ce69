import Lepd.Procrank.Frames

/-!
# The memory that procrank accounts for

The kernel says of each page frame how often it is mapped. As far as it counts
the mappings in the page maps, the proportional shares of all processes come to
the memory in use.
-/

namespace Lepd
namespace Procrank

open Foundation
open Ps (Text)

def PageSystem.framesOf (sys : PageSystem) (flagsMask requiredFlags : UInt64)
    (pid : Int) : List UInt64 :=
  match sys.process pid with
  | .ok proc => framesIn sys.ker flagsMask requiredFlags (pagesOf sys.ker proc)
  | .error _ => []

/-- The page frames of all processes, once for each mapping. -/
def PageSystem.frames (sys : PageSystem) : List UInt64 :=
  sys.pids.flatMap (sys.framesOf 0 0)

/-- How many bytes are in use. -/
def PageSystem.memory (sys : PageSystem) : Nat :=
  sys.frames.dedup.length * sys.ker.pagesize.toNat

def PageSystem.usageOf (sys : PageSystem) (flagsMask requiredFlags : UInt64)
    (pid : Int) : Usage :=
  usageOr (sys.process pid >>= pmProcessUsageFlags sys.ker flagsMask requiredFlags)

/-- The usage of each process can be read. -/
def PageSystem.Readable (sys : PageSystem) : Prop :=
  forall pid, pid ∈ sys.pids -> exists proc u, sys.process pid = .ok proc ∧
    pmProcessUsageFlags sys.ker 0 0 proc = .ok u

section Sums

variable {sys : PageSystem} {flagsMask requiredFlags : UInt64} {pid : Int}

theorem framesOf_sublist (flagsMask requiredFlags : UInt64) (pid : Int) :
    (sys.framesOf flagsMask requiredFlags pid).Sublist (sys.framesOf 0 0 pid) := by
  unfold PageSystem.framesOf
  cases sys.process pid with
  | error e => exact List.Sublist.slnil
  | ok proc =>
      show (framesIn sys.ker flagsMask requiredFlags _).Sublist
        (framesIn sys.ker 0 0 _)
      rw [framesIn_eq]
      exact List.filter_sublist

theorem sum_sublist {f : UInt64 -> Nat} {frames frames' : List UInt64}
    (h : frames.Sublist frames') :
    (frames.map f).sum <= (frames'.map f).sum :=
  (h.map f).sum_le_sum (fun _ _ => Nat.zero_le _)

theorem sum_flatMap (f : UInt64 -> Nat) (framesOf : Int -> List UInt64)
    (pids : List Int) :
    ((pids.flatMap framesOf).map f).sum =
    (pids.map (fun pid => ((framesOf pid).map f).sum)).sum := by
  rw [List.map_flatMap, List.flatMap_def, List.sum_flatten, List.map_map]
  rfl

/-- What a process shares is its proportional share, as far as that was read and
fits. -/
theorem usageOf_le (sys : PageSystem) (flagsMask requiredFlags : UInt64)
    (pid : Int) :
    (sys.usageOf flagsMask requiredFlags pid).pss.toNat <=
      ((sys.framesOf flagsMask requiredFlags pid).map (share sys.ker)).sum := by
  unfold PageSystem.usageOf PageSystem.framesOf
  cases sys.process pid with
  | error e => exact Nat.le_refl 0
  | ok proc =>
      show (usageOr (pmProcessUsageFlags sys.ker flagsMask requiredFlags
        proc)).pss.toNat <= _
      cases husage : pmProcessUsageFlags sys.ker flagsMask requiredFlags proc with
      | error e => exact Nat.zero_le _
      | ok u =>
          show u.pss.toNat <= _
          rw [(pmProcessUsageFlags_comes husage).pss]
          exact Nat.mod_le _ _

/-- The sums over all processes are sums over the page frames of all processes. -/
theorem sum_frames (f : UInt64 -> Nat) :
    (sys.pids.map (fun pid => ((sys.framesOf 0 0 pid).map f).sum)).sum =
    (sys.frames.map f).sum :=
  (sum_flatMap f (sys.framesOf 0 0) sys.pids).symm

theorem sum_share_le_memory (hcount : forall frame, frame ∈ sys.frames ->
    sys.frames.count frame <= countOf sys.ker frame) :
    (sys.frames.map (share sys.ker)).sum <= sys.memory :=
  Shares.sum_le sys.ker.pagesize.toNat hcount

theorem share_le_memory (hcount : forall frame, frame ∈ sys.frames ->
    sys.frames.count frame <= countOf sys.ker frame)
    (hpid : pid ∈ sys.pids) :
    ((sys.framesOf flagsMask requiredFlags pid).map (share sys.ker)).sum <=
    sys.memory := by
  apply Nat.le_trans (sum_sublist (framesOf_sublist flagsMask requiredFlags pid))
  apply Nat.le_trans _ (sum_share_le_memory hcount)
  rw [← sum_frames]
  apply List.single_le_sum (fun _ _ => Nat.zero_le _)
  exact List.mem_map_of_mem hpid

/--
If the kernel counts the mappings in the page maps, the proportional shares of
all processes come to the memory in use but for less than one byte for each
mapping, and the pages that processes have for themselves are those of the page
frames that are mapped once.
-/
theorem shares_account {sys : PageSystem} (hread : sys.Readable)
    (hcount : forall frame, frame ∈ sys.frames -> sys.frames.count frame =
    countOf sys.ker frame)
    (hmemory : sys.memory < 2 ^ 64) :
    (sys.pids.map (fun pid => (sys.usageOf 0 0 pid).pss.toNat)).sum <= sys.memory ∧
      sys.memory <=
        (sys.pids.map (fun pid => (sys.usageOf 0 0 pid).pss.toNat)).sum +
        sys.frames.length ∧
      (sys.pids.map (fun pid => (sys.usageOf 0 0 pid).uss.toNat)).sum =
        (sys.frames.filter (fun frame => sys.frames.count frame = 1)).length *
          sys.ker.pagesize.toNat := by
  have hle : forall frame, frame ∈ sys.frames -> sys.frames.count frame <=
      countOf sys.ker frame :=
    fun frame hframe => Nat.le_of_eq (hcount frame hframe)
  have hfits : forall pid, pid ∈ sys.pids ->
      ((sys.framesOf 0 0 pid).map (share sys.ker)).sum < 2 ^ 64 :=
    fun pid hpid => Nat.lt_of_le_of_lt (share_le_memory hle hpid) hmemory
  have husage : forall pid, pid ∈ sys.pids ->
      (sys.usageOf 0 0 pid).pss.toNat =
        ((sys.framesOf 0 0 pid).map (share sys.ker)).sum ∧
        (sys.usageOf 0 0 pid).uss.toNat =
          ((sys.framesOf 0 0 pid).map (own sys.ker)).sum := by
    intro pid hpid
    have hfit := hfits pid hpid
    rcases hread pid hpid with ⟨proc, u, hproc, hu⟩
    unfold PageSystem.usageOf
    unfold PageSystem.framesOf at hfit ⊢
    rw [hproc] at hfit ⊢
    show (usageOr (pmProcessUsageFlags sys.ker 0 0 proc)).pss.toNat = _ ∧
      (usageOr (pmProcessUsageFlags sys.ker 0 0 proc)).uss.toNat = _
    rw [hu]
    have hcomes := pmProcessUsageFlags_comes hu
    refine ⟨hcomes.pss.trans (Nat.mod_eq_of_lt hfit),
      hcomes.uss.trans (Nat.mod_eq_of_lt ?_)⟩
    exact Nat.lt_of_le_of_lt (sum_own_le sys.ker _) hfit
  have hpss : (sys.pids.map (fun pid => (sys.usageOf 0 0 pid).pss.toNat)).sum =
      (sys.frames.map (share sys.ker)).sum := by
    rw [← sum_frames]
    exact congrArg List.sum (List.map_congr_left
      (fun pid hpid => (husage pid hpid).left))
  have huss : (sys.pids.map (fun pid => (sys.usageOf 0 0 pid).uss.toNat)).sum =
      (sys.frames.map (own sys.ker)).sum := by
    rw [← sum_frames]
    exact congrArg List.sum (List.map_congr_left
      (fun pid hpid => (husage pid hpid).right))
  rw [hpss, huss]
  refine ⟨sum_share_le_memory hle, Shares.le_sum sys.ker.pagesize.toNat hcount, ?_⟩
  exact Shares.sum_singles sys.ker.pagesize.toNat hcount

def pageSystem : PageSystem where
  ker := someKernel
  pids := [1, 2]
  process := fun pid => if pid = 1 then .ok someProcess
    else .ok { maps := [⟨0x8000,
      0x9000⟩], read := fun _ _ => .ok [0x8000000000000002], memory := fun _ => 0 }
  stack := .zero
  cmdline := fun _ => .ok []
  memInfo := []

theorem pageSystem_readable : pageSystem.Readable := by
  intro pid hpid
  rcases List.mem_cons.mp hpid with rfl | hpid
  · exact ⟨_, _, rfl, rfl⟩
  · cases List.mem_singleton.mp hpid
    exact ⟨_, _, rfl, rfl⟩

theorem pageSystem_counted : forall frame, frame ∈ pageSystem.frames ->
    pageSystem.frames.count frame = countOf pageSystem.ker frame := by
  have hall : pageSystem.frames.all (fun frame =>
    pageSystem.frames.count frame = countOf pageSystem.ker frame) = true := by
    decide +kernel
  intro frame hframe
  exact of_decide_eq_true (List.all_eq_true.mp hall frame hframe)

theorem shares_account_two :
    (pageSystem.pids.map (fun pid =>
    (pageSystem.usageOf 0 0 pid).pss.toNat)).sum <= pageSystem.memory :=
  (shares_account pageSystem_readable pageSystem_counted (by decide +kernel)).left

end Sums

/-!
# The report
-/

section Reports

variable {sys : PageSystem} {args : List Text} {o : Options}

theorem procInfo_usage (sys : PageSystem) (o : Options) (hws : o.ws = .off)
    (pid : Int) :
    (sys.kernel.procInfo o pid).usage = sys.usageOf o.flagsMask o.requiredFlags
    pid := by
  unfold Kernel.procInfo
  rw [hws]
  show (if (sys.process pid).isOk then
    sys.usageOf o.flagsMask o.requiredFlags pid else .zero) = _
  unfold PageSystem.usageOf
  cases sys.process pid with
  | error e => rfl
  | ok proc => rfl

theorem sumOf_listed_le (field : Usage -> UInt64) (o : Options)
    (qsort : Qsort ProcInfo) (procs : List ProcInfo) :
    sumOf field (listed o qsort procs) <= sumOf field procs := by
  have htake : sumOf field (listed o qsort procs) <=
      sumOf field (qsort.sort o.compare (nonzero procs)) :=
    ((List.take_sublist _ _).map _).sum_le_sum (fun _ _ => Nat.zero_le _)
  have hnonzero : sumOf field (nonzero procs) <= sumOf field procs :=
    (List.filter_sublist.map _).sum_le_sum (fun _ _ => Nat.zero_le _)
  rw [sumOf_perm field (qsort.perm o.compare (nonzero procs))] at htake
  exact Nat.le_trans htake hnonzero

/-- A process has not more pages for itself than its share, if the memory in use
fits. -/
theorem usageOf_uss_le (hcount : forall frame, frame ∈ sys.frames ->
    sys.frames.count frame <= countOf sys.ker frame)
    (hmemory : sys.memory < 2 ^ 64) (flagsMask requiredFlags : UInt64)
    {pid : Int} (hpid : pid ∈ sys.pids) :
    (sys.usageOf flagsMask requiredFlags pid).uss.toNat <=
    (sys.usageOf flagsMask requiredFlags pid).pss.toNat := by
  have hfit :
      ((sys.framesOf flagsMask requiredFlags pid).map (share sys.ker)).sum <
      2 ^ 64 :=
    Nat.lt_of_le_of_lt (share_le_memory hcount hpid) hmemory
  unfold PageSystem.usageOf
  unfold PageSystem.framesOf at hfit
  cases hproc : sys.process pid with
  | error e => exact Nat.le_refl 0
  | ok proc =>
      rw [hproc] at hfit
      show (usageOr (pmProcessUsageFlags sys.ker flagsMask requiredFlags
        proc)).uss.toNat <=
        (usageOr (pmProcessUsageFlags sys.ker flagsMask requiredFlags
          proc)).pss.toNat
      cases husage : pmProcessUsageFlags sys.ker flagsMask requiredFlags proc with
      | error e => exact Nat.le_refl 0
      | ok u =>
          have hcomes := pmProcessUsageFlags_comes husage
          show u.uss.toNat <= u.pss.toNat
          rw [hcomes.uss, hcomes.pss, Nat.mod_eq_of_lt hfit]
          exact Nat.le_trans (Nat.mod_le _ _) (sum_own_le sys.ker _)

/--
Whatever processes there are and whichever of their pages are asked for, the
totals of the report are within the memory in use: no page frame is counted more
than once in all of the report.
-/
theorem procrankMain_within_memory {sys : PageSystem} {args : List Text}
    {o : Options}
    (hcount : forall frame, frame ∈ sys.frames -> sys.frames.count frame <=
    countOf sys.ker frame)
    (hmemory : sys.memory < 2 ^ 64) (hargs : parseArgs .initial args =
    .options o) (hws : o.ws = .off)
    (qsort : Qsort ProcInfo) :
    exists r, procrankMain sys.kernel qsort args = .report r ∧
      r.totalUss <= r.totalPss ∧
      r.totalPss.toNat * 1024 <= sys.memory ∧ forall row, row ∈ r.rows ->
        row.1.usage.uss <= row.1.usage.pss := by
  have hnot : o.ws ≠ .reset := fun heq => (nomatch hws.symm.trans heq)
  have hpids : sys.kernel.pids = some sys.pids := rfl
  have hsum : forall field : Usage -> UInt64,
      sumOf field (sys.pids.map (sys.kernel.procInfo o)) =
      (sys.pids.map (fun pid =>
        (field (sys.usageOf o.flagsMask o.requiredFlags pid)).toNat)).sum := by
    intro field
    unfold sumOf
    rw [List.map_map]
    apply congrArg List.sum
    apply List.map_congr_left
    intro pid _
    exact congrArg (fun u => (field u).toNat) (procInfo_usage sys o hws pid)
  have hpss :
      sumOf Usage.pss (listed o qsort (sys.pids.map (sys.kernel.procInfo o))) <=
      sys.memory := by
    apply Nat.le_trans (sumOf_listed_le Usage.pss o qsort _)
    rw [hsum]
    apply Nat.le_trans _ (sum_share_le_memory hcount)
    rw [← sum_frames]
    apply List.sum_le_sum
    intro pid _
    exact Nat.le_trans (usageOf_le sys o.flagsMask o.requiredFlags pid)
      (sum_sublist (framesOf_sublist _ _ pid))
  have hrow : forall p, p ∈ listed o qsort
      (sys.pids.map (sys.kernel.procInfo o)) -> p.usage.uss.toNat <=
      p.usage.pss.toNat := by
    intro p hp
    have hsorted := (qsort.perm o.compare _).mem_iff.mp (List.mem_of_mem_take hp)
    rcases List.mem_map.mp (List.mem_filter.mp hsorted).left with ⟨pid, hpid, rfl⟩
    rw [procInfo_usage sys o hws pid]
    exact usageOf_uss_le hcount hmemory _ _ hpid
  have huss :
      sumOf Usage.uss (listed o qsort (sys.pids.map (sys.kernel.procInfo o))) <=
      sumOf Usage.pss (listed o qsort (sys.pids.map (sys.kernel.procInfo o))) :=
    List.sum_le_sum hrow
  rcases listedTotals_toNat o qsort (sys.pids.map (sys.kernel.procInfo o)) with
    ⟨htotal, htotal', _⟩
  rw [Nat.mod_eq_of_lt (by omega)] at htotal htotal'
  refine ⟨_, procrankMain_eq hargs hnot hpids, ?_, ?_, ?_⟩
  · rw [UInt64.le_iff_toNat_le, UInt64.toNat_div, UInt64.toNat_div, htotal, htotal']
    exact Nat.div_le_div_right huss
  · rw [UInt64.toNat_div, htotal]
    exact Nat.le_trans (Nat.div_mul_le_self _ _) hpss
  · intro row hmem
    rcases List.mem_map.mp hmem with ⟨p, hp, rfl⟩
    exact UInt64.le_iff_toNat_le.mpr (hrow p hp)

theorem procrankMain_within_memory_two :
    exists r, procrankMain pageSystem.kernel Qsort.merge [] = .report r ∧
    r.totalPss.toNat * 1024 <= pageSystem.memory := by
  have hargs : parseArgs .initial [] = .options .initial := rfl
  have hcount : forall frame, frame ∈ pageSystem.frames ->
      pageSystem.frames.count frame <= countOf pageSystem.ker frame :=
    fun frame hframe => Nat.le_of_eq (pageSystem_counted frame hframe)
  rcases @procrankMain_within_memory pageSystem [] .initial hcount
    (by decide +kernel) hargs rfl Qsort.merge with
    ⟨r, hmain, _, hpss, _⟩
  exact ⟨r, hmain, hpss⟩

/-- The kernel does not say of a page that it is both in memory and in swap. -/
def PageSystem.Exclusive (sys : PageSystem) : Prop :=
  forall pid proc, pid ∈ sys.pids -> sys.process pid = .ok proc ->
    forall e, e ∈ pagesOf sys.ker proc -> present e = true -> swapped e = false

/-- A page is passed over unless it is present, and a page that is in swap is
not. -/
theorem usageOf_swap (hexclusive : sys.Exclusive)
    (flagsMask requiredFlags : UInt64) {pid : Int}
    (hpid : pid ∈ sys.pids) : (sys.usageOf flagsMask requiredFlags pid).swap =
    0 := by
  unfold PageSystem.usageOf
  cases hproc : sys.process pid with
  | error e => rfl
  | ok proc =>
      show (usageOr (pmProcessUsageFlags sys.ker flagsMask requiredFlags
        proc)).swap = 0
      cases husage : pmProcessUsageFlags sys.ker flagsMask requiredFlags proc with
      | error e => rfl
      | ok u =>
          have hnone : swapsIn (pagesOf sys.ker proc) = 0 := by
            unfold swapsIn
            rw [List.countP_eq_zero]
            intro e he hboth
            rcases Bool.and_eq_true_iff.mp hboth with ⟨hpresent, hswapped⟩
            rw [hexclusive pid proc hpid hproc e he hpresent] at hswapped
            cases hswapped
          have hswap := (pmProcessUsageFlags_comes husage).swap
          rw [hnone, Nat.zero_mul] at hswap
          exact UInt64.toNat_inj.mp hswap

/-- No process has a usage of swap, and no report has a column for it. -/
theorem procrankMain_no_swap {sys : PageSystem} {args : List Text} {o : Options}
    (hexclusive : sys.Exclusive)
    (hargs : parseArgs .initial args = .options o) (hws : o.ws = .off)
    (qsort : Qsort ProcInfo) :
    (forall pid, pid ∈ sys.pids -> (sys.kernel.procInfo o pid).usage.swap = 0) ∧
      exists r, procrankMain sys.kernel qsort args = .report r ∧
        r.hasSwap = false ∧ r.totalSwap = none := by
  have hnot : o.ws ≠ .reset := fun heq => (nomatch hws.symm.trans heq)
  have hpids : sys.kernel.pids = some sys.pids := rfl
  have hzero : forall pid, pid ∈ sys.pids ->
      (sys.kernel.procInfo o pid).usage.swap = 0 := by
    intro pid hpid
    rw [procInfo_usage sys o hws pid]
    exact usageOf_swap hexclusive _ _ hpid
  have hswap : hasSwap (sys.pids.map (sys.kernel.procInfo o)) = false := by
    unfold hasSwap
    rw [List.any_eq_false]
    intro p hp
    rcases List.mem_map.mp hp with ⟨pid, hpid, rfl⟩
    rw [hzero pid hpid]
    exact fun h => absurd (of_decide_eq_true h) (fun hne => hne rfl)
  refine ⟨hzero, _, procrankMain_eq hargs hnot hpids, hswap, ?_⟩
  rw [hswap]
  rfl

theorem exclusive_of_all {es : List UInt64}
    (h : es.all (fun e => !(present e && swapped e)) = true) :
    forall e, e ∈ es -> present e = true -> swapped e = false := by
  intro e he hpresent
  have hnot := List.all_eq_true.mp h e he
  rw [hpresent, Bool.true_and, Bool.not_eq_eq_eq_not, Bool.not_true] at hnot
  exact hnot

theorem pageSystem_exclusive : pageSystem.Exclusive := by
  intro pid proc hpid hproc
  rcases List.mem_cons.mp hpid with rfl | hpid
  · cases hproc
    exact exclusive_of_all (by decide +kernel)
  · cases List.mem_singleton.mp hpid
    cases hproc
    exact exclusive_of_all (by decide +kernel)

theorem procrankMain_no_swap_two :
    exists r, procrankMain pageSystem.kernel Qsort.merge [] = .report r ∧
    r.hasSwap = false ∧ r.totalSwap = none :=
  (procrankMain_no_swap pageSystem_exclusive rfl rfl Qsort.merge).right

end Reports

end Procrank
end Lepd
