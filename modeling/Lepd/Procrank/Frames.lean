import Mathlib.Data.Nat.Bitwise
import Lepd.Procrank.Pages

/-!
# Page frames and the usage of processes

The numbers of a process as sums over the page frames that it maps, and the sums
over all processes.
-/

namespace Lepd
namespace Procrank

open Foundation

section Process

variable (ker : PmKernel) (flagsMask requiredFlags : UInt64)

def countOf (frame : UInt64) : Nat :=
  match ker.count frame with
  | .ok count => count.toNat
  | .error _ => 0

def selects (frame : UInt64) : Bool :=
  match required ker flagsMask requiredFlags frame with
  | .ok yes => yes
  | .error _ => false

/-- The page frames behind some entries of a page map, of those that have the
flags. -/
def framesIn (entries : List UInt64) : List UInt64 :=
  ((entries.filter (fun e => present e && !swapped e)).map pfn).filter
    (selects ker flagsMask requiredFlags)

def swapsIn (entries : List UInt64) : Nat :=
  entries.countP (fun e => present e && swapped e)

def entriesOf (proc : PmProcess) (map : PmMap) : List UInt64 :=
  match pmProcessPagemapRange ker proc map.start map.stop with
  | .ok entries => entries
  | .error _ => []

def pagesOf (proc : PmProcess) : List UInt64 :=
  proc.maps.flatMap (entriesOf ker proc)

def resident (frame : UInt64) : Nat :=
  if 1 <= countOf ker frame then ker.pagesize.toNat else 0

def share (frame : UInt64) : Nat :=
  ker.pagesize.toNat / countOf ker frame

def own (frame : UInt64) : Nat :=
  if countOf ker frame = 1 then ker.pagesize.toNat else 0

/-- The usage that comes from so many pages, so many of them in swap, and from
some page frames. -/
structure Comes (pages swaps : Nat) (frames : List UInt64) (usage : Usage) :
    Prop where
  vss : usage.vss.toNat = pages * ker.pagesize.toNat % 2 ^ 64
  rss : usage.rss.toNat = (frames.map (resident ker)).sum % 2 ^ 64
  pss : usage.pss.toNat = (frames.map (share ker)).sum % 2 ^ 64
  uss : usage.uss.toNat = (frames.map (own ker)).sum % 2 ^ 64
  swap : usage.swap.toNat = swaps * ker.pagesize.toNat % 2 ^ 64

variable {ker flagsMask requiredFlags}

theorem comes_zero : Comes ker 0 0 [] .zero := by
  constructor
  · rw [Nat.zero_mul]
    rfl
  · rfl
  · rfl
  · rfl
  · rw [Nat.zero_mul]
    rfl

theorem Comes.add {pages swaps pages' swaps' : Nat}
    {frames frames' : List UInt64} {u u' : Usage}
    (h : Comes ker pages swaps frames u) (h' : Comes ker pages' swaps' frames' u') :
    Comes ker (pages + pages') (swaps + swaps') (frames ++ frames') (u.add u') := by
  constructor
  · show (u.vss + u'.vss).toNat = _
    rw [UInt64.toNat_add, h.vss, h'.vss, Nat.add_mul, ← Nat.add_mod]
  · show (u.rss + u'.rss).toNat = _
    rw [UInt64.toNat_add, h.rss, h'.rss, List.map_append, List.sum_append,
      ← Nat.add_mod]
  · show (u.pss + u'.pss).toNat = _
    rw [UInt64.toNat_add, h.pss, h'.pss, List.map_append, List.sum_append,
      ← Nat.add_mod]
  · show (u.uss + u'.uss).toNat = _
    rw [UInt64.toNat_add, h.uss, h'.uss, List.map_append, List.sum_append,
      ← Nat.add_mod]
  · show (u.swap + u'.swap).toNat = _
    rw [UInt64.toNat_add, h.swap, h'.swap, Nat.add_mul, ← Nat.add_mod]

def frameUsage (ker : PmKernel) (count : UInt64) : Usage :=
  ⟨ker.pagesize, if 1 <= count then ker.pagesize else 0, if 1 <= count then
    ker.pagesize / count else 0,
    if count = 1 then ker.pagesize else 0, 0⟩

theorem comes_page : Comes ker 1 0 [] ⟨ker.pagesize, 0, 0, 0, 0⟩ := by
  have hsize := ker.pagesize.toNat_lt
  constructor
  · rw [Nat.one_mul, Nat.mod_eq_of_lt hsize]
  · rfl
  · rfl
  · rfl
  · rw [Nat.zero_mul]
    rfl

theorem comes_swapped : Comes ker 1 1 [] ⟨ker.pagesize, 0, 0, 0, ker.pagesize⟩ := by
  have hsize := ker.pagesize.toNat_lt
  constructor
  · rw [Nat.one_mul, Nat.mod_eq_of_lt hsize]
  · rfl
  · rfl
  · rfl
  · rw [Nat.one_mul, Nat.mod_eq_of_lt hsize]

theorem comes_frame {frame count : UInt64} (h : ker.count frame = .ok count) :
    Comes ker 1 0 [frame] (frameUsage ker count) := by
  have hsize := ker.pagesize.toNat_lt
  have hcount : countOf ker frame = count.toNat := by
    unfold countOf
    rw [h]
  have hone : (1 : UInt64).toNat = 1 := rfl
  have hpos : 1 <= count <-> 1 <= count.toNat := UInt64.le_iff_toNat_le
  constructor
  · show ker.pagesize.toNat = _
    rw [Nat.one_mul, Nat.mod_eq_of_lt hsize]
  · show (if 1 <= count then ker.pagesize else 0).toNat = _
    rw [List.map_singleton, List.sum_singleton, resident, hcount]
    by_cases h1 : 1 <= count
    · rw [if_pos h1, if_pos (hpos.mp h1), Nat.mod_eq_of_lt hsize]
    · rw [if_neg h1, if_neg (fun h2 => h1 (hpos.mpr h2))]
      rfl
  · show (if 1 <= count then ker.pagesize / count else 0).toNat = _
    rw [List.map_singleton, List.sum_singleton, share, hcount]
    have hdiv : ker.pagesize.toNat / count.toNat < 2 ^ 64 :=
      Nat.lt_of_le_of_lt (Nat.div_le_self _ _) hsize
    rw [Nat.mod_eq_of_lt hdiv]
    by_cases h1 : 1 <= count
    · rw [if_pos h1, UInt64.toNat_div]
    · have hzero : count.toNat = 0 :=
        Nat.eq_zero_of_not_pos (fun h2 => h1 (hpos.mpr h2))
      rw [if_neg h1, hzero, Nat.div_zero]
      rfl
  · show (if count = 1 then ker.pagesize else 0).toNat = _
    rw [List.map_singleton, List.sum_singleton, own, hcount]
    by_cases h1 : count = 1
    · rw [if_pos h1, h1, if_pos hone, Nat.mod_eq_of_lt hsize]
    · have hne : count.toNat ≠ 1 := fun h2 =>
        h1 (UInt64.toNat.inj (h2.trans hone.symm))
      rw [if_neg h1, if_neg hne]
      rfl
  · rw [Nat.zero_mul]
    rfl

/-- The loop adds a usage for each entry, and that comes from the entry. -/
theorem addPage_adds {u u' : Usage} {entry : UInt64}
    (h : addPage ker flagsMask requiredFlags u entry = .ok u') :
    exists one, u' = u.add one ∧
      Comes ker 1 (swapsIn [entry]) (framesIn ker flagsMask requiredFlags
        [entry]) one := by
  unfold addPage at h
  unfold swapsIn framesIn
  cases hpresent : present entry with
  | false =>
      rw [hpresent] at h
      cases h
      refine ⟨⟨ker.pagesize, 0, 0, 0, 0⟩, ?_, ?_⟩
      · simp only [Usage.add, UInt64.add_zero]
      · simpa [hpresent] using comes_page
  | true =>
      cases hswapped : swapped entry with
      | true =>
          rw [hpresent, hswapped] at h
          cases h
          refine ⟨⟨ker.pagesize, 0, 0, 0, ker.pagesize⟩, ?_, ?_⟩
          · simp only [Usage.add, UInt64.add_zero]
          · simpa [hpresent, hswapped] using comes_swapped
      | false =>
          rw [hpresent, hswapped] at h
          have hselect : exists yes, required ker flagsMask requiredFlags
              (pfn entry) = .ok yes ∧
              (if yes then counted ker (pfn entry)
                { u with vss := u.vss + ker.pagesize }
                else .ok { u with vss := u.vss + ker.pagesize }) = .ok u' := by
            cases hrequired : required ker flagsMask requiredFlags (pfn entry) with
            | error e =>
                simp only [hrequired] at h
                cases h
            | ok yes =>
                refine ⟨yes, rfl, ?_⟩
                simp only [hrequired] at h
                exact h
          rcases hselect with ⟨yes, hrequired, hrest⟩
          have hselects : selects ker flagsMask requiredFlags (pfn entry) =
              yes := by
            unfold selects
            rw [hrequired]
          cases yes with
          | false =>
              cases hrest
              refine ⟨⟨ker.pagesize, 0, 0, 0, 0⟩, ?_, ?_⟩
              · simp only [Usage.add, UInt64.add_zero]
              · simpa [hpresent, hswapped, hselects] using comes_page
          | true =>
              rw [if_pos rfl] at hrest
              unfold counted at hrest
              cases hcount : ker.count (pfn entry) with
              | error e =>
                  rw [hcount] at hrest
                  cases hrest
              | ok count =>
                  rw [hcount] at hrest
                  cases hrest
                  refine ⟨frameUsage ker count, ?_, ?_⟩
                  · simp only [Usage.add, frameUsage, UInt64.add_zero]
                  · simpa [hpresent, hswapped, hselects] using comes_frame hcount

theorem swapsIn_append (entries more : List UInt64) :
    swapsIn (entries ++ more) = swapsIn entries + swapsIn more :=
  List.countP_append

theorem framesIn_append (entries more : List UInt64) :
    framesIn ker flagsMask requiredFlags (entries ++ more) =
    framesIn ker flagsMask requiredFlags entries ++
      framesIn ker flagsMask requiredFlags more := by
  unfold framesIn
  rw [List.filter_append, List.map_append, List.filter_append]

theorem addPages_comes {entries : List UInt64} {pages swaps : Nat}
    {frames : List UInt64} {u u' : Usage}
    (h : entries.foldlM (addPage ker flagsMask requiredFlags) u = .ok u')
    (hu : Comes ker pages swaps frames u) :
    Comes ker (pages + entries.length) (swaps + swapsIn entries)
      (frames ++ framesIn ker flagsMask requiredFlags entries) u' := by
  induction entries generalizing pages swaps frames u with
  | nil =>
      cases h
      rw [show framesIn ker flagsMask requiredFlags [] = [] from rfl,
        List.append_nil]
      exact hu
  | cons entry entries ih =>
      rw [List.foldlM_cons] at h
      cases hfirst : addPage ker flagsMask requiredFlags u entry with
      | error e =>
          rw [hfirst] at h
          cases h
      | ok next =>
          rw [hfirst] at h
          rcases addPage_adds hfirst with ⟨one, rfl, hone⟩
          have hrest := ih h (hu.add hone)
          have hsplit : entry :: entries = [entry] ++ entries := rfl
          rw [hsplit, swapsIn_append, framesIn_append, List.length_append,
            ← Nat.add_assoc, ← Nat.add_assoc,
            ← List.append_assoc]
          exact hrest

theorem pmMapUsageFlags_comes {proc : PmProcess} {map : PmMap} {u : Usage}
    (h : pmMapUsageFlags ker flagsMask requiredFlags proc map = .ok u) :
    Comes ker (entriesOf ker proc map).length (swapsIn (entriesOf ker proc map))
      (framesIn ker flagsMask requiredFlags (entriesOf ker proc map)) u := by
  unfold pmMapUsageFlags at h
  unfold entriesOf
  cases hrange : pmProcessPagemapRange ker proc map.start map.stop with
  | error e =>
      rw [hrange] at h
      cases h
  | ok entries =>
      rw [hrange] at h
      have hall := addPages_comes h comes_zero
      rw [Nat.zero_add, Nat.zero_add, List.nil_append] at hall
      exact hall

theorem addMaps_comes {proc : PmProcess} {maps : List PmMap} {pages swaps : Nat}
    {frames : List UInt64} {u u' : Usage}
    (h : maps.foldlM (fun u map =>
    (pmMapUsageFlags ker flagsMask requiredFlags proc map).map u.add) u = .ok u')
    (hu : Comes ker pages swaps frames u) :
    Comes ker (pages + (maps.flatMap (entriesOf ker proc)).length)
      (swaps + swapsIn (maps.flatMap (entriesOf ker proc)))
      (frames ++ framesIn ker flagsMask requiredFlags
        (maps.flatMap (entriesOf ker proc))) u' := by
  induction maps generalizing pages swaps frames u with
  | nil =>
      cases h
      rw [List.flatMap_nil, show framesIn ker flagsMask requiredFlags [] =
        [] from rfl, List.append_nil]
      exact hu
  | cons map maps ih =>
      rw [List.foldlM_cons] at h
      cases hfirst : pmMapUsageFlags ker flagsMask requiredFlags proc map with
      | error e =>
          rw [hfirst] at h
          cases h
      | ok one =>
          rw [hfirst] at h
          have hrest := ih h (hu.add (pmMapUsageFlags_comes hfirst))
          rw [List.flatMap_cons, swapsIn_append, framesIn_append,
            List.length_append, ← Nat.add_assoc, ← Nat.add_assoc,
            ← List.append_assoc]
          exact hrest

theorem pmProcessUsageFlags_comes {proc : PmProcess} {u : Usage}
    (h : pmProcessUsageFlags ker flagsMask requiredFlags proc = .ok u) :
    Comes ker (pagesOf ker proc).length (swapsIn (pagesOf ker proc))
      (framesIn ker flagsMask requiredFlags (pagesOf ker proc)) u := by
  have hall := addMaps_comes h comes_zero
  rw [Nat.zero_add, Nat.zero_add, List.nil_append] at hall
  exact hall

/-!
# The numbers of one process
-/

theorem own_le_share (frame : UInt64) : own ker frame <= share ker frame := by
  unfold own share
  split
  · next h => rw [h, Nat.div_one]
  · exact Nat.zero_le _

theorem share_le_resident (frame : UInt64) :
    share ker frame <= resident ker frame := by
  unfold share resident
  split
  · exact Nat.div_le_self _ _
  · next h =>
      rw [Nat.eq_zero_of_not_pos h, Nat.div_zero]

theorem resident_le (frame : UInt64) :
    resident ker frame <= ker.pagesize.toNat := by
  unfold resident
  split
  · exact Nat.le_refl _
  · exact Nat.zero_le _

variable (ker) in
theorem sum_own_le (frames : List UInt64) :
    (frames.map (own ker)).sum <= (frames.map (share ker)).sum :=
  List.sum_le_sum (fun frame _ => own_le_share frame)

variable (ker) in
theorem sum_share_le (frames : List UInt64) :
    (frames.map (share ker)).sum <= (frames.map (resident ker)).sum :=
  List.sum_le_sum (fun frame _ => share_le_resident frame)

variable (ker) in
theorem sum_resident_le (frames : List UInt64) :
    (frames.map (resident ker)).sum <= frames.length * ker.pagesize.toNat := by
  have h := List.sum_le_card_nsmul (frames.map (resident ker))
    ker.pagesize.toNat (by
    intro n hn
    rcases List.mem_map.mp hn with ⟨frame, _, rfl⟩
    exact resident_le frame)
  rw [List.length_map] at h
  exact h

theorem framesIn_length_le (entries : List UInt64) :
    (framesIn ker flagsMask requiredFlags entries).length + swapsIn entries <=
    entries.length := by
  have hframes : (framesIn ker flagsMask requiredFlags entries).length <=
      entries.countP (fun e => present e && !swapped e) := by
    have hle := List.length_filter_le (selects ker flagsMask requiredFlags)
      ((entries.filter (fun e => present e && !swapped e)).map pfn)
    rw [List.length_map] at hle
    rw [List.countP_eq_length_filter]
    exact hle
  have hswaps : swapsIn entries <= entries.countP (fun e =>
    decide (¬ (present e && !swapped e) = true)) := by
    apply List.countP_mono_left
    intro e _ h
    rcases Bool.and_eq_true_iff.mp h with ⟨hpresent, hswapped⟩
    rw [hpresent, hswapped]
    rfl
  have hall := List.length_eq_countP_add_countP
    (fun e => present e && !swapped e) (l := entries)
  omega

/--
A process has its own pages as part of its proportional share, that share as
part of what is resident, and what is resident or in swap as part of its address
space.
-/
theorem pmProcessUsageFlags_ordered {proc : PmProcess} {u : Usage}
    (h : pmProcessUsageFlags ker flagsMask requiredFlags proc = .ok u)
    (hroom : (pagesOf ker proc).length * ker.pagesize.toNat < 2 ^ 64) :
    u.uss <= u.pss ∧ u.pss <= u.rss ∧ u.rss.toNat + u.swap.toNat <= u.vss.toNat ∧
      u.vss.toNat = (pagesOf ker proc).length * ker.pagesize.toNat := by
  have hcomes := pmProcessUsageFlags_comes h
  have howned :=
    sum_own_le ker (framesIn ker flagsMask requiredFlags (pagesOf ker proc))
  have hshared :=
    sum_share_le ker (framesIn ker flagsMask requiredFlags (pagesOf ker proc))
  have hresident := sum_resident_le ker
    (framesIn ker flagsMask requiredFlags (pagesOf ker proc))
  have hpages :
      (framesIn ker flagsMask requiredFlags (pagesOf ker proc)).length *
      ker.pagesize.toNat +
      swapsIn (pagesOf ker proc) * ker.pagesize.toNat <=
        (pagesOf ker proc).length * ker.pagesize.toNat := by
    rw [← Nat.add_mul]
    exact Nat.mul_le_mul_right _ (framesIn_length_le (pagesOf ker proc))
  have hvss : u.vss.toNat = (pagesOf ker proc).length * ker.pagesize.toNat := by
    rw [hcomes.vss, Nat.mod_eq_of_lt hroom]
  have hrss := hcomes.rss
  have hpss := hcomes.pss
  have huss := hcomes.uss
  have hswap := hcomes.swap
  rw [Nat.mod_eq_of_lt (by omega)] at hrss hpss huss hswap
  rw [UInt64.le_iff_toNat_le, UInt64.le_iff_toNat_le]
  omega

def someKernel : PmKernel where
  pagesize := 4096
  count := fun frame => .ok (if frame = 1 then 1 else 2)
  flags := fun frame => .ok (if frame = 1 then pmPageSwapbacked else 0)

def someProcess : PmProcess where
  maps := [⟨0x1000, 0x4000⟩]
  read := fun _ _ => .ok [0x8000000000000001, 0x8000000000000002, 0]
  memory := fun _ => 0

def someUsage : Usage :=
  ⟨12288, 8192, 6144, 4096, 0⟩

theorem pmProcessUsageFlags_ordered_some :
    pmProcessUsageFlags someKernel 0 0 someProcess = .ok someUsage ∧
    someUsage.uss <= someUsage.pss ∧ someUsage.pss <= someUsage.rss := by
  have husage : pmProcessUsageFlags someKernel 0 0 someProcess =
      .ok someUsage := rfl
  rcases pmProcessUsageFlags_ordered husage (by decide) with ⟨huss, hpss, _⟩
  exact ⟨husage, huss, hpss⟩

/-!
# Pages with a flag and pages without
-/

theorem and_shift_cases (flags : UInt64) {flag : UInt64}
    (hflag : exists k : Nat, k < 64 ∧ flag.toNat = 2 ^ k) :
    flags &&& flag = 0 ∨ flags &&& flag = flag := by
  rcases hflag with ⟨k, hk, hflag⟩
  rw [← UInt64.toNat_inj, ← UInt64.toNat_inj, UInt64.toNat_and, hflag,
    Nat.and_two_pow]
  cases flags.toNat.testBit k with
  | false => exact Or.inl (Nat.zero_mul _)
  | true => exact Or.inr (Nat.one_mul _)

theorem selects_none (frame : UInt64) : selects ker 0 0 frame = true := rfl

theorem framesIn_none (entries : List UInt64) :
    framesIn ker 0 0 entries =
      (entries.filter (fun e => present e && !swapped e)).map pfn :=
  List.filter_eq_self.mpr (fun frame _ => selects_none frame)

theorem framesIn_eq (entries : List UInt64) :
    framesIn ker flagsMask requiredFlags entries =
    (framesIn ker 0 0 entries).filter (selects ker flagsMask requiredFlags) := by
  rw [framesIn_none]
  rfl

def Looked (ker : PmKernel) (flagsMask requiredFlags : UInt64)
    (entries : List UInt64) : Prop :=
  forall e, e ∈ entries -> present e = true -> swapped e = false ->
    exists yes, required ker flagsMask requiredFlags (pfn e) = .ok yes

theorem addPage_looked {u u' : Usage} {entry : UInt64}
    (h : addPage ker flagsMask requiredFlags u entry = .ok u')
    (hpresent : present entry = true) (hswapped : swapped entry = false) :
    exists yes, required ker flagsMask requiredFlags (pfn entry) = .ok yes := by
  unfold addPage at h
  rw [hpresent, hswapped] at h
  cases hrequired : required ker flagsMask requiredFlags (pfn entry) with
  | error e =>
      simp only [hrequired] at h
      cases h
  | ok yes => exact ⟨yes, rfl⟩

theorem addPages_looked {entries : List UInt64} {u u' : Usage}
    (h : entries.foldlM (addPage ker flagsMask requiredFlags) u = .ok u') :
    Looked ker flagsMask requiredFlags entries := by
  induction entries generalizing u with
  | nil =>
      intro e he
      cases he
  | cons entry entries ih =>
      rw [List.foldlM_cons] at h
      cases hfirst : addPage ker flagsMask requiredFlags u entry with
      | error e =>
          rw [hfirst] at h
          cases h
      | ok next =>
          rw [hfirst] at h
          intro e he hpresent hswapped
          rcases List.mem_cons.mp he with rfl | hrest
          · exact addPage_looked hfirst hpresent hswapped
          · exact ih h e hrest hpresent hswapped

theorem addMaps_looked {proc : PmProcess} {maps : List PmMap} {u u' : Usage}
    (h : maps.foldlM (fun u map =>
    (pmMapUsageFlags ker flagsMask requiredFlags proc map).map u.add) u = .ok u') :
    Looked ker flagsMask requiredFlags (maps.flatMap (entriesOf ker proc)) := by
  induction maps generalizing u with
  | nil =>
      intro e he
      cases he
  | cons map maps ih =>
      rw [List.foldlM_cons] at h
      cases hfirst : pmMapUsageFlags ker flagsMask requiredFlags proc map with
      | error e =>
          rw [hfirst] at h
          cases h
      | ok one =>
          rw [hfirst] at h
          intro e he hpresent hswapped
          rw [List.flatMap_cons] at he
          rcases List.mem_append.mp he with hmap | hrest
          · unfold pmMapUsageFlags at hfirst
            unfold entriesOf at hmap
            cases hrange : pmProcessPagemapRange ker proc map.start map.stop with
            | error e =>
                rw [hrange] at hmap
                cases hmap
            | ok entries =>
                rw [hrange] at hfirst hmap
                exact addPages_looked hfirst e hmap hpresent hswapped
          · exact ih h e hrest hpresent hswapped

theorem selects_flag {flag : UInt64}
    (hflag : exists k : Nat, k < 64 ∧ flag.toNat = 2 ^ k) {frame : UInt64}
    (h : exists yes, required ker flag flag frame = .ok yes) :
    selects ker flag 0 frame = !selects ker flag flag frame := by
  have hne : flag ≠ 0 := by
    rcases hflag with ⟨k, _, hk⟩
    intro heq
    rw [heq] at hk
    exact absurd hk.symm (Nat.ne_of_gt (Nat.two_pow_pos k))
  rcases h with ⟨yes, hyes⟩
  unfold selects required
  unfold required at hyes
  rw [if_pos hne] at hyes
  rw [if_pos hne, if_pos hne]
  cases hflags : ker.flags frame with
  | error e =>
      rw [hflags] at hyes
      cases hyes
  | ok flags =>
      show decide (flags &&& flag = 0) = !decide (flags &&& flag = flag)
      rcases and_shift_cases flags hflag with hzero | hone
      · rw [hzero]
        simpa using hne.symm
      · rw [hone]
        simpa using hne

theorem Comes.split {pages swaps : Nat} {frames some₁ some₂ : List UInt64}
    {u u₁ u₂ : Usage}
    (h : Comes ker pages swaps frames u) (h₁ : Comes ker pages swaps some₁ u₁)
    (h₂ : Comes ker pages swaps some₂ u₂)
    (hperm : (some₁ ++ some₂).Perm frames) : u₁.rss + u₂.rss = u.rss ∧
    u₁.pss + u₂.pss = u.pss ∧ u₁.uss + u₂.uss = u.uss := by
  have hsum : forall f : UInt64 -> Nat, (some₁.map f).sum + (some₂.map f).sum =
      (frames.map f).sum := by
    intro f
    rw [← List.sum_append, ← List.map_append]
    exact (hperm.map f).sum_nat
  refine ⟨?_, ?_, ?_⟩
  · rw [← UInt64.toNat_inj, UInt64.toNat_add, h₁.rss, h₂.rss, ← Nat.add_mod,
      hsum, h.rss]
  · rw [← UInt64.toNat_inj, UInt64.toNat_add, h₁.pss, h₂.pss, ← Nat.add_mod,
      hsum, h.pss]
  · rw [← UInt64.toNat_inj, UInt64.toNat_add, h₁.uss, h₂.uss, ← Nat.add_mod,
      hsum, h.uss]

/--
The pages without a flag and those with it make up the process, for one flag, as
`-c` and `-C` ask for them: no page is in both reports or in neither.
-/
theorem pmProcessUsageFlags_split {flag : UInt64}
    (hflag : exists k : Nat, k < 64 ∧ flag.toNat = 2 ^ k) {proc : PmProcess}
    {u without withFlag : Usage} (h : pmProcessUsageFlags ker 0 0 proc = .ok u)
    (hwithout : pmProcessUsageFlags ker flag 0 proc = .ok without)
    (hwith : pmProcessUsageFlags ker flag flag proc = .ok withFlag) :
    withFlag.rss + without.rss = u.rss ∧ withFlag.pss + without.pss = u.pss ∧
      withFlag.uss + without.uss = u.uss ∧
      withFlag.vss = u.vss ∧ without.vss = u.vss ∧ withFlag.swap = u.swap ∧
        without.swap = u.swap := by
  have hall := pmProcessUsageFlags_comes h
  have hcomes := pmProcessUsageFlags_comes hwithout
  have hcomes' := pmProcessUsageFlags_comes hwith
  have hlooked : Looked ker flag flag (pagesOf ker proc) := addMaps_looked hwith
  have hother : framesIn ker flag 0 (pagesOf ker proc) =
      (framesIn ker 0 0 (pagesOf ker proc)).filter (fun frame =>
        !selects ker flag flag frame) := by
    rw [framesIn_eq]
    apply List.filter_congr
    intro frame hframe
    rw [framesIn_none] at hframe
    rcases List.mem_map.mp hframe with ⟨e, he, rfl⟩
    rcases List.mem_filter.mp he with ⟨hmem, hboth⟩
    rcases Bool.and_eq_true_iff.mp hboth with ⟨hpresent, hswapped⟩
    exact selects_flag hflag (hlooked e hmem hpresent (by simpa using hswapped))
  have hperm : (framesIn ker flag flag (pagesOf ker proc) ++ framesIn ker flag 0
    (pagesOf ker proc)).Perm
      (framesIn ker 0 0 (pagesOf ker proc)) := by
    rw [hother, framesIn_eq]
    exact List.filter_append_perm _ _
  rcases hall.split hcomes' hcomes hperm with ⟨hrss, hpss, huss⟩
  refine ⟨hrss, hpss, huss, ?_, ?_, ?_, ?_⟩
  · exact UInt64.toNat_inj.mp (hcomes'.vss.trans hall.vss.symm)
  · exact UInt64.toNat_inj.mp (hcomes.vss.trans hall.vss.symm)
  · exact UInt64.toNat_inj.mp (hcomes'.swap.trans hall.swap.symm)
  · exact UInt64.toNat_inj.mp (hcomes.swap.trans hall.swap.symm)

theorem pmProcessUsageFlags_split_some :
    (⟨12288, 4096, 4096, 4096, 0⟩ : Usage).rss +
    (⟨12288, 4096, 2048, 0, 0⟩ : Usage).rss = someUsage.rss := by
  have hflag : exists k : Nat, k < 64 ∧ pmPageSwapbacked.toNat = 2 ^ k :=
    ⟨14, by decide, rfl⟩
  have husage : pmProcessUsageFlags someKernel 0 0 someProcess =
      .ok someUsage := rfl
  exact (pmProcessUsageFlags_split hflag husage rfl rfl).left

end Process

end Procrank
end Lepd
