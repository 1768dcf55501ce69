import Lepd.Cgtop.Strings
import Lepd.Cgtop.Traversal

/-!
# The rates of cgtop

A rate is the growth of a counter by the time that has passed. What `process`
subtracts from each counter was read from the counter of the root, or never read
at all; and the branch for `blkio` takes the present time from a variable that
is not assigned.
-/

namespace Lepd
namespace Cgtop

open Foundation
open Foundation.Program
open Ps (Text bytes byte)
open CJson (cString)

/-!
# Growth and time
-/

/-- The difference of `new` and `old` is what a counter has grown by since it
was `base`, and it does not wrap. -/
structure Growth (base old new difference : UInt64) : Prop where
  grown : base.toNat + difference.toNat = new.toNat
  noWrap : old <= new

theorem growth_iff {base old new : UInt64} (h : base <= new) :
    Growth base old new (new - old) <-> base = old := by
  constructor
  · intro hgrowth
    have hdifference := UInt64.toNat_sub_of_le new old hgrowth.noWrap
    have hgrown := hgrowth.grown
    have hle : old.toNat <= new.toNat := hgrowth.noWrap
    rw [hdifference] at hgrown
    apply UInt64.toNat_inj.mp
    omega
  · intro hsame
    subst hsame
    have hle : base.toNat <= new.toNat := h
    constructor
    · rw [UInt64.toNat_sub_of_le new base h]
      omega
    · exact h

def Timespec.nanoseconds (t : Timespec) : Nat :=
  t.sec.toNat * 1000000000 + t.nsec.toNat

theorem Timespec.toNat_ns (t : Timespec) : t.ns.toNat = t.nanoseconds % 2 ^ 64 := by
  unfold Timespec.ns Timespec.nanoseconds
  rw [UInt64.toNat_add, UInt64.toNat_mul]
  simp

structure Elapsed (old now : Timespec) (divisor : UInt64) : Prop where
  passed : old.nanoseconds + divisor.toNat = now.nanoseconds
  nonzero : divisor ≠ 0

def Passed (old now : Timespec) : Prop :=
  old.nanoseconds < now.nanoseconds ∧ now.nanoseconds < old.nanoseconds + 2 ^ 64

theorem elapsed_iff (old now t : Timespec) :
    Elapsed old now (t.ns - old.ns) <-> t.ns = now.ns ∧ Passed old now := by
  have hold := old.toNat_ns
  have hnow := now.toNat_ns
  have hdifference := UInt64.toNat_sub t.ns old.ns
  have ht := t.ns.toNat_lt
  constructor
  · intro hgiven
    rcases hgiven with ⟨hpassed, hnonzero⟩
    have hpositive : (t.ns - old.ns).toNat ≠ 0 := fun h =>
      hnonzero (UInt64.toNat_inj.mp h)
    have hlt := (t.ns - old.ns).toNat_lt
    refine ⟨UInt64.toNat_inj.mp ?_, ?_, ?_⟩
    · omega
    · omega
    · omega
  · intro hgiven
    rcases hgiven with ⟨hsame, hless, hbound⟩
    rw [hsame] at hdifference ⊢
    have hpassed : old.nanoseconds + (now.ns - old.ns).toNat =
        now.nanoseconds := by omega
    refine ⟨hpassed, ?_⟩
    intro hzero
    rw [hzero] at hpassed
    have h0 : (0 : UInt64).toNat = 0 := rfl
    omega

/-- The product with the number of nanoseconds of a second is exact while the
growth is below `2 ^ 63 / 10 ^ 9`. -/
def Scaled (growth : UInt64) : Prop :=
  growth.toNat < 2 ^ 63 / 10 ^ 9 -> (growth * 1000000000).toNat = growth.toNat *
    10 ^ 9

theorem scaled (growth : UInt64) : Scaled growth := by
  intro h
  have hfactor : (1000000000 : UInt64).toNat = 10 ^ 9 := rfl
  rw [UInt64.toNat_mul, hfactor]
  apply Nat.mod_eq_of_lt
  omega

/-!
# Readings
-/

def lineAt (env : Env) (fn : Text) (tick : Nat) : Option Text :=
  (env.fopen tick fn).bind (fun file =>
    (fgets 20 (.opened file.1 file.2)).map (fun line =>
      (cString line.1).takeWhile (fun c => c != newline && c != byte '\r')))

def usageAt (env : Env) (path : Text) (tick : Nat) : Option UInt64 :=
  (lineAt env (cgGetPath .cpuacct path (bytes "cpuacct.usage")) tick).map strtoull

def totalsAt (env : Env) (path : Text) (tick : Nat) : Option Totals :=
  (env.fopen tick (cgGetPath .blkio path (bytes "blkio.io_service_bytes"))).map
    (fun file =>
    totalsOf (.opened file.1 file.2))

/-- No counter is read as less than what it was read as before. -/
structure Nondecreasing (env : Env) : Prop where
  usage : forall path {t t' u u'}, t <= t' -> usageAt env path t = some u ->
    usageAt env path t' = some u' -> u <= u'
  totals : forall path {t t' u u'}, t <= t' -> totalsAt env path t = some u ->
    totalsAt env path t' = some u' ->
    u.rd <= u'.rd ∧ u.wr <= u'.wr

/-- The rates of a visit are derived from the growth of the counters of the
visited group. -/
def Derived (env : Env) (visit : Visit) : Prop :=
  match visit.rates with
  | .none => True
  | .cpu saved _ clockAt newUsage x y =>
      (exists base, usageAt env visit.path saved.usageAt = some base ∧
        Growth base saved.oldUsage newUsage y) ∧
        Elapsed saved.oldTime (env.clock clockAt) x
  | .io saved _ doneAt _ totals i jr jw =>
      (exists base, totalsAt env visit.path saved.blkioAt = some base ∧
        Growth base.rd saved.oldRd totals.rd jr ∧
          Growth base.wr saved.oldWr totals.wr jw) ∧
        Scaled jr ∧ Scaled jw ∧ Elapsed saved.oldTime (env.clock doneAt) i

/-- What was saved are the counters of the visited group, and the times differ
as they should. -/
def Matches (env : Env) (visit : Visit) : Prop :=
  match visit.rates with
  | .none => True
  | .cpu saved _ clockAt _ _ _ =>
      usageAt env visit.path saved.usageAt = some saved.oldUsage ∧
        Passed saved.oldTime (env.clock clockAt)
  | .io saved _ doneAt stampAt _ _ _ _ =>
      totalsAt env visit.path saved.blkioAt = some ⟨saved.oldRd, saved.oldWr⟩ ∧
        (env.stamp stampAt).ns = (env.clock doneAt).ns ∧
          Passed saved.oldTime (env.clock doneAt)

def Recorded (env : Env) (visit : Visit) : Prop :=
  match visit.rates with
  | .none => True
  | .cpu saved readAt clockAt newUsage x y =>
      saved.usageAt <= readAt ∧ usageAt env visit.path readAt = some newUsage ∧
        x = (env.clock clockAt).ns - saved.oldTime.ns ∧ y = newUsage -
          saved.oldUsage
  | .io saved readAt _ stampAt totals i jr jw =>
      saved.blkioAt <= readAt ∧ totalsAt env visit.path readAt = some totals ∧
        i = (env.stamp stampAt).ns - saved.oldTime.ns ∧
        jr = totals.rd - saved.oldRd ∧ jw = totals.wr - saved.oldWr

theorem Recorded.derived_iff {env : Env} {visit : Visit}
    (hmono : Nondecreasing env) (h : Recorded env visit) :
    Derived env visit <-> Matches env visit := by
  unfold Recorded at h
  unfold Derived Matches
  cases hrates : visit.rates with
  | none =>
      exact Iff.rfl
  | cpu saved readAt clockAt newUsage x y =>
      rw [hrates] at h
      rcases h with ⟨hbefore, hread, rfl, rfl⟩
      constructor
      · intro hgiven
        rcases hgiven with ⟨⟨base, hbase, hgrowth⟩, helapsed⟩
        have hsame :=
          (growth_iff (hmono.usage visit.path hbefore hbase hread)).mp hgrowth
        exact ⟨hsame ▸ hbase, ((elapsed_iff _ _ _).mp helapsed).right⟩
      · intro hgiven
        rcases hgiven with ⟨hbase, hpassed⟩
        have hgrowth :=
          (growth_iff (hmono.usage visit.path hbefore hbase hread)).mpr rfl
        exact ⟨⟨_, hbase, hgrowth⟩, (elapsed_iff _ _ _).mpr ⟨rfl, hpassed⟩⟩
  | io saved readAt doneAt stampAt totals i jr jw =>
      rw [hrates] at h
      rcases h with ⟨hbefore, hread, rfl, rfl, rfl⟩
      constructor
      · intro hgiven
        rcases hgiven with ⟨⟨base, hbase, hgrowth, hgrowth'⟩, _, _, helapsed⟩
        rcases hmono.totals visit.path hbefore hbase hread with ⟨hrd, hwr⟩
        have hsame : base = ⟨saved.oldRd, saved.oldWr⟩ := by
          rw [← (growth_iff hrd).mp hgrowth, ← (growth_iff hwr).mp hgrowth']
        exact ⟨hsame ▸ hbase, (elapsed_iff _ _ _).mp helapsed⟩
      · intro hgiven
        rcases hgiven with ⟨hbase, hpassed⟩
        rcases hmono.totals visit.path hbefore hbase hread with ⟨hrd, hwr⟩
        exact ⟨⟨_, hbase, (growth_iff hrd).mpr rfl, (growth_iff hwr).mpr rfl⟩,
          scaled _, scaled _,
          (elapsed_iff _ _ _).mpr hpassed⟩

/-!
# Every visit of a run
-/

/-- The counters were saved before, and every visit is recorded as it was
computed. -/
structure Sound (env : Env) (w : World) : Prop where
  usage : w.saved.usageAt <= w.tick
  blkio : w.saved.blkioAt <= w.tick
  visits : forall visit, visit ∈ w.visits -> Recorded env visit

theorem Sound.later {env : Env} {w w' : World} (h : Sound env w)
    (hlater : Later w w') : Sound env w' where
  usage := by
    rw [hlater.saved]
    exact h.usage.trans hlater.tick
  blkio := by
    rw [hlater.saved]
    exact h.blkio.trans hlater.tick
  visits := by
    rw [hlater.visits]
    exact h.visits

theorem Plain.sound {value : Type} {p : Routine value} (h : Plain p)
    (env : Env) : Keeps (Sound env) p :=
  h.keeps (fun _ _ => Sound.later)

theorem readOneLineFile_lineAt {env : Env} {fn : Text} {w w' : World}
    {line : Option Text}
    (hrun : readOneLineFile env fn w = some (line, w')) :
    line = lineAt env fn w.tick := by
  rcases bind_eq_some hrun with ⟨file, t, hopen, hrest⟩
  unfold lineAt
  rcases fopen_cases hopen with ⟨hnone, rfl, rfl⟩ | ⟨content, ending, hsome,
    rfl, rfl⟩
  · cases hrest
    rw [hnone]
    rfl
  · rw [hsome, Option.bind_some]
    dsimp only at hrest
    cases hline : fgets 20 (.opened content ending) with
    | none =>
        rw [hline] at hrest
        cases hrest
        rfl
    | some t =>
        rw [hline] at hrest
        cases hrest
        rfl

theorem joined_path (env : Env) (controller : Controller) (path suffix : Text) :
    Partial (Sound env) (joinPath env controller path suffix)
      (fun p w => Sound env w ∧ p = cgGetPath controller path suffix) := by
  intro w p w' hw hrun
  exact ⟨hw.later ((joinPath_plain env _ _ _).later hrun), joinPath_text hrun⟩

def Computed (env : Env) (controller : Controller) (path : Text)
    (found : Option Rates) : Prop :=
  forall rates, found = some rates -> forall node,
    Recorded env ⟨controller, path, node, rates⟩

theorem cpuRates_computed (env : Env) (path : Text) (g : Nat) :
    Partial (Sound env) (cpuRates env path g) (fun found w => Sound env w ∧
      Computed env .cpuacct path found) := by
  refine Partial.bind (joined_path env .cpuacct path _) ?_
  intro p w found w' hp hrun
  rcases hp with ⟨hw, rfl⟩
  rcases bind_eq_some hrun with ⟨readAt, t, hnow, hrun⟩
  cases hnow
  rcases bind_eq_some hrun with ⟨line, t, hread, hrun⟩
  have hline := readOneLineFile_lineAt hread
  have ht := (readOneLineFile_plain env _).later hread
  cases line with
  | none =>
      cases hrun
      exact ⟨hw.later ht, fun _ h => by cases h⟩
  | some v =>
      rcases bind_eq_some hrun with ⟨clockAt, t', hnow, hrun⟩
      cases hnow
      rcases bind_eq_some hrun with ⟨ts, t', hclock, hrun⟩
      cases hclock
      rcases bind_eq_some hrun with ⟨saved, t', hsaved, hrun⟩
      cases hsaved
      rcases bind_eq_some hrun with ⟨_, t', hset, hrun⟩
      have ht' := (setGroup_plain g _).later hset
      have hclock : Later t { t with tick := t.tick + 1 } :=
        ⟨rfl, rfl, rfl, Nat.le_succ _⟩
      cases hrun
      constructor
      · exact hw.later ((ht.trans hclock).trans ht')
      · intro rates hrates node
        cases hrates
        refine ⟨?_, ?_, rfl, rfl⟩
        · show t.saved.usageAt <= w.tick
          rw [ht.saved]
          exact hw.usage
        · show usageAt env path w.tick = some (strtoull v)
          rw [usageAt, ← hline]
          rfl

theorem ioRates_computed (env : Env) (path : Text) (g : Nat) :
    Partial (Sound env) (ioRates env path g) (fun found w => Sound env w ∧
      Computed env .blkio path found) := by
  refine Partial.bind (joined_path env .blkio path _) ?_
  intro p w found w' hp hrun
  rcases hp with ⟨hw, rfl⟩
  rcases bind_eq_some hrun with ⟨readAt, t, hnow, hrun⟩
  cases hnow
  rcases bind_eq_some hrun with ⟨file, t, hopen, hrun⟩
  have ht := (fopen_plain env _).later hopen
  rcases fopen_cases hopen with ⟨_, rfl, rfl⟩ | ⟨content, ending, hfile, rfl, rfl⟩
  · cases hrun
    exact ⟨hw.later ht, fun _ h => by cases h⟩
  · rcases bind_eq_some hrun with ⟨_, t, hclose, hrun⟩
    cases hclose
    rcases bind_eq_some hrun with ⟨stampAt, t, hstamp, hrun⟩
    cases hstamp
    rcases bind_eq_some hrun with ⟨ts, t, hts, hrun⟩
    cases hts
    rcases bind_eq_some hrun with ⟨doneAt, t, hnow, hrun⟩
    cases hnow
    rcases bind_eq_some hrun with ⟨saved, t, hsaved, hrun⟩
    cases hsaved
    dsimp only at hrun
    split at hrun
    · cases hrun
    · rcases bind_eq_some hrun with ⟨_, t, hset, hrun⟩
      have ht' := (setGroup_plain g _).later hset
      cases hrun
      constructor
      · apply Sound.later _ ht'
        exact ⟨hw.usage.trans (Nat.le_succ _), hw.blkio.trans (Nat.le_succ _),
          hw.visits⟩
      · intro rates hrates node
        cases hrates
        refine ⟨hw.blkio, ?_, rfl, rfl, rfl⟩
        show totalsAt env path w.tick = some (totalsOf (.opened content ending))
        rw [totalsAt, hfile]
        rfl

theorem memoryUsage_computed (env : Env) (path : Text) (g : Nat) :
    Partial (Sound env) (memoryUsage env path g) (fun found w => Sound env w ∧
      Computed env .memory path found) := by
  refine Partial.bind ((joinPath_plain env _ _ _).sound env) ?_
  intro p
  refine Partial.bind ((readOneLineFile_plain env p).sound env) ?_
  intro line
  cases line with
  | none =>
      apply Partial.pure
      intro w hw
      exact ⟨hw, fun _ h => by cases h⟩
  | some v =>
      refine Partial.bind ((setGroup_plain g _).sound env) ?_
      intro _
      apply Partial.pure
      intro w hw
      refine ⟨hw, ?_⟩
      intro rates hrates node
      cases hrates
      trivial

theorem rates_computed (env : Env) (controller : Controller) (path : Text)
    (g : Nat) :
    Partial (Sound env) (rates env controller path g)
      (fun found w => Sound env w ∧ Computed env controller path found) := by
  cases controller with
  | systemd =>
      apply Partial.pure
      intro w hw
      refine ⟨hw, ?_⟩
      intro rates hrates node
      cases hrates
      trivial
  | cpuacct =>
      exact cpuRates_computed env path g
  | memory =>
      exact memoryUsage_computed env path g
  | blkio =>
      exact ioRates_computed env path g

theorem insertGroup_sound {env : Env} {visit : Visit}
    (hvisit : Recorded env visit) :
    Keeps (Sound env) (insertGroup visit) := by
  intro w a w' hw hrun
  rcases Option.map_eq_some_iff.mp hrun with ⟨heap, _, hheap⟩
  cases hheap
  refine ⟨hw.usage, hw.blkio, ?_⟩
  intro other hother
  rcases List.mem_cons.mp hother with rfl | hother
  · exact hvisit
  · exact hw.visits other hother

theorem process_sound (env : Env) (controller : Controller) (path : Text) :
    Keeps (Sound env) (process env controller path) := by
  apply Keeps.bind (mallocGroup_plain.sound env)
  intro g
  apply Keeps.bind ((joinPath_plain env _ _ _).sound env)
  intro fs
  apply Keeps.bind ((fopen_plain env _).sound env)
  intro file
  split
  · exact (report_plain (-1)).sound env
  next fd f =>
    apply Keeps.bind Partial.lift
    intro counted
    apply Keeps.bind ((fclose_plain fd).sound env)
    intro _
    apply Keeps.bind ((storePathFresh_plain env fs).sound env)
    intro name
    apply Keeps.bind ((setGroup_plain g _).sound env)
    intro _
    refine Partial.bind (rates_computed env controller path g) ?_
    intro found w a w' hw hrun
    cases found with
    | none =>
        exact (report_plain (-1)).sound env w a w' hw.left hrun
    | some rates =>
        have hrest : Keeps (Sound env) (do
            insertGroup ⟨controller, path, g, rates⟩
            let r <- arbitraryInt env
            report r) := by
          apply Keeps.bind (insertGroup_sound (hw.right rates rfl g))
          intro _
          apply Keeps.bind ((arbitraryInt_plain env).sound env)
          intro r
          exact (report_plain r).sound env
        exact hrest w a w' hw.left hrun

theorem keptByParts_sound (env : Env) : KeptByParts env (Sound env) where
  process := process_sound env
  joinPath := fun controller path suffix =>
    (joinPath_plain env controller path suffix).sound env
  joinSubgroup := fun path name => (joinSubgroup_plain env path name).sound env
  opendir := fun path => (opendir_plain env path).sound env
  arbitraryInt := (arbitraryInt_plain env).sound env
  report := fun r => (report_plain r).sound env

/-!
# The saved counters
-/

structure UsageRead (w : World) : Prop where
  usage : w.saved.usageAt <= w.tick
  visits : w.visits = []

theorem readFromCpuacct_usageRead (env : Env) :
    Partial (fun w => w.visits = []) (readFromCpuacct env)
      (fun _ => UsageRead) := by
  intro w a w' hw hrun
  rcases bind_eq_some hrun with ⟨readAt, t, hnow, hrun⟩
  cases hnow
  rcases bind_eq_some hrun with ⟨file, t, hopen, hrun⟩
  have ht := (fopen_plain env _).later hopen
  cases file with
  | none =>
      cases hrun
  | some file =>
      rcases bind_eq_some hrun with ⟨_, t', hset, hrun⟩
      cases hset
      cases hline : fgets 1024 file.2 with
      | none =>
          rw [hline] at hrun
          cases hrun
          exact ⟨ht.tick, ht.visits.trans hw⟩
      | some line =>
          rw [hline] at hrun
          cases hrun
          exact ⟨ht.tick, ht.visits.trans hw⟩

/-- The call with which the totals are read is no later than the present one. -/
structure Reading (readAt : Nat) (w : World) : Prop where
  usageRead : UsageRead w
  readAt : readAt <= w.tick

theorem Reading.later {readAt : Nat} {w w' : World} (h : Reading readAt w)
    (hlater : Later w w') : Reading readAt w' where
  usageRead := by
    constructor
    · rw [hlater.saved]
      exact h.usageRead.usage.trans hlater.tick
    · rw [hlater.visits]
      exact h.usageRead.visits
  readAt := h.readAt.trans hlater.tick

theorem Plain.reading {value : Type} {p : Routine value} (h : Plain p)
    (readAt : Nat) : Keeps (Reading readAt) p :=
  h.keeps (fun _ _ => Reading.later)

theorem now_reading : Partial UsageRead now Reading := by
  intro w readAt w' hw hrun
  cases hrun
  exact ⟨hw, Nat.le_refl _⟩

theorem setSaved_sound (env : Env) {readAt : Nat} {f : Saved -> Saved}
    (husage : forall s, (f s).usageAt = s.usageAt)
    (hblkio : forall s, (f s).blkioAt = readAt) :
    Partial (Reading readAt) (setSaved f) (fun _ => Sound env) := by
  intro w a w' hw hrun
  cases hrun
  refine ⟨?_, ?_, ?_⟩
  · show (f w.saved).usageAt <= w.tick
    rw [husage]
    exact hw.usageRead.usage
  · show (f w.saved).blkioAt <= w.tick
    rw [hblkio]
    exact hw.readAt
  · intro visit hvisit
    rw [hw.usageRead.visits] at hvisit
    cases hvisit

theorem readOldBlkio_sound (env : Env) : Partial UsageRead (readOldBlkio env)
    (fun _ => Sound env) := by
  refine Partial.bind now_reading ?_
  intro readAt
  refine Partial.bind ((fopen_plain env _).reading readAt) ?_
  intro file
  refine Partial.bind (savedValues_plain.reading readAt) ?_
  intro saved
  refine Partial.bind (setSaved_sound env (fun _ => rfl) (fun _ => rfl)) ?_
  intro _
  show Keeps (Sound env) _
  split
  next fd f _ =>
    apply Keeps.bind ((fclose_plain fd).sound env)
    intro _
    exact (arbitraryInt_plain env).sound env
  · exact Keeps.pure
  · exact (arbitraryInt_plain env).sound env

def Unvisited (w : World) : Prop :=
  w.visits = []

theorem Plain.unvisited {value : Type} {p : Routine value} (h : Plain p) :
    Keeps Unvisited p :=
  h.keeps (fun _ _ hw hlater => hlater.visits.trans hw)

theorem setSaved_unvisited (f : Saved -> Saved) : Keeps Unvisited (setSaved f) := by
  intro w a w' hw hrun
  cases hrun
  exact hw

theorem newRecords_unvisited : Partial (fun _ => True) newRecords
    (fun _ => Unvisited) := by
  intro w a w' _ hrun
  cases hrun
  rfl

theorem cgtopMain_recorded (env : Env) (outFd : Nat) :
    Partial (fun _ => True) (cgtopMain env outFd)
      (fun _ w => forall visit, visit ∈ w.visits -> Recorded env visit) := by
  refine Partial.bind newRecords_unvisited ?_
  intro _
  refine Partial.bind (fdopen_plain env outFd).unvisited ?_
  intro opened
  split
  · refine Partial.bind (clockGettime_plain env).unvisited ?_
    intro oldTime
    refine Partial.bind (setSaved_unvisited _) ?_
    intro _
    refine Partial.bind (readFromCpuacct_usageRead env) ?_
    intro _
    refine Partial.bind (readOldBlkio_sound env) ?_
    intro _
    refine Partial.bind (newList_plain.sound env) ?_
    intro _
    refine Partial.bind (keptByParts_sound env).refresh ?_
    intro _
    refine Partial.bind (display_plain.sound env) ?_
    intro _
    refine Partial.bind ((fclose_plain outFd).sound env) ?_
    intro _
    apply Partial.pure
    intro w hw
    exact hw.visits
  · apply Partial.pure
    intro w hw visit hvisit
    rw [hw] at hvisit
    cases hvisit

/-!
# The rates of a run
-/

/--
The rates of a visit are derived from the growth of the counters of the visited
group if and only if those were the counters that were saved, and the times
differ as they should.
-/
theorem cgtopMain_derived_iff {env : Env} (hmono : Nondecreasing env)
    {outFd : Nat} {w w' : World} {r : Int}
    (hrun : cgtopMain env outFd w = some (r, w')) :
    forall visit, visit ∈ w'.visits ->
      (Derived env visit <-> Matches env visit) := by
  intro visit hvisit
  exact (cgtopMain_recorded env outFd w r w' trivial hrun visit
    hvisit).derived_iff hmono

theorem nondecreasing_of_constant {env : Env}
    (h : forall t t' path, env.fopen t path = env.fopen t' path) :
    Nondecreasing env where
  usage := by
    intro path t t' u u' _ hread hread'
    rw [usageAt, lineAt, h t t'] at hread
    cases hread.symm.trans hread'
    exact UInt64.le_refl u
  totals := by
    intro path t t' u u' _ hread hread'
    rw [totalsAt, h t t'] at hread
    cases hread.symm.trans hread'
    exact ⟨UInt64.le_refl u.rd, UInt64.le_refl u.wr⟩

/-- A system on which nothing is counted any more, and no cgroup has a subgroup. -/
def idleEnv : Env where
  fopen _ _ := some (bytes "5\n", .eof)
  opendir _ _ := some []
  fdopen _ := true
  clock tick := ⟨0, UInt64.ofNat tick⟩
  int _ := 0
  stamp _ := ⟨1, 0⟩
  memory _ _ := 0

/-- A process that has opened the pipe only. -/
def freshWorld : World where
  tick := 0
  descriptors := [some .other]
  heap := fun _ => none
  fresh := 1
  head := 0
  saved := ⟨⟨0, 0⟩, 0, 0, 0, 0, 0⟩
  ints := 0
  stamps := 0
  blocks := 0
  strays := 0
  visits := []
  answers := []
  rows := []

theorem idleEnv_nondecreasing : Nondecreasing idleEnv :=
  nondecreasing_of_constant (fun _ _ _ => rfl)

theorem cgtopMain_derived_idle :
    exists r w', cgtopMain idleEnv 0 freshWorld = some (r, w') ∧ w'.visits ≠ [] ∧
      forall visit, visit ∈ w'.visits ->
        (Derived idleEnv visit <-> Matches idleEnv visit) := by
  have hruns :
      ((cgtopMain idleEnv 0 freshWorld).map (fun a => a.2.visits.length)) =
      some 4 := by decide +kernel
  rcases Option.map_eq_some_iff.mp hruns with ⟨⟨r, w'⟩, hrun, hvisits⟩
  refine ⟨r, w', hrun, ?_, cgtopMain_derived_iff idleEnv_nondecreasing hrun⟩
  intro hnone
  have hzero : ([] : List Visit).length = 4 := hnone ▸ hvisits
  cases hzero

/-- As before, but the cgroup of the root has a subgroup `a`, which has used
less than the root. -/
def childEnv : Env where
  fopen _ path :=
    some (if path = bytes "/sys/fs/cgroup/cpuacct/a/cpuacct.usage" then
      bytes "5\n" else bytes "100\n", .eof)
  opendir _ path := some (if path = bytes "/sys/fs/cgroup/cpuacct" then
    [⟨bytes "a", true⟩] else [])
  fdopen _ := true
  clock tick := ⟨0, UInt64.ofNat tick⟩
  int _ := 0
  stamp _ := ⟨1, 0⟩
  memory _ _ := 0

def Visit.usages (visit : Visit) : Option (UInt64 × UInt64) :=
  match visit.rates with
  | .cpu saved _ _ newUsage _ _ => some (saved.oldUsage, newUsage)
  | _ => none

theorem not_derived_of_wraps {env : Env} {visit : Visit} {old new : UInt64}
    (h : visit.usages = some (old, new))
    (hwraps : ¬ old <= new) : ¬ Derived env visit := by
  unfold Visit.usages at h
  unfold Derived
  cases hrates : visit.rates with
  | none =>
      rw [hrates] at h
      cases h
  | io =>
      rw [hrates] at h
      cases h
  | cpu saved readAt clockAt newUsage x y =>
      rw [hrates] at h
      cases h
      intro hderived
      rcases hderived.left with ⟨base, _, hgrowth⟩
      exact hwraps hgrowth.noWrap

theorem childEnv_nondecreasing : Nondecreasing childEnv :=
  nondecreasing_of_constant (fun _ _ _ => rfl)

/-- The subgroup has used 5, and 100 is subtracted from it. -/
theorem cgtopMain_usage_wraps :
    Nondecreasing childEnv ∧
      exists r w', cgtopMain childEnv 0 freshWorld = some (r, w') ∧
        exists visit, visit ∈ w'.visits ∧ ¬ Derived childEnv visit := by
  have hruns :
      ((cgtopMain childEnv 0 freshWorld).map (fun a =>
    a.2.visits[2]?.bind Visit.usages)) =
      some (some (100, 5)) := by decide +kernel
  rcases Option.map_eq_some_iff.mp hruns with ⟨⟨r, w'⟩, hrun, husages⟩
  rcases Option.bind_eq_some_iff.mp husages with ⟨visit, hvisit, husages⟩
  have hmem : visit ∈ w'.visits := List.mem_of_getElem? hvisit
  exact ⟨childEnv_nondecreasing, r, w', hrun, visit, hmem,
    not_derived_of_wraps husages (by decide)⟩

end Cgtop
end Lepd
