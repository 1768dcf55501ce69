import Lepd.Cgtop.Traversal

/-!
# The descriptors of cgtop

Nothing that is open when a routine begins is closed by it, for it closes only
what it has opened. But `read_from_cpuacct` does not close its file, so that of
the calls that get as far as that each leaves one more descriptor open.
-/

namespace Lepd
namespace Cgtop

open Foundation
open Foundation.Program
open Ps (Text bytes byte)

/-!
# What is open
-/

def IsOpen (w : World) (n : Nat) : Prop :=
  (w.descriptors.entry n).isSome = true

/-- The number refers to this object. -/
def Holds (n : Nat) (o : Opened) (w : World) : Prop :=
  w.descriptors.entry n = some o

theorem isOpen_iff {w : World} {n : Nat} :
    IsOpen w n <-> exists o, Holds n o w := by
  rw [IsOpen, Option.isSome_iff_exists]
  rfl

section Calls

variable {n : Nat} {o : Opened}

theorem keeps_of_same {value : Type} {p : Routine value}
    (h : forall w a w', p w = some (a, w') -> w'.descriptors = w.descriptors) :
    Keeps (Holds n o) p := by
  intro w a w' hw hrun
  unfold Holds
  rw [h w a w' hrun]
  exact hw

theorem Holds.assign {w : World} (h : Holds n o w) (new : Opened) :
    (w.descriptors.assign new).entry n = some o :=
  Descriptors.entry_assign_eq_some.mpr (Or.inr h)

theorem fopen_keeps (env : Env) (path : Text) :
    Keeps (Holds n o) (fopen env path) := by
  intro w file w' hw hrun
  rcases fopen_cases hrun with ⟨_, _, rfl⟩ | ⟨content, ending, _, _, rfl⟩
  · exact hw
  · exact hw.assign _

/-- A file gets a number that was free, and so none that was in use before. -/
theorem keeps_fopen_bind {value : Type} (env : Env) (path : Text)
    {f : Option (Nat × Stream) -> Routine value}
    (h : forall file, (forall fd g, file = some (fd, g) -> n ≠ fd) ->
    Keeps (Holds n o) (f file)) :
    Keeps (Holds n o) (fopen env path >>= f) := by
  intro w a w' hw hrun
  rcases bind_eq_some hrun with ⟨file, t, hopen, hrest⟩
  apply h file _ t a w' (fopen_keeps env path w file t hw hopen) hrest
  intro fd g hfile heq
  rcases fopen_cases hopen with ⟨_, hnone, _⟩ | ⟨content, ending, _, hsome, _⟩
  · rw [hnone] at hfile
    cases hfile
  · rw [hsome] at hfile
    cases hfile
    rw [heq, Holds, Descriptors.entry_lowestFree] at hw
    cases hw

theorem fclose_keeps {fd : Nat} (h : n ≠ fd) : Keeps (Holds n o) (fclose fd) := by
  intro w r w' hw hrun
  cases hrun
  exact Descriptors.entry_close_eq_some.mpr ⟨h, hw⟩

theorem opendir_keeps (env : Env) (path : Text) :
    Keeps (Holds n o) (opendir env path) := by
  intro w found w' hw hrun
  rcases opendir_cases hrun with ⟨_, rfl⟩ | ⟨entries, _, rfl⟩
  · exact hw
  · exact hw.assign _

theorem now_keeps : Keeps (Holds n o) now :=
  keeps_of_same (fun _ _ _ hrun => by cases hrun; rfl)

theorem clockGettime_keeps (env : Env) : Keeps (Holds n o) (clockGettime env) :=
  keeps_of_same (fun _ _ _ hrun => by cases hrun; rfl)

theorem arbitraryInt_keeps (env : Env) : Keeps (Holds n o) (arbitraryInt env) :=
  keeps_of_same (fun _ _ _ hrun => by cases hrun; rfl)

theorem unassigned_keeps (env : Env) : Keeps (Holds n o) (unassigned env) :=
  keeps_of_same (fun _ _ _ hrun => by cases hrun; rfl)

theorem stampNumber_keeps : Keeps (Holds n o) stampNumber :=
  keeps_of_same (fun _ _ _ hrun => by cases hrun; rfl)

theorem report_keeps (r : Int) : Keeps (Holds n o) (report r) :=
  keeps_of_same (fun _ _ _ hrun => by cases hrun; rfl)

theorem savedValues_keeps : Keeps (Holds n o) savedValues :=
  keeps_of_same (fun _ _ _ hrun => by cases hrun; rfl)

theorem setSaved_keeps (f : Saved -> Saved) : Keeps (Holds n o) (setSaved f) :=
  keeps_of_same (fun _ _ _ hrun => by cases hrun; rfl)

theorem malloc_keeps (env : Env) (size : Nat) :
    Keeps (Holds n o) (malloc env size) :=
  keeps_of_same (fun _ _ _ hrun => by cases hrun; rfl)

theorem built_keeps (text : Text) (block : Option Text) :
    Keeps (Holds n o) (built text block) := by
  apply keeps_of_same
  intro w a w' hrun
  cases hrun
  split
  · rfl
  · rfl

theorem strjoinFresh_keeps (env : Env) (x : Text) (ts : List Text) :
    Keeps (Holds n o) (strjoinFresh env x ts) := by
  apply Keeps.bind (malloc_keeps env _)
  intro r
  exact built_keeps _ _

theorem joinPath_keeps (env : Env) (controller : Controller) (path suffix : Text) :
    Keeps (Holds n o) (joinPath env controller path suffix) := by
  apply Keeps.bind (strjoinFresh_keeps env _ _)
  intro t
  exact built_keeps _ _

theorem joinSubgroup_keeps (env : Env) (path name : Text) :
    Keeps (Holds n o) (joinSubgroup env path name) := by
  apply Keeps.bind (strjoinFresh_keeps env _ _)
  intro fn
  exact built_keeps _ _

theorem storePathFresh_keeps (env : Env) (fs : Text) :
    Keeps (Holds n o) (storePathFresh env fs) := by
  apply Keeps.bind (malloc_keeps env _)
  intro path
  exact built_keeps _ _

theorem mallocGroup_keeps : Keeps (Holds n o) mallocGroup :=
  keeps_of_same (fun _ _ _ hrun => by cases hrun; rfl)

theorem newList_keeps : Keeps (Holds n o) newList :=
  keeps_of_same (fun _ _ _ hrun => by cases hrun; rfl)

theorem crash_keeps {value : Type} : Keeps (Holds n o) (crash : Routine value) :=
  keeps_of_same (fun _ _ _ hrun => by cases hrun)

theorem setGroup_keeps (g : Nat) (f : Cgroup -> Cgroup) :
    Keeps (Holds n o) (setGroup g f) := by
  apply keeps_of_same
  intro w a w' hrun
  rcases Option.map_eq_some_iff.mp hrun with ⟨heap, _, hheap⟩
  cases hheap
  rfl

theorem insertGroup_keeps (visit : Visit) :
    Keeps (Holds n o) (insertGroup visit) := by
  apply keeps_of_same
  intro w a w' hrun
  rcases Option.map_eq_some_iff.mp hrun with ⟨heap, _, hheap⟩
  cases hheap
  rfl

theorem display_keeps : Keeps (Holds n o) display := by
  apply keeps_of_same
  intro w a w' hrun
  rcases Option.map_eq_some_iff.mp hrun with ⟨nodes, _, hnodes⟩
  cases hnodes
  rfl

/-!
# What the routines keep open
-/

theorem readOneLineFile_keeps (env : Env) (fn : Text) :
    Keeps (Holds n o) (readOneLineFile env fn) := by
  apply Keeps.bind (fopen_keeps env fn)
  intro file
  split
  · exact Keeps.pure
  · split
    · exact Keeps.pure
    · exact Keeps.pure

theorem cpuRates_keeps (env : Env) (path : Text) (g : Nat) :
    Keeps (Holds n o) (cpuRates env path g) := by
  apply Keeps.bind (joinPath_keeps env _ _ _)
  intro p
  apply Keeps.bind now_keeps
  intro readAt
  apply Keeps.bind (readOneLineFile_keeps env _)
  intro line
  cases line with
  | none =>
      exact Keeps.pure
  | some v =>
      apply Keeps.bind now_keeps
      intro clockAt
      apply Keeps.bind (clockGettime_keeps env)
      intro ts
      apply Keeps.bind savedValues_keeps
      intro saved
      apply Keeps.bind (setGroup_keeps g _)
      intro _
      exact Keeps.pure

theorem memoryUsage_keeps (env : Env) (path : Text) (g : Nat) :
    Keeps (Holds n o) (memoryUsage env path g) := by
  apply Keeps.bind (joinPath_keeps env _ _ _)
  intro p
  apply Keeps.bind (readOneLineFile_keeps env _)
  intro line
  cases line with
  | none =>
      exact Keeps.pure
  | some v =>
      apply Keeps.bind (setGroup_keeps g _)
      intro _
      exact Keeps.pure

theorem ioRates_keeps (env : Env) (path : Text) (g : Nat) :
    Keeps (Holds n o) (ioRates env path g) := by
  apply Keeps.bind (joinPath_keeps env _ _ _)
  intro p
  apply Keeps.bind now_keeps
  intro readAt
  apply keeps_fopen_bind
  intro file hfile
  cases file with
  | none =>
      exact Keeps.pure
  | some file =>
      apply Keeps.bind (fclose_keeps (hfile file.1 file.2 rfl))
      intro _
      apply Keeps.bind stampNumber_keeps
      intro stampAt
      apply Keeps.bind (unassigned_keeps env)
      intro ts
      apply Keeps.bind now_keeps
      intro doneAt
      apply Keeps.bind savedValues_keeps
      intro saved
      apply Keeps.ite crash_keeps
      apply Keeps.bind (setGroup_keeps g _)
      intro _
      exact Keeps.pure

theorem rates_keeps (env : Env) (controller : Controller) (path : Text) (g : Nat) :
    Keeps (Holds n o) (rates env controller path g) := by
  cases controller with
  | systemd =>
      exact Keeps.pure
  | cpuacct =>
      exact cpuRates_keeps env path g
  | memory =>
      exact memoryUsage_keeps env path g
  | blkio =>
      exact ioRates_keeps env path g

theorem process_keeps (env : Env) (controller : Controller) (path : Text) :
    Keeps (Holds n o) (process env controller path) := by
  apply Keeps.bind mallocGroup_keeps
  intro g
  apply Keeps.bind (joinPath_keeps env _ _ _)
  intro fs
  apply keeps_fopen_bind
  intro file hfile
  cases file with
  | none =>
      exact report_keeps (-1)
  | some file =>
      apply Keeps.bind Partial.lift
      intro counted
      apply Keeps.bind (fclose_keeps (hfile file.1 file.2 rfl))
      intro _
      apply Keeps.bind (storePathFresh_keeps env fs)
      intro name
      apply Keeps.bind (setGroup_keeps g _)
      intro _
      apply Keeps.bind (rates_keeps env controller path g)
      intro found
      cases found with
      | none =>
          exact report_keeps (-1)
      | some found =>
          apply Keeps.bind (insertGroup_keeps _)
          intro _
          apply Keeps.bind (arbitraryInt_keeps env)
          intro r
          exact report_keeps r

theorem keptByParts_holds (env : Env) : KeptByParts env (Holds n o) where
  process := process_keeps env
  joinPath := joinPath_keeps env
  joinSubgroup := joinSubgroup_keeps env
  opendir := opendir_keeps env
  arbitraryInt := arbitraryInt_keeps env
  report := report_keeps

theorem readOldBlkio_keeps (env : Env) : Keeps (Holds n o) (readOldBlkio env) := by
  apply Keeps.bind now_keeps
  intro readAt
  apply keeps_fopen_bind
  intro file hfile
  apply Keeps.bind savedValues_keeps
  intro saved
  apply Keeps.bind (setSaved_keeps _)
  intro _
  split
  next fd f hanswer =>
    apply Keeps.bind (fclose_keeps (hfile fd f rfl))
    intro _
    exact arbitraryInt_keeps env
  next r _ =>
    exact Keeps.pure
  next =>
    exact arbitraryInt_keeps env

theorem readFromCpuacct_keeps (env : Env) :
    Keeps (Holds n o) (readFromCpuacct env) := by
  apply Keeps.bind now_keeps
  intro readAt
  apply Keeps.bind (fopen_keeps env _)
  intro file
  split
  · exact crash_keeps
  · apply Keeps.bind (setSaved_keeps _)
    intro _
    split
    · exact Keeps.pure
    · apply Keeps.bind (setSaved_keeps _)
      intro _
      exact Keeps.pure

end Calls

/-!
# The whole program
-/

variable {env : Env} {w w' : World} {r : Int}

theorem readFromCpuacct_opens (hrun : readFromCpuacct env w = some (r, w')) :
    exists o, Holds w.descriptors.lowestFree o w' := by
  rcases bind_eq_some hrun with ⟨readAt, t, hnow, hrun⟩
  cases hnow
  rcases bind_eq_some hrun with ⟨file, t, hopen, hrest⟩
  rcases fopen_cases hopen with ⟨_, rfl, rfl⟩ | ⟨content, ending, _, rfl, rfl⟩
  · cases hrest
  · refine ⟨.file (bytes "/sys/fs/cgroup/cpuacct/cpuacct.usage"), ?_⟩
    refine Keeps.bind (setSaved_keeps _) ?_ _ r w' ?_ hrest
    · intro _
      split
      · exact Keeps.pure
      · apply Keeps.bind (setSaved_keeps _)
        intro _
        exact Keeps.pure
    · exact Descriptors.entry_assign_self _ _

section Runs

variable {outFd n : Nat} {o : Opened}

theorem behind_readFromCpuacct_keeps (env : Env) (hne : n ≠ outFd) :
    Keeps (Holds n o) (do
      let _ <- readOldBlkio env
      newList
      let _ <- refresh env
      display
      fclose outFd
      return (0 : Int)) := by
  apply Keeps.bind (readOldBlkio_keeps env)
  intro _
  apply Keeps.bind newList_keeps
  intro _
  apply Keeps.bind (keptByParts_holds env).refresh
  intro _
  apply Keeps.bind display_keeps
  intro _
  apply Keeps.bind (fclose_keeps hne)
  intro _
  exact Keeps.pure

theorem fdopen_keeps (env : Env) (fd : Nat) : Keeps (Holds n o) (fdopen env fd) :=
  keeps_of_same (fun _ _ _ hrun => by cases hrun; rfl)

theorem newRecords_keeps : Keeps (Holds n o) newRecords :=
  keeps_of_same (fun _ _ _ hrun => by cases hrun; rfl)

theorem cgtopMain_keeps (env : Env) (hne : n ≠ outFd) :
    Keeps (Holds n o) (cgtopMain env outFd) := by
  apply Keeps.bind newRecords_keeps
  intro _
  apply Keeps.bind (fdopen_keeps env outFd)
  intro opened
  apply Keeps.ite
  · apply Keeps.bind (clockGettime_keeps env)
    intro oldTime
    apply Keeps.bind (setSaved_keeps _)
    intro _
    apply Keeps.bind (readFromCpuacct_keeps env)
    intro _
    exact behind_readFromCpuacct_keeps env hne
  · exact Keeps.pure

/-- Where `out_fd` is not open, nothing is opened and nothing is closed. -/
theorem cgtopMain_of_not_isOpen (hclosed : ¬ IsOpen w outFd)
    (hrun : cgtopMain env outFd w = some (r, w')) :
    w'.descriptors = w.descriptors := by
  rcases bind_eq_some hrun with ⟨_, t, hnew, hrun⟩
  cases hnew
  rcases bind_eq_some hrun with ⟨opened, t, hopen, hrun⟩
  cases hopen
  have hfails : (w.descriptors.entry outFd).isSome = false :=
    Bool.eq_false_iff.mpr hclosed
  simp only [hfails, Bool.and_false, Bool.false_eq_true, if_false] at hrun
  cases hrun
  rfl

theorem cgtopMain_of_isOpen (hopen : IsOpen w outFd)
    (hrun : cgtopMain env outFd w = some (r, w')) :
    IsOpen w' outFd ∨ exists n, ¬ IsOpen w n ∧ IsOpen w' n := by
  rcases bind_eq_some hrun with ⟨_, t, hnew, hrun⟩
  cases hnew
  rcases bind_eq_some hrun with ⟨opened, t, hfdopen, hrun⟩
  cases hfdopen
  split at hrun
  · right
    rcases bind_eq_some hrun with ⟨oldTime, t, hclock, hrun⟩
    cases hclock
    rcases bind_eq_some hrun with ⟨_, t, hsaved, hrun⟩
    cases hsaved
    rcases bind_eq_some hrun with ⟨answer, t, hread, hrest⟩
    rcases readFromCpuacct_opens hread with ⟨o, ho⟩
    have hfree : ¬ IsOpen w w.descriptors.lowestFree := by
      rw [IsOpen, Descriptors.entry_lowestFree]
      exact Bool.false_ne_true
    have hne : w.descriptors.lowestFree ≠ outFd := fun heq => hfree (heq ▸ hopen)
    exact ⟨_, hfree,
      isOpen_iff.mpr ⟨o, behind_readFromCpuacct_keeps env hne t r w' ho hrest⟩⟩
  · cases hrun
    exact Or.inl hopen

end Runs

/--
Of the calls that come back, those leave open what was open except `out_fd` that
got an `out_fd` that was not open.
-/
theorem cgtopMain_returns_descriptors_iff {outFd : Nat}
    (hrun : cgtopMain env outFd w = some (r, w')) :
    (forall n, IsOpen w' n <-> IsOpen w n ∧ n ≠ outFd) <-> ¬ IsOpen w outFd := by
  constructor
  · intro hall hopen
    rcases cgtopMain_of_isOpen hopen hrun with hkept | ⟨n, hfree, hleft⟩
    · exact ((hall outFd).mp hkept).right rfl
    · exact hfree ((hall n).mp hleft).left
  · intro hclosed n
    rw [IsOpen, cgtopMain_of_not_isOpen hclosed hrun]
    constructor
    · intro hn
      exact ⟨hn, fun heq => hclosed (heq ▸ hn)⟩
    · intro hn
      exact hn.left

/-- A system on which the file of `read_from_cpuacct` is the only one that can
be read. -/
def bareEnv : Env where
  fopen _ path := if path = bytes "/sys/fs/cgroup/cpuacct/cpuacct.usage" then
    some (bytes "1\n", .eof) else none
  opendir _ _ := none
  fdopen _ := true
  clock _ := ⟨1, 0⟩
  int _ := 0
  stamp _ := ⟨0, 0⟩
  memory _ _ := 0

/-- A daemon that has opened three streams and a pipe. -/
def bareWorld : World where
  tick := 0
  descriptors := List.replicate 5 (some .other)
  heap := fun _ => none
  fresh := 1
  head := 0
  saved := ⟨⟨0, 0⟩, 0, 0, 0, 0, 0⟩
  ints := 0
  stamps := 0
  blocks := 0
  strays := 0
  visits := []
  answers := []
  rows := []

theorem cgtopMain_returns_descriptors_unopened :
    exists r w', cgtopMain bareEnv 7 bareWorld = some (r, w') ∧
      forall n, IsOpen w' n <-> IsOpen bareWorld n ∧ n ≠ 7 := by
  have hruns : (cgtopMain bareEnv 7 bareWorld).isSome = true := by decide +kernel
  rcases Option.isSome_iff_exists.mp hruns with ⟨⟨r, w'⟩, hrun⟩
  have hclosed : ¬ IsOpen bareWorld 7 := Bool.false_ne_true
  exact ⟨r, w', hrun, (cgtopMain_returns_descriptors_iff hrun).mpr hclosed⟩

/-- The number 5 was free, and it is left open. -/
theorem cgtopMain_leaves_open :
    exists r w', cgtopMain bareEnv 4 bareWorld = some (r, w') ∧
      ¬ (forall n, IsOpen w' n <-> IsOpen bareWorld n ∧ n ≠ 4) := by
  have hruns :
      ((cgtopMain bareEnv 4 bareWorld).map (fun a =>
    (a.2.descriptors.entry 5).isSome)) = some true := by
    decide +kernel
  rcases Option.map_eq_some_iff.mp hruns with ⟨⟨r, w'⟩, hrun, hleft⟩
  refine ⟨r, w', hrun, ?_⟩
  intro hall
  have hbefore : IsOpen bareWorld 5 := ((hall 5).mp hleft).left
  cases hbefore

end Cgtop
end Lepd
