import Mathlib.Data.List.Perm.Subperm
import Lepd.Cgtop.Hierarchy
import Lepd.Cgtop.Traversal

/-!
# What a refresh visits

Where everything can be read, only the numbers that `process` and `refresh_one`
answer without having returned anything decide whether the traversal goes on,
and the contents of the unassigned time whether it survives a division.
-/

namespace Lepd
namespace Cgtop

open Foundation
open Foundation.Program
open Foundation.RingHeap
open Ps (Text bytes byte)

/-!
# The list
-/

/-- The list is well formed, and its nodes are those of the visits. -/
structure Standing (w : World) : Prop where
  ring : Ring w.heap w.head (w.visits.map Visit.node)
  older : forall a, a ∈ w.head :: w.visits.map Visit.node -> a < w.fresh

def Visit.place (visit : Visit) : Controller × Text :=
  (visit.controller, visit.path)

/-- Strings were built in fresh blocks of these sizes, and so many others had no
room. -/
def Built (env : Env) (sizes : List Nat) (outside : Nat) (w w' : World) : Prop :=
  w'.blocks = w.blocks + sizes.length ∧ w'.strays = w.strays +
    (strayed env w.blocks sizes + outside)

theorem Built.trans {env : Env} {sizes sizes' : List Nat}
    {outside outside' : Nat} {w w' w'' : World}
    (h : Built env sizes outside w w') (h' : Built env sizes' outside' w' w'') :
    Built env (sizes ++ sizes') (outside + outside') w w'' := by
  rcases h with ⟨hblocks, hstrays⟩
  rcases h' with ⟨hblocks', hstrays'⟩
  refine ⟨?_, ?_⟩
  · rw [hblocks', hblocks, List.length_append, Nat.add_assoc]
  · rw [hstrays', hstrays, hblocks, strayed_append]
    omega

theorem built_none (env : Env) (w : World) : Built env [] 0 w w :=
  ⟨rfl, rfl⟩

theorem built_drawn (env : Env) (size outside : Nat) (w : World) :
    Built env [size] outside w
      (w.drawn 1 (strayed env w.blocks [size] + outside)) :=
  ⟨rfl, rfl⟩

/--
From one state to the other the places were visited, each with a node put into
the list, and so many of the values that C leaves open were used.
-/
structure Moved (env : Env) (places : List (Controller × Text))
    (ints stamps : Nat) (sizes : List Nat)
    (outside : Nat) (w w' : World) : Prop where
  places : w'.visits.map Visit.place = places.reverse ++ w.visits.map Visit.place
  head : w'.head = w.head
  ints : w'.ints = w.ints + ints
  stamps : w'.stamps = w.stamps + stamps
  saved : w'.saved = w.saved
  built : Built env sizes outside w w'
  standing : Standing w'

theorem Moved.trans {env : Env} {places places' : List (Controller × Text)}
    {ints ints' stamps stamps' : Nat} {sizes sizes' : List Nat}
    {outside outside' : Nat} {w w' w'' : World}
    (h : Moved env places ints stamps sizes outside w w')
    (h' : Moved env places' ints' stamps' sizes' outside' w' w'') :
    Moved env (places ++ places') (ints + ints') (stamps + stamps')
      (sizes ++ sizes') (outside + outside')
      w w'' where
  places := by
    rw [h'.places, h.places, List.reverse_append, List.append_assoc]
  head := h'.head.trans h.head
  ints := by
    rw [h'.ints, h.ints, Nat.add_assoc]
  stamps := by
    rw [h'.stamps, h.stamps, Nat.add_assoc]
  saved := h'.saved.trans h.saved
  built := h.built.trans h'.built
  standing := h'.standing

/-!
# One group
-/

structure Begun (env : Env) (w : World) (stamps : Nat) (sizes : List Nat)
    (w' : World) : Prop where
  ring : Ring w'.heap w'.head (w.visits.map Visit.node)
  new : w'.heap.itemOf w.fresh ≠ none
  fresh : w'.fresh = w.fresh + 1
  head : w'.head = w.head
  visits : w'.visits = w.visits
  answers : w'.answers = w.answers
  ints : w'.ints = w.ints
  stamps : w'.stamps = w.stamps + stamps
  saved : w'.saved = w.saved
  built : Built env sizes 0 w w'

section Begun

variable {w : World} {stamps : Nat} {sizes : List Nat} {env : Env} {value : Type}

theorem mallocGroup_begun (h : Standing w) :
    Total (fun s => s = w) mallocGroup (fun g s => g = w.fresh ∧
      Begun env w 0 [] s) := by
  intro s hs
  subst hs
  refine ⟨_, _, rfl, rfl, ?_, ?_, rfl, rfl, rfl, rfl, rfl, rfl, rfl,
    built_none env s⟩
  · exact h.ring.allocate (fun hmem => Nat.lt_irrefl _ (h.older _ hmem)) _
  · rw [itemOf_update, if_pos rfl]
    exact Option.some_ne_none _

theorem Opens.bind {path : Text} {good : Stream -> Prop}
    {f : Option (Nat × Stream) -> Routine value}
    {post : value -> World -> Prop} (hopen : Opens env path good)
    (h : forall fd content ending, good (.opened content ending) ->
      Total (Begun env w stamps sizes) (f (some (fd, .opened content ending)))
        post) :
    Total (Begun env w stamps sizes) (fopen env path >>= f) post := by
  intro s hs
  rcases hopen s.tick with ⟨content, ending, hfile, hgood⟩
  have hrun : fopen env path s =
      some (some (s.descriptors.lowestFree, .opened content ending),
      { s with tick := s.tick + 1, descriptors := s.descriptors.assign (.file
        path) }) := by
    unfold fopen
    rw [hfile]
  rw [bind_apply, hrun]
  exact h _ _ _ hgood _
    ⟨hs.ring, hs.new, hs.fresh, hs.head, hs.visits, hs.answers, hs.ints,
      hs.stamps, hs.saved, hs.built⟩

theorem joinPath_begun {names : List Text} (controller : Controller)
    (h : forall name, name ∈ names -> IsName name) {suffix : Text}
    (hnull : (0 : UInt8) ∉ suffix) :
    Total (Begun env w stamps sizes) (joinPath env controller (pathOf names) suffix)
      (fun p s => p = cgGetPath controller (pathOf names) suffix ∧
        Begun env w stamps (sizes ++ [fileSize controller names suffix]) s) := by
  intro s hs
  exact ⟨_, _, joinPath_eq env controller h hnull s, rfl, hs.ring, hs.new,
    hs.fresh, hs.head, hs.visits,
    hs.answers, hs.ints, hs.stamps, hs.saved,
      hs.built.trans (built_drawn env _ 0 s)⟩

theorem storePathFresh_begun {names : List Text} (controller : Controller)
    (h : forall name, name ∈ names -> IsName name) :
    Total (Begun env w stamps sizes)
      (storePathFresh env (processesFile controller (pathOf names)))
      (fun _ =>
        Begun env w stamps (sizes ++
        [(processesFile controller (pathOf names)).length])) := by
  intro s hs
  exact ⟨_, _, storePathFresh_eq env controller h s, hs.ring, hs.new, hs.fresh,
    hs.head, hs.visits,
    hs.answers, hs.ints, hs.stamps, hs.saved,
      hs.built.trans (built_drawn env _ 0 s)⟩

theorem fclose_begun (fd : Nat) : Total (Begun env w stamps sizes) (fclose fd)
    (fun _ => Begun env w stamps sizes) := by
  intro s hs
  exact ⟨_, _, rfl, hs.ring, hs.new, hs.fresh, hs.head, hs.visits, hs.answers,
    hs.ints, hs.stamps, hs.saved, hs.built⟩

theorem now_begun : Total (Begun env w stamps sizes) now
    (fun _ => Begun env w stamps sizes) := by
  intro s hs
  exact ⟨_, s, rfl, hs⟩

theorem savedValues_begun :
    Total (Begun env w stamps sizes) savedValues (fun saved s =>
      saved = w.saved ∧ Begun env w stamps sizes s) := by
  intro s hs
  exact ⟨_, s, rfl, hs.saved, hs⟩

theorem clockGettime_begun : Total (Begun env w stamps sizes) (clockGettime env)
    (fun _ => Begun env w stamps sizes) := by
  intro s hs
  exact ⟨_, _, rfl, hs.ring, hs.new, hs.fresh, hs.head, hs.visits, hs.answers,
    hs.ints, hs.stamps, hs.saved, hs.built⟩

theorem stampNumber_begun : Total (Begun env w stamps sizes) stampNumber
    (fun _ => Begun env w stamps sizes) := by
  intro s hs
  exact ⟨_, s, rfl, hs⟩

theorem unassigned_begun : Total (Begun env w 0 sizes) (unassigned env)
    (fun ts s => ts = env.stamp w.stamps ∧ Begun env w 1 sizes s) := by
  intro s hs
  refine ⟨_, _, rfl, ?_, hs.ring, hs.new, hs.fresh, hs.head, hs.visits,
    hs.answers, hs.ints, ?_, hs.saved, hs.built⟩
  · rw [hs.stamps]
    rfl
  · show s.stamps + 1 = w.stamps + 1
    rw [hs.stamps]

theorem setGroup_begun (f : Cgroup -> Cgroup) :
    Total (Begun env w stamps sizes) (setGroup w.fresh f)
      (fun _ => Begun env w stamps sizes) := by
  intro s hs
  rcases modifyItem_spec f hs.new with ⟨heap, hmodify, hitem, hnext, hprev⟩
  refine ⟨(), { s with heap := heap }, ?_, hs.ring.modifyItem hnext hprev hitem,
    ?_, hs.fresh, hs.head, hs.visits,
    hs.answers, hs.ints, hs.stamps, hs.saved, hs.built⟩
  · rw [setGroup, hmodify]
    rfl
  · show heap.itemOf w.fresh ≠ none
    rw [hitem, if_pos rfl, Ne, Option.map_eq_none_iff]
    exact hs.new

theorem readOneLineFile_begun {fn : Text} (hopen : Opens env fn HasLine) :
    Total (Begun env w stamps sizes) (readOneLineFile env fn) (fun line s =>
      line ≠ none ∧ Begun env w stamps sizes s) := by
  apply hopen.bind
  intro fd content ending hline
  rcases Option.isSome_iff_exists.mp hline with ⟨line, hline⟩
  dsimp only
  rw [hline]
  apply Total.pure
  intro s hs
  exact ⟨Option.some_ne_none _, hs⟩

theorem cpuRates_begun {names : List Text}
    (hnames : forall name, name ∈ names -> IsName name)
    (hopen : Opens env (cgGetPath .cpuacct (pathOf names)
    (bytes "cpuacct.usage")) HasLine) :
    Total (Begun env w stamps sizes) (cpuRates env (pathOf names) w.fresh)
      (fun found s => found ≠ none ∧
        Begun env w stamps (sizes ++ rateSizes .cpuacct names) s) := by
  apply Total.bind (joinPath_begun .cpuacct hnames (by decide))
  intro p s hs
  rcases hs with ⟨rfl, hs⟩
  revert s
  apply Total.bind now_begun
  intro readAt
  apply Total.bind (readOneLineFile_begun hopen)
  intro line s hs
  rcases hs with ⟨hline, hs⟩
  rcases Option.ne_none_iff_exists'.mp hline with ⟨v, rfl⟩
  revert s
  apply Total.bind now_begun
  intro clockAt
  apply Total.bind clockGettime_begun
  intro ts
  apply Total.bind savedValues_begun
  intro saved s hs
  apply Total.bind (setGroup_begun _) _ s hs.right
  intro _
  apply Total.pure
  intro s hs
  exact ⟨Option.some_ne_none _, hs⟩

theorem memoryUsage_begun {names : List Text}
    (hnames : forall name, name ∈ names -> IsName name)
    (hopen : Opens env (cgGetPath .memory (pathOf names)
    (bytes "memory.usage_in_bytes")) HasLine) :
    Total (Begun env w stamps sizes) (memoryUsage env (pathOf names) w.fresh)
      (fun found s => found ≠ none ∧
        Begun env w stamps (sizes ++ rateSizes .memory names) s) := by
  apply Total.bind (joinPath_begun .memory hnames (by decide))
  intro p s hs
  rcases hs with ⟨rfl, hs⟩
  revert s
  apply Total.bind (readOneLineFile_begun hopen)
  intro line s hs
  rcases hs with ⟨hline, hs⟩
  rcases Option.ne_none_iff_exists'.mp hline with ⟨v, rfl⟩
  apply Total.bind (setGroup_begun _) _ s hs
  intro _
  apply Total.pure
  intro s hs
  exact ⟨Option.some_ne_none _, hs⟩

theorem ioRates_begun {names : List Text}
    (hnames : forall name, name ∈ names -> IsName name)
    (hopen : Opens env (cgGetPath .blkio (pathOf names)
    (bytes "blkio.io_service_bytes")) (fun _ => True))
    (htime : (env.stamp w.stamps).ns ≠ w.saved.oldTime.ns) :
    Total (Begun env w 0 sizes) (ioRates env (pathOf names) w.fresh)
      (fun found s => found ≠ none ∧
        Begun env w 1 (sizes ++ rateSizes .blkio names) s) := by
  apply Total.bind (joinPath_begun .blkio hnames (by decide))
  intro p s hs
  rcases hs with ⟨rfl, hs⟩
  revert s
  apply Total.bind now_begun
  intro readAt
  apply hopen.bind
  intro fd content ending _
  apply Total.bind (fclose_begun fd)
  intro _
  apply Total.bind stampNumber_begun
  intro stampAt
  apply Total.bind unassigned_begun
  intro ts s hs
  rcases hs with ⟨rfl, hs⟩
  revert s
  apply Total.bind now_begun
  intro doneAt
  apply Total.bind savedValues_begun
  intro saved s hs
  rcases hs with ⟨rfl, hs⟩
  have hnonzero : (env.stamp w.stamps).ns - w.saved.oldTime.ns ≠ 0 := by
    intro hzero
    rw [UInt64.sub_eq_iff_eq_add, UInt64.zero_add] at hzero
    exact htime hzero
  rw [if_neg hnonzero]
  apply Total.bind (setGroup_begun _) _ s hs
  intro _
  apply Total.pure
  intro s hs
  exact ⟨Option.some_ne_none _, hs⟩

theorem insertGroup_moved {visit : Visit} (h : Standing w)
    (hnode : visit.node = w.fresh) :
    Total (Begun env w stamps sizes) (insertGroup visit)
      (fun _ s => Moved env [visit.place] 0 stamps sizes 0 w s ∧
        s.answers = w.answers) := by
  intro s hs
  have hfresh : visit.node ∉ s.head :: w.visits.map Visit.node := by
    rw [hnode, hs.head]
    exact fun hmem => Nat.lt_irrefl _ (h.older _ hmem)
  rcases hs.ring.insertAfter (hnode ▸ hs.new) hfresh with ⟨heap, hinsert, hring, _⟩
  refine ⟨(), { s with heap := heap, visits := visit :: s.visits }, ?_,
    ⟨?_, hs.head, hs.ints, hs.stamps, hs.saved,
    hs.built, ⟨?_, ?_⟩⟩, hs.answers⟩
  · rw [insertGroup, hinsert]
    rfl
  · show (visit :: s.visits).map Visit.place = _
    rw [hs.visits]
    rfl
  · show Ring heap s.head ((visit :: s.visits).map Visit.node)
    rw [hs.visits]
    exact hring
  · intro a ha
    show a < s.fresh
    have hmem : a = w.fresh ∨ a ∈ w.head :: w.visits.map Visit.node := by
      rw [← hs.head, ← hs.visits, ← hnode]
      have hswap : a ∈ s.head :: visit.node :: s.visits.map Visit.node := ha
      rw [List.mem_cons, List.mem_cons] at hswap
      rw [List.mem_cons]
      exact or_left_comm.mp hswap
    rw [hs.fresh]
    rcases hmem with rfl | hmem
    · exact Nat.lt_succ_self _
    · exact Nat.lt_succ_of_lt (h.older a hmem)

end Begun

/-- How many unassigned times a visit uses. -/
def Controller.stamps : Controller -> Nat
  | .blkio => 1
  | _ => 0

/-- None of the next unassigned times is that of `old_time`. -/
def Timed (env : Env) (w : World) (stamps : Nat) : Prop :=
  forall k, k < stamps -> (env.stamp (w.stamps + k)).ns ≠ w.saved.oldTime.ns

section Process

variable {env : Env} {h : Hierarchy} {controller : Controller}
  {names : List Text} {w : World}
  {sizes : List Nat}

theorem rates_begun (hreadable : Readable env h)
    (hleads : h.Leads controller [] names)
    (htimed : Timed env w controller.stamps) :
    Total (Begun env w 0 sizes) (rates env controller (pathOf names) w.fresh)
      (fun found s => found ≠ none ∧
        Begun env w controller.stamps (sizes ++ rateSizes controller names) s) := by
  cases controller with
  | systemd =>
      apply Total.pure
      intro s hs
      rw [rateSizes, List.append_nil]
      exact ⟨Option.some_ne_none _, hs⟩
  | cpuacct =>
      apply cpuRates_begun hleads.isName
      rw [cgGetPath_file _ hleads.isName ⟨by decide, by decide, by decide⟩]
      exact hreadable.usage names hleads
  | memory =>
      apply memoryUsage_begun hleads.isName
      rw [cgGetPath_file _ hleads.isName ⟨by decide, by decide, by decide⟩]
      exact hreadable.memory names hleads
  | blkio =>
      apply ioRates_begun hleads.isName
      · rw [cgGetPath_file _ hleads.isName ⟨by decide, by decide, by decide⟩]
        exact hreadable.serviceBytes names hleads
      · exact htimed 0 Nat.one_pos

/-- `process` visits its group, and answers what is left of the number that it
did not return. -/
theorem process_moved (hreadable : Readable env h)
    (hleads : h.Leads controller [] names) (hw : Standing w)
    (htimed : Timed env w controller.stamps) :
    exists w', process env controller (pathOf names) w = some (env.int w.ints, w') ∧
      Moved env [(controller, pathOf names)] 1 controller.stamps
        (visitSizes controller names) 0 w w' ∧ w'.answers = env.int w.ints ::
        w.answers := by
  have htasks := hreadable.tasks controller names hleads
  rw [← cgGetPath_file _ hleads.isName ⟨by decide, by decide, by decide⟩] at htasks
  have htotal : Total (fun s => s = w) (process env controller (pathOf names))
      (fun r s => r = env.int w.ints ∧
      Moved env [(controller, pathOf names)] 1 controller.stamps
        (visitSizes controller names) 0 w s ∧ s.answers = env.int w.ints ::
        w.answers) := by
    apply Total.bind (mallocGroup_begun hw)
    intro g s hs
    rcases hs with ⟨rfl, hs⟩
    revert s
    apply Total.bind (joinPath_begun controller hleads.isName (by decide))
    intro fs s hs
    rcases hs with ⟨rfl, hs⟩
    revert s
    apply htasks.bind
    intro fd content ending hends
    apply Total.bind
      (Total.lift (countTasks_of_ends _ (Stream.coherent_opened content ending)
      0 hends))
    intro counted
    apply Total.bind (fclose_begun fd)
    intro _
    apply Total.bind (storePathFresh_begun controller hleads.isName)
    intro name
    apply Total.bind (setGroup_begun _)
    intro _
    apply Total.bind (rates_begun hreadable hleads htimed)
    intro found s hs
    rcases hs with ⟨hfound, hs⟩
    rcases Option.ne_none_iff_exists'.mp hfound with ⟨rates, rfl⟩
    apply Total.bind (insertGroup_moved hw rfl) _ s hs
    intro _ s hs
    rcases hs with ⟨hmoved, hanswers⟩
    refine ⟨env.int w.ints,
      { s with ints := s.ints + 1, answers := env.int w.ints :: s.answers }, ?_,
      rfl,
      ⟨hmoved.places, hmoved.head, ?_, hmoved.stamps, hmoved.saved,
        hmoved.built, ?_⟩, ?_⟩
    · have hints : s.ints = w.ints := hmoved.ints
      rw [← hints]
      rfl
    · show s.ints + 1 = w.ints + 1
      rw [hmoved.ints]
    · exact ⟨hmoved.standing.ring, hmoved.standing.older⟩
    · exact congrArg _ hanswers
  rcases htotal w rfl with ⟨r, w', hrun, rfl, hw'⟩
  exact ⟨w', hrun, hw'⟩

end Process

/-!
# A division by zero
-/

/-- No unassigned time has been used since. -/
structure Frozen (w s : World) : Prop where
  stamps : s.stamps = w.stamps
  saved : s.saved = w.saved

section Untimed

variable {env : Env} {w : World}

theorem Plain.frozen {value : Type} {p : Routine value} (h : Plain p) :
    Keeps (Frozen w) p :=
  h.keeps (fun _ _ hs hlater =>
    ⟨hlater.stamps.trans hs.stamps, hlater.saved.trans hs.saved⟩)

theorem ioRates_untimed (htime : (env.stamp w.stamps).ns = w.saved.oldTime.ns)
    (path : Text) (g : Nat) :
    Partial (Frozen w) (ioRates env path g) (fun found _ => found = none) := by
  refine Partial.bind (joinPath_plain env _ _ _).frozen ?_
  intro p
  refine Partial.bind now_plain.frozen ?_
  intro readAt
  refine Partial.bind (fopen_plain env _).frozen ?_
  intro file
  split
  · exact Partial.pure (fun _ _ => rfl)
  next fd f =>
    refine Partial.bind (fclose_plain fd).frozen ?_
    intro _
    refine Partial.bind stampNumber_plain.frozen ?_
    intro stampAt s found s' hs hrun
    rcases bind_eq_some hrun with ⟨ts, t, hts, hrun⟩
    cases hts
    rcases bind_eq_some hrun with ⟨doneAt, t, hnow, hrun⟩
    cases hnow
    rcases bind_eq_some hrun with ⟨saved, t, hsaved, hrun⟩
    cases hsaved
    have hzero : (env.stamp s.stamps).ns - s.saved.oldTime.ns = 0 := by
      rw [hs.stamps, hs.saved, htime, UInt64.sub_self]
    dsimp only at hrun
    rw [if_pos hzero] at hrun
    cases hrun

theorem process_untimed {controller : Controller}
    (htimed : ¬ Timed env w controller.stamps) (path : Text) :
    Partial (Frozen w) (process env controller path) (fun r s => r < 0 ∧
      r ∈ s.answers) := by
  have hreport : Partial (fun _ => True) (report (-1)) (fun r s => r < 0 ∧
    r ∈ s.answers) := by
    intro s r s' _ hrun
    cases hrun
    exact ⟨by decide, List.mem_cons_self⟩
  cases controller with
  | blkio =>
      have htime : (env.stamp w.stamps).ns = w.saved.oldTime.ns := by
        by_contra hne
        apply htimed
        intro k hk
        rw [Nat.lt_one_iff.mp hk]
        exact hne
      refine Partial.bind mallocGroup_plain.frozen ?_
      intro g
      refine Partial.bind (joinPath_plain env _ _ _).frozen ?_
      intro fs
      refine Partial.bind (fopen_plain env _).frozen ?_
      intro file
      split
      · exact hreport.mono (fun _ _ => trivial) (fun _ _ => id)
      next fd f =>
        refine Partial.bind Partial.lift ?_
        intro counted
        refine Partial.bind (fclose_plain fd).frozen ?_
        intro _
        refine Partial.bind (storePathFresh_plain env fs).frozen ?_
        intro name
        refine Partial.bind (setGroup_plain g _).frozen ?_
        intro _
        refine Partial.bind (ioRates_untimed htime path g) ?_
        intro found s r s' hfound hrun
        subst hfound
        exact hreport s r s' trivial hrun
  | _ =>
      exact absurd (fun k hk => absurd hk (Nat.not_lt_zero k)) htimed

end Untimed

/-!
# The traversal
-/

/-- The next values that C leaves open do not stop the traversal. -/
structure Steady (env : Env) (w : World) (ints stamps : Nat) : Prop where
  int : forall k, k < ints -> 0 <= env.int (w.ints + k)
  timed : Timed env w stamps

theorem forall_lt_add_iff {p : Nat -> Prop} {m n : Nat} :
    (forall k, k < m + n -> p k) <-> (forall k, k < m -> p k) ∧ forall k,
    k < n -> p (m + k) := by
  constructor
  · intro h
    exact ⟨fun k hk => h k (Nat.lt_add_right n hk), fun k hk =>
      h (m + k) (Nat.add_lt_add_left hk m)⟩
  · intro h k hk
    rcases Nat.lt_or_ge k m with hless | hge
    · exact h.left k hless
    · have hrest := h.right (k - m) (by omega)
      rw [Nat.add_sub_cancel' hge] at hrest
      exact hrest

theorem Moved.steady_iff {env : Env} {places : List (Controller × Text)}
    {ints ints' stamps stamps' : Nat}
    {sizes : List Nat} {outside : Nat} {w w' : World}
    (h : Moved env places ints stamps sizes outside w w') :
    Steady env w (ints + ints') (stamps + stamps') <->
      Steady env w ints stamps ∧ Steady env w' ints' stamps' := by
  constructor
  · intro hsteady
    rcases forall_lt_add_iff.mp hsteady.int with ⟨hints, hints'⟩
    rcases forall_lt_add_iff.mp hsteady.timed with ⟨hstamps, hstamps'⟩
    refine ⟨⟨hints, hstamps⟩, ?_, ?_⟩
    · intro k hk
      rw [h.ints, Nat.add_assoc]
      exact hints' k hk
    · intro k hk
      rw [h.stamps, h.saved, Nat.add_assoc]
      exact hstamps' k hk
  · intro hgiven
    rcases hgiven with ⟨hfirst, hrest⟩
    constructor
    · refine forall_lt_add_iff.mpr ⟨hfirst.int, ?_⟩
      intro k hk
      rw [← Nat.add_assoc, ← h.ints]
      exact hrest.int k hk
    · show forall k, k < stamps + stamps' -> (env.stamp (w.stamps + k)).ns ≠
        w.saved.oldTime.ns
      refine forall_lt_add_iff.mpr ⟨hfirst.timed, ?_⟩
      intro k hk
      rw [← Nat.add_assoc, ← h.stamps, ← h.saved]
      exact hrest.timed k hk

structure Covered (env : Env) (places : List (Controller × Text))
    (ints stamps : Nat) (sizes : List Nat)
    (outside : Nat) (r : Int) (w w' : World) : Prop where
  moved : Moved env places ints stamps sizes outside w w'
  result : 0 <= r
  answers : forall a, a ∈ w'.answers -> a ∈ w.answers ∨ 0 <= a

/-- A routine covers the places, unless one of the values that it uses stops it. -/
structure Covers (env : Env) (places : List (Controller × Text))
    (ints stamps : Nat) (sizes : List Nat)
    (outside : Nat) (p : Routine Int) : Prop where
  covered : forall w, Standing w -> Steady env w ints stamps ->
    exists r w', p w = some (r, w') ∧
      Covered env places ints stamps sizes outside r w w'
  stopped : forall w, Standing w -> ¬ Steady env w ints stamps ->
    forall r w', p w = some (r, w') -> r < 0 ∧ r ∈ w'.answers

section Covers

variable {env : Env} {places places' : List (Controller × Text)}
  {ints ints' stamps stamps' : Nat}
  {sizes sizes' : List Nat} {outside outside' : Nat} {p q : Routine Int}

/-- Two routines, of which the second one is left out if the first one has
failed. -/
theorem Covers.andThen (hp : Covers env places ints stamps sizes outside p)
    (hq : Covers env places' ints' stamps' sizes' outside' q) :
    Covers env (places ++ places') (ints + ints') (stamps + stamps')
      (sizes ++ sizes') (outside + outside')
      (p >>= fun r => if r < 0 then report (-1) else q) where
  covered := by
    intro w hw hsteady
    have hfirst : Steady env w ints stamps :=
      ⟨(forall_lt_add_iff.mp hsteady.int).left,
        (forall_lt_add_iff.mp hsteady.timed).left⟩
    rcases hp.covered w hw hfirst with ⟨r, t, hrun, ht⟩
    have hrest := (ht.moved.steady_iff.mp hsteady).right
    rcases hq.covered t ht.moved.standing hrest with ⟨r', w', hrun', hw'⟩
    refine ⟨r', w', ?_, ht.moved.trans hw'.moved, hw'.result, ?_⟩
    · rw [bind_apply, hrun, Option.bind_some, if_neg (Int.not_lt.mpr ht.result)]
      exact hrun'
    · intro a ha
      rcases hw'.answers a ha with ha | ha
      · exact ht.answers a ha
      · exact Or.inr ha
  stopped := by
    intro w hw hsteady r' w' hrun
    rcases bind_eq_some hrun with ⟨r, t, hfirst, hrest⟩
    have hreport : r < 0 -> r' < 0 ∧ r' ∈ w'.answers := by
      intro hr
      rw [if_pos hr] at hrest
      cases hrest
      exact ⟨by decide, List.mem_cons_self⟩
    by_cases hfirstSteady : Steady env w ints stamps
    · rcases hp.covered w hw hfirstSteady with ⟨_, _, hsame, ht⟩
      cases hfirst.symm.trans hsame
      rw [if_neg (Int.not_lt.mpr ht.result)] at hrest
      apply hq.stopped t ht.moved.standing _ r' w' hrest
      intro hrestSteady
      exact hsteady (ht.moved.steady_iff.mpr ⟨hfirstSteady, hrestSteady⟩)
    · exact hreport (hp.stopped w hw hfirstSteady r t hfirst).left

theorem covers_report : Covers env [] 0 0 [] 0 (report 0) where
  covered := by
    intro w hw _
    refine ⟨0, _, rfl, ⟨rfl, rfl, rfl, rfl, rfl, ⟨rfl, rfl⟩, hw.ring, hw.older⟩,
      Int.le_refl 0, ?_⟩
    intro a ha
    rcases List.mem_cons.mp ha with rfl | ha
    · exact Or.inr (Int.le_refl 0)
    · exact Or.inl ha
  stopped := by
    intro w _ hsteady
    exact absurd ⟨fun k hk => absurd hk (Nat.not_lt_zero k), fun k hk =>
      absurd hk (Nat.not_lt_zero k)⟩ hsteady

theorem covers_arbitraryInt :
    Covers env [] 1 0 [] 0 (arbitraryInt env >>= report) where
  covered := by
    intro w hw hsteady
    have hint := hsteady.int 0 Nat.one_pos
    refine ⟨env.int w.ints, _, rfl, ⟨rfl, rfl, rfl, rfl, rfl, ⟨rfl, rfl⟩,
      hw.ring, hw.older⟩, hint, ?_⟩
    intro a ha
    rcases List.mem_cons.mp ha with rfl | ha
    · exact Or.inr hint
    · exact Or.inl ha
  stopped := by
    intro w _ hsteady r w' hrun
    cases hrun
    refine ⟨?_, List.mem_cons_self⟩
    rw [← Int.not_le]
    intro hint
    apply hsteady
    constructor
    · intro k hk
      rw [Nat.lt_one_iff.mp hk]
      exact hint
    · intro k hk
      exact absurd hk (Nat.not_lt_zero k)

theorem Covers.atEnd (hp : Covers env places ints stamps sizes outside p) :
    Covers env places (ints + 1) stamps sizes outside
      (p >>= fun r => if r < 0 then report (-1)
        else arbitraryInt env >>= report) := by
  have hall := hp.andThen covers_arbitraryInt
  rw [List.append_nil, List.append_nil] at hall
  exact hall

theorem Covers.behindDrawn {build : Routine Text} {path : Text} {size : Nat}
    (outside' : Nat)
    (hrun : forall w, build w =
    some (path, w.drawn 1 (strayed env w.blocks [size] + outside')))
    {f : Text -> Routine Int} (h : Covers env places ints stamps sizes outside
    (f path)) :
    Covers env places ints stamps (size :: sizes) (outside' + outside)
      (build >>= f) := by
  constructor
  · intro w hw hsteady
    rw [bind_apply, hrun]
    rcases h.covered (w.drawn 1 (strayed env w.blocks [size] + outside'))
      ⟨hw.ring, hw.older⟩
      ⟨hsteady.int, hsteady.timed⟩ with ⟨r, w', hrest, hw'⟩
    have hmoved := hw'.moved
    exact ⟨r, w', hrest, ⟨hmoved.places, hmoved.head, hmoved.ints,
      hmoved.stamps, hmoved.saved,
      (built_drawn env size outside' w).trans hmoved.built, hmoved.standing⟩,
        hw'.result, hw'.answers⟩
  · intro w hw hsteady r w' hrest
    rw [bind_apply, hrun] at hrest
    exact h.stopped (w.drawn 1 (strayed env w.blocks [size] + outside'))
      ⟨hw.ring, hw.older⟩
      (fun hs => hsteady ⟨hs.int, hs.timed⟩) r w' hrest

theorem Covers.behindOpendir {path : Text} {entries : List Dirent}
    (hopen : forall tick, env.opendir tick path = some entries)
    {f : Option (List Dirent) -> Routine Int}
    (h : Covers env places ints stamps sizes outside (f (some entries))) :
    Covers env places ints stamps sizes outside (opendir env path >>= f) := by
  have hrun : forall w, opendir env path w = some (some entries,
      { w with tick := w.tick + 1,
               descriptors := w.descriptors.assign (.directory path) }) := by
    intro w
    unfold opendir
    rw [hopen]
  constructor
  · intro w hw hsteady
    rw [bind_apply, hrun]
    rcases h.covered
      { w with tick := w.tick + 1,
               descriptors := w.descriptors.assign (.directory path) }
      ⟨hw.ring, hw.older⟩ ⟨hsteady.int, hsteady.timed⟩ with ⟨r, w', hrest, hw'⟩
    have hmoved := hw'.moved
    exact ⟨r, w', hrest, ⟨hmoved.places, hmoved.head, hmoved.ints,
      hmoved.stamps, hmoved.saved, hmoved.built,
      hmoved.standing⟩, hw'.result, hw'.answers⟩
  · intro w hw hsteady r w' hrest
    rw [bind_apply, hrun] at hrest
    exact h.stopped
      { w with tick := w.tick + 1,
               descriptors := w.descriptors.assign (.directory path) }
      ⟨hw.ring, hw.older⟩ (fun hs => hsteady ⟨hs.int, hs.timed⟩) r w' hrest

end Covers

section Traversal

variable {env : Env} {h : Hierarchy} {controller : Controller}

theorem process_covers (hreadable : Readable env h) {names : List Text}
    (hleads : h.Leads controller [] names) :
    Covers env [(controller, pathOf names)] 1 controller.stamps
      (visitSizes controller names) 0
      (process env controller (pathOf names)) where
  covered := by
    intro w hw hsteady
    rcases process_moved hreadable hleads hw hsteady.timed with
      ⟨w', hrun, hmoved, hanswers⟩
    have hint : 0 <= env.int w.ints := hsteady.int 0 Nat.one_pos
    refine ⟨_, w', hrun, hmoved, hint, ?_⟩
    intro a ha
    rw [hanswers] at ha
    rcases List.mem_cons.mp ha with rfl | ha
    · exact Or.inr hint
    · exact Or.inl ha
  stopped := by
    intro w hw hsteady r w' hrun
    by_cases htimed : Timed env w controller.stamps
    · rcases process_moved hreadable hleads hw htimed with ⟨_, hsame, _, hanswers⟩
      cases hrun.symm.trans hsame
      rw [hanswers]
      refine ⟨?_, List.mem_cons_self⟩
      rw [← Int.not_le]
      intro hint
      apply hsteady
      refine ⟨?_, htimed⟩
      intro k hk
      rw [Nat.lt_one_iff.mp hk]
      exact hint
    · exact process_untimed htimed (pathOf names) w r w' ⟨rfl, rfl⟩ hrun

namespace Hierarchy

theorem places_succ (left : Nat) (names : List Text) :
    h.places controller (left + 1) names =
      (controller, pathOf names) ::
        (h.subgroups controller names).flatMap (fun name =>
          h.places controller left (names ++ [name])) := by
  rw [places, below, List.map_cons, List.map_flatMap]
  rfl

end Hierarchy

theorem subgroupNames_skip {de : Dirent} (hde : de.isSubgroup = false)
    (entries : List Dirent) :
    subgroupNames (de :: entries) = subgroupNames entries := by
  rw [subgroupNames, List.filter_cons_of_neg
    (by rw [hde]; exact Bool.false_ne_true)]
  rfl

theorem subgroupNames_take {de : Dirent} (hde : de.isSubgroup = true)
    (entries : List Dirent) :
    subgroupNames (de :: entries) = de.name :: subgroupNames entries := by
  rw [subgroupNames, List.filter_cons_of_pos hde]
  rfl

theorem cgReadSubgroup_covers {one : Text -> Routine Int} {names : List Text}
    (hnames : forall name, name ∈ names -> IsName name)
    {places : Text -> List (Controller × Text)}
    {sizes : Text -> List Nat} {outside : Text -> Nat} (stamps : Nat)
    (entries : List Dirent)
    (hentries : forall name, name ∈ subgroupNames entries -> IsName name)
    (hone : forall name, name ∈ subgroupNames entries ->
      Covers env (places name) (2 * (places name).length)
        (stamps * (places name).length) (sizes name)
        (outside name) (one (pathOf (names ++ [name])))) :
    Covers env ((subgroupNames entries).flatMap places)
      (2 * ((subgroupNames entries).flatMap places).length)
      (stamps * ((subgroupNames entries).flatMap places).length)
      ((subgroupNames entries).flatMap (fun name => subgroupSize names name ::
        sizes name))
      (((subgroupNames entries).map (fun name => (if names = [] then 0 else 1) +
        outside name)).sum)
      (cgReadSubgroup env one (pathOf names) entries) := by
  induction entries with
  | nil =>
      exact covers_report
  | cons de entries ih =>
      rw [cgReadSubgroup]
      cases hde : de.isSubgroup with
      | false =>
          rw [subgroupNames_skip hde] at hone hentries ⊢
          by_cases hdir : (!de.isDir) = true
          · rw [if_pos hdir]
            exact ih hentries hone
          · have hname : de.name = bytes "." ∨ de.name = bytes ".." := by
              rw [Bool.not_eq_true, Bool.not_eq_false'] at hdir
              rw [Dirent.isSubgroup, hdir] at hde
              simp only [Bool.true_and, Bool.and_eq_false_iff,
                bne_eq_false_iff_eq] at hde
              exact hde
            rw [if_neg hdir, if_pos hname]
            exact ih hentries hone
      | true =>
          rw [subgroupNames_take hde] at hone hentries ⊢
          simp only [Dirent.isSubgroup, Bool.and_eq_true, bne_iff_ne] at hde
          have hdir : ¬ (!de.isDir) = true := by
            rw [hde.left.left]
            decide
          have hname := hentries de.name List.mem_cons_self
          have hrest :=
            ih (fun name hname => hentries name
            (List.mem_cons_of_mem de.name hname))
            (fun name hname => hone name (List.mem_cons_of_mem de.name hname))
          have hfirst := (hone de.name List.mem_cons_self).andThen hrest
          rw [if_neg hdir, if_neg (not_or.mpr ⟨hde.left.right, hde.right⟩),
            List.flatMap_cons,
            List.length_append, Nat.mul_add, Nat.mul_add, List.flatMap_cons,
              List.map_cons,
            List.sum_cons, List.cons_append, Nat.add_assoc]
          exact Covers.behindDrawn _ (joinSubgroup_eq env hnames hname) hfirst

theorem refreshOne_covers (hreadable : Readable env h) (left : Nat) :
    forall {names : List Text},
    h.Leads controller [] names ->
      Covers env (h.places controller left names)
        (2 * (h.places controller left names).length)
        (controller.stamps * (h.places controller left names).length)
        (h.sizes controller left names) (h.outside controller left names)
        (refreshOne env controller left (pathOf names)) := by
  induction left with
  | zero =>
      intro names _
      exact covers_report
  | succ left ih =>
      intro names hleads
      have hone : forall name, name ∈ subgroupNames (h.entries controller names) ->
          Covers env (h.places controller left (names ++ [name]))
            (2 * (h.places controller left (names ++ [name])).length)
            (controller.stamps *
              (h.places controller left (names ++ [name])).length)
            (h.sizes controller left (names ++ [name]))
              (h.outside controller left (names ++ [name]))
            (refreshOne env controller left (pathOf (names ++ [name]))) :=
        fun name hname => ih (hleads.concat hname)
      have hsubgroups := cgReadSubgroup_covers hleads.isName controller.stamps
        (h.entries controller names) (fun name hname =>
          Hierarchy.isName_subgroup hname) hone
      have hopen : forall tick, env.opendir tick
          (cgGetPath controller (pathOf names) (bytes "/")) =
          some (h.entries controller names) := by
        intro tick
        rw [cgGetPath_dir _ hleads.isName]
        exact hreadable.directory tick controller names hleads
      rw [Hierarchy.places_succ, List.length_cons, Nat.mul_succ, Nat.mul_succ,
        refreshOne,
        Hierarchy.sizes, Hierarchy.outside, ← Nat.zero_add (List.sum _),
          ← Nat.zero_add (0 + List.sum _)]
      have hints : forall n, 2 * n + 2 = 1 + (2 * n + 1) := by
        intro n
        omega
      rw [hints, Nat.add_comm _ controller.stamps]
      exact (process_covers hreadable hleads).andThen
        (Covers.behindDrawn 0 (joinPath_eq env controller hleads.isName (by decide))
          (Covers.behindOpendir hopen hsubgroups.atEnd))

theorem refreshOne_root (hreadable : Readable env h) (controller : Controller) :
    Covers env (h.places controller 4 []) (2 * (h.places controller 4 []).length)
      (controller.stamps * (h.places controller 4 []).length)
        (h.sizes controller 4 [])
      (h.outside controller 4 []) (refreshOne env controller 4 [slash]) := by
  have hroot : h.Leads controller [] [] := trivial
  exact refreshOne_covers hreadable 4 hroot

structure Refreshed (env : Env) (places : List (Controller × Text))
    (sizes : List Nat) (outside : Nat)
    (w w' : World) : Prop where
  places : w'.visits.map Visit.place = places.reverse ++ w.visits.map Visit.place
  head : w'.head = w.head
  built : Built env sizes outside w w'
  standing : Standing w'
  answers : forall a, a ∈ w'.answers -> a ∈ w.answers ∨ 0 <= a

/-- How many unassigned times the controllers use. -/
def stampsOf (h : Hierarchy) (controllers : List Controller) : Nat :=
  (controllers.map (fun controller =>
    controller.stamps * (h.places controller 4 []).length)).sum

theorem Refreshed.behind {places places' : List (Controller × Text)}
    {ints stamps : Nat}
    {sizes sizes' : List Nat} {outside outside' : Nat} {r : Int} {w t w' : World}
    (h : Covered env places ints stamps sizes outside r w t)
    (h' : Refreshed env places' sizes' outside' t w') :
    Refreshed env (places ++ places') (sizes ++ sizes') (outside + outside') w
      w' where
  places := by
    rw [h'.places, h.moved.places, List.reverse_append, List.append_assoc]
  head := h'.head.trans h.moved.head
  built := h.moved.built.trans h'.built
  standing := h'.standing
  answers := by
    intro a ha
    rcases h'.answers a ha with ha | ha
    · exact h.answers a ha
    · exact Or.inr ha

theorem refreshAll_refreshed (hreadable : Readable env h)
    (controllers : List Controller) : forall {w : World},
    Standing w -> Steady env w (2 * (h.placesOf controllers).length)
      (stampsOf h controllers) ->
      exists r w', refreshAll env controllers w = some (r, w') ∧
        Refreshed env (h.placesOf controllers) (h.sizesOf controllers)
          (h.outsideOf controllers) w w' := by
  induction controllers with
  | nil =>
      intro w hw _
      exact ⟨_, _, rfl, rfl, rfl, ⟨rfl, rfl⟩, ⟨hw.ring, hw.older⟩,
        fun a ha => Or.inl ha⟩
  | cons controller controllers ih =>
      intro w hw hsteady
      have hone := refreshOne_root hreadable controller
      rw [Hierarchy.placesOf, List.flatMap_cons, List.length_append,
        Nat.mul_add] at hsteady
      have hfirst : Steady env w _ _ :=
        ⟨(forall_lt_add_iff.mp hsteady.int).left,
          (forall_lt_add_iff.mp hsteady.timed).left⟩
      rcases hone.covered w hw hfirst with ⟨r, t, hrun, ht⟩
      rcases ih ht.moved.standing (ht.moved.steady_iff.mp hsteady).right with
        ⟨r', w', hrun', hw'⟩
      refine ⟨r', w', ?_, hw'.behind ht⟩
      rw [refreshAll, bind_apply, hrun, Option.bind_some,
        if_neg (Int.not_lt.mpr ht.result)]
      exact hrun'

theorem refreshAll_stopped (hreadable : Readable env h)
    (controllers : List Controller) : forall {w w' : World} {r : Int},
    Standing w -> ¬ Steady env w (2 * (h.placesOf controllers).length)
      (stampsOf h controllers) ->
      refreshAll env controllers w = some (r, w') -> exists a, a ∈ w'.answers ∧
        a < 0 := by
  induction controllers with
  | nil =>
      intro w w' r _ hsteady _
      exact absurd ⟨fun k hk => absurd hk (Nat.not_lt_zero k), fun k hk =>
        absurd hk (Nat.not_lt_zero k)⟩ hsteady
  | cons controller controllers ih =>
      intro w w' r hw hsteady hrun
      have hone := refreshOne_root hreadable controller
      rw [Hierarchy.placesOf, List.flatMap_cons, List.length_append,
        Nat.mul_add] at hsteady
      rcases bind_eq_some hrun with ⟨r', t, hfirst, hrest⟩
      by_cases hfirstSteady : Steady env w (2 * (h.places controller 4 []).length)
          (controller.stamps * (h.places controller 4 []).length)
      · rcases hone.covered w hw hfirstSteady with ⟨_, _, hsame, ht⟩
        cases hfirst.symm.trans hsame
        rw [if_neg (Int.not_lt.mpr ht.result)] at hrest
        apply ih ht.moved.standing _ hrest
        intro hrestSteady
        exact hsteady (ht.moved.steady_iff.mpr ⟨hfirstSteady, hrestSteady⟩)
      · rcases hone.stopped w hw hfirstSteady r' t hfirst with ⟨hr, hanswer⟩
        rw [if_pos hr] at hrest
        cases hrest
        exact ⟨r', hanswer, hr⟩

end Traversal

/-!
# A refresh
-/

/-- The controllers that `refresh` asks for. -/
def refreshed : List Controller :=
  [.systemd, .cpuacct, .memory, .blkio]

/-- The list `G` is empty, and nothing has been visited. -/
structure Started (w : World) : Prop where
  ring : Ring w.heap w.head []
  older : w.head < w.fresh
  visits : w.visits = []
  answers : w.answers = []

theorem Started.standing {w : World} (h : Started w) : Standing w where
  ring := by
    rw [h.visits]
    exact h.ring
  older := by
    intro a ha
    rw [h.visits] at ha
    rw [List.mem_singleton.mp ha]
    exact h.older

/--
Every directory down to a depth of 3 is visited once, in depth-first order and
for one controller after the other, each visit has put one node into the list,
nothing has reported a failure, and every string was built inside of its block.
-/
def Exhaustive (env : Env) (h : Hierarchy) (w : World) : Prop :=
  exists r w', refresh env w = some (r, w') ∧
    w'.visits.reverse.map Visit.place = h.placesOf refreshed ∧
      (h.placesOf refreshed).Nodup ∧
    Ring w'.heap w.head (w'.visits.map Visit.node) ∧
      (forall a, a ∈ w'.answers -> 0 <= a) ∧
    w'.strays = w.strays

/-- The directories that are to be visited are those down to a depth of 3. -/
theorem mem_placesOf_refreshed {h : Hierarchy} {controller : Controller}
    {path : Text} :
    (controller, path) ∈ h.placesOf refreshed <->
      exists names, path = pathOf names ∧ names.length <= 3 ∧
        h.Leads controller [] names := by
  have hall : controller ∈ refreshed := by
    cases controller <;> decide
  rw [Hierarchy.placesOf, List.mem_flatMap]
  constructor
  · intro hmem
    rcases hmem with ⟨controller', _, hmem⟩
    rcases List.mem_map.mp hmem with ⟨names, hnames, hsame⟩
    cases hsame
    rcases (Hierarchy.mem_below_iff 4).mp hnames with ⟨more, hmore, hlength, hleads⟩
    rw [List.nil_append] at hmore
    subst hmore
    exact ⟨names, rfl, Nat.le_of_lt_succ hlength, hleads⟩
  · intro hmem
    rcases hmem with ⟨names, rfl, hlength, hleads⟩
    have hnames := (Hierarchy.mem_below_iff 4).mpr
      ⟨names, (List.nil_append names).symm, Nat.lt_succ_of_le hlength, hleads⟩
    exact ⟨controller, hall, List.mem_map_of_mem hnames⟩

theorem stampsOf_refreshed (h : Hierarchy) :
    stampsOf h refreshed = (h.places .blkio 4 []).length := by
  simp [stampsOf, refreshed, Controller.stamps]

section Refresh

variable {env : Env} {h : Hierarchy} {w : World}

theorem refresh_of_steady (hreadable : Readable env h) (hw : Started w)
    (hsteady : Steady env w (2 * (h.placesOf refreshed).length)
    (h.places .blkio 4 []).length) :
    exists r w', refresh env w = some (r, w') ∧
      Refreshed env (h.placesOf refreshed) (h.sizesOf refreshed)
        (h.outsideOf refreshed) w w' := by
  rw [← stampsOf_refreshed] at hsteady
  exact refreshAll_refreshed hreadable refreshed hw.standing hsteady

/-- Every string is built inside of its block where each fresh one holds a null
byte and no path needs more room. -/
theorem Refreshed.strays_iff {places : List (Controller × Text)} {w' : World}
    (hw' : Refreshed env places (h.sizesOf refreshed) (h.outsideOf refreshed) w
    w') :
    w'.strays = w.strays <-> Cleared env w.blocks (h.sizesOf refreshed) ∧
      h.Shallow refreshed := by
  rw [hw'.built.right, ← strayed_eq_zero_iff, ← Hierarchy.outsideOf_eq_zero_iff,
    ← Nat.add_eq_zero_iff]
  exact Nat.add_eq_left

theorem exhaustive_of_steady (hreadable : Readable env h) (hw : Started w)
    (hsteady : Steady env w (2 * (h.placesOf refreshed).length)
    (h.places .blkio 4 []).length)
    (hclear : Cleared env w.blocks (h.sizesOf refreshed))
    (hshallow : h.Shallow refreshed) :
    Exhaustive env h w := by
  rcases refresh_of_steady hreadable hw hsteady with ⟨r, w', hrun, hw'⟩
  refine ⟨r, w', hrun, ?_, Hierarchy.placesOf_nodup (by decide), ?_, ?_, ?_⟩
  · rw [List.map_reverse, hw'.places, hw.visits, List.map_nil, List.append_nil,
      List.reverse_reverse]
  · rw [← hw'.head]
    exact hw'.standing.ring
  · intro a ha
    rcases hw'.answers a ha with ha | ha
    · rw [hw.answers] at ha
      cases ha
    · exact ha
  · exact hw'.strays_iff.mpr ⟨hclear, hshallow⟩

theorem steady_of_exhaustive (hreadable : Readable env h) (hw : Started w)
    (hall : Exhaustive env h w) :
    Steady env w (2 * (h.placesOf refreshed).length)
      (h.places .blkio 4 []).length := by
  by_contra hsteady
  rw [← stampsOf_refreshed] at hsteady
  rcases hall with ⟨r, w', hrun, _, _, _, hanswers, _⟩
  rcases refreshAll_stopped hreadable refreshed hw.standing hsteady hrun with
    ⟨a, ha, hnegative⟩
  exact absurd (hanswers a ha) (Int.not_le.mpr hnegative)

/--
A refresh is exhaustive if and only if, of the values that C leaves open, the
next number for each end of `process` and `refresh_one` is not negative, the
next time for each visit of `blkio` differs from `old_time`, each fresh block
for a string holds a null byte, and no subgroup has a subgroup.
-/
theorem refresh_exhaustive_iff (hreadable : Readable env h) (hw : Started w) :
    Exhaustive env h w <->
      Steady env w (2 * (h.placesOf refreshed).length)
        (h.places .blkio 4 []).length ∧
        Cleared env w.blocks (h.sizesOf refreshed) ∧ h.Shallow refreshed := by
  constructor
  · intro hall
    have hsteady := steady_of_exhaustive hreadable hw hall
    rcases hall with ⟨r, w', hrun, _, _, _, _, hstrays⟩
    rcases refresh_of_steady hreadable hw hsteady with ⟨_, _, hsame, hw'⟩
    cases hrun.symm.trans hsame
    exact ⟨hsteady, hw'.strays_iff.mp hstrays⟩
  · rintro ⟨hsteady, hclear, hshallow⟩
    exact exhaustive_of_steady hreadable hw hsteady hclear hshallow

end Refresh

/-- `display` shows the groups that have a task, in the order in which they were
visited. -/
theorem display_shows {w : World} (h : Standing w) :
    exists w', display w = some ((), w') ∧
    w'.rows = ((w.visits.reverse.map Visit.node).filterMap w.heap.itemOf).filter
      (fun group => group.tasks != 0) := by
  have hfuel : (w.visits.map Visit.node).length + 1 <= w.fresh + 1 := by
    have hnodup : (w.visits.map Visit.node).Nodup :=
      (List.nodup_cons.mp h.ring.distinct).right
    have hsubset : w.visits.map Visit.node ⊆ List.range w.fresh := fun a ha =>
      List.mem_range.mpr (h.older a (List.mem_cons_of_mem w.head ha))
    have hlength := (List.Nodup.subperm hnodup hsubset).length_le
    rw [List.length_range] at hlength
    exact Nat.succ_le_succ hlength
  have hbackward := backward_mono hfuel h.ring.backward
  rw [← List.map_reverse] at hbackward
  have hrun : display w = some ((), { w with
      rows := ((w.visits.reverse.map Visit.node).filterMap w.heap.itemOf).filter
        (fun group => group.tasks != 0) }) := by
    rw [display, hbackward]
    rfl
  exact ⟨_, hrun, rfl⟩

theorem newList_started :
    Total (fun w => w.visits = [] ∧ w.answers = []) newList (fun _ => Started) := by
  intro w hw
  refine ⟨(), _, rfl, ring_single ?_ ?_ ?_, Nat.lt_succ_self _, hw.left, hw.right⟩
  · rw [nextOf_update, if_pos rfl]
  · rw [prevOf_update, if_pos rfl]
  · rw [itemOf_update, if_pos rfl]
    exact Option.some_ne_none _

/-- No cgroup has a subgroup. -/
def flatHierarchy : Hierarchy where
  entries _ _ := []
  isName _ _ _ := fun hde => by cases hde
  distinct _ _ := List.nodup_nil

/-- A system on which everything can be read, and the number that functions
leave that return none. -/
def flatEnv (left : Int) : Env where
  fopen _ _ := some (bytes "5\n", .eof)
  opendir _ _ := some []
  fdopen _ := true
  clock _ := ⟨1, 0⟩
  int _ := left
  stamp _ := ⟨2, 0⟩
  memory _ _ := 0

/-- A list without a group. -/
def flatWorld : World where
  tick := 0
  descriptors := []
  heap := Function.update (fun _ => none) 1 (some ⟨.blank, some 1, some 1⟩)
  fresh := 2
  head := 1
  saved := ⟨⟨1, 0⟩, 0, 0, 0, 0, 0⟩
  ints := 0
  stamps := 0
  blocks := 0
  strays := 0
  visits := []
  answers := []
  rows := []

theorem flatEnv_readable (left : Int) : Readable (flatEnv left) flatHierarchy where
  directory _ _ _ _ := rfl
  tasks _ _ _ _ := ⟨bytes "5\n", .eof, rfl, 2, rfl⟩
  usage _ _ _ := ⟨bytes "5\n", .eof, rfl, rfl⟩
  memory _ _ _ := ⟨bytes "5\n", .eof, rfl, rfl⟩
  serviceBytes _ _ _ := ⟨bytes "5\n", .eof, rfl, trivial⟩

theorem flatWorld_started : Started flatWorld where
  ring := ring_single rfl rfl (Option.some_ne_none _)
  older := Nat.one_lt_two
  visits := rfl
  answers := rfl

theorem flatHierarchy_shallow (controllers : List Controller) :
    flatHierarchy.Shallow controllers :=
  fun _ _ _ _ => rfl

theorem refresh_exhaustive_flat :
    Exhaustive (flatEnv 0) flatHierarchy flatWorld := by
  have htime : (⟨2, 0⟩ : Timespec).ns ≠ (⟨1, 0⟩ : Timespec).ns := by decide
  have hclear : Cleared (flatEnv 0) flatWorld.blocks
      (flatHierarchy.sizesOf refreshed) :=
    (strayed_eq_zero_iff _ _ _).mp (by decide +kernel)
  exact (refresh_exhaustive_iff (flatEnv_readable 0) flatWorld_started).mpr
    ⟨⟨fun _ _ => Int.le_refl 0, fun _ _ => htime⟩, hclear,
      flatHierarchy_shallow refreshed⟩

/-- The first number is negative, and only one of the four directories is
visited. -/
theorem refresh_cut_off :
    Readable (flatEnv (-1)) flatHierarchy ∧ Started flatWorld ∧
      ¬ Exhaustive (flatEnv (-1)) flatHierarchy flatWorld := by
  refine ⟨flatEnv_readable (-1), flatWorld_started, ?_⟩
  intro hall
  have hsteady := steady_of_exhaustive (flatEnv_readable (-1)) flatWorld_started
    hall
  have hint : (0 : Int) <= -1 := hsteady.int 0 (by decide)
  exact absurd hint (by decide)

end Cgtop
end Lepd
