import Lepd.Cgtop.Process

/-!
# Invariants of the traversal

What `process` keeps, and the few calls around it, `refresh` keeps as well. Most
of the routines are plain: they save nothing, visit nothing and use no time that
is not assigned.
-/

namespace Lepd
namespace Cgtop

open Foundation
open Foundation.Program
open Ps (Text)

/-!
# What is opened
-/

section Opened

variable {env : Env} {path : Text} {w w' : World}

/-- A file can not be opened, or it gets the lowest number that is free. -/
theorem fopen_cases {file : Option (Nat × Stream)}
    (h : fopen env path w = some (file, w')) :
    (env.fopen w.tick path = none ∧ file = none ∧
    w' = { w with tick := w.tick + 1 }) ∨
      exists content ending, env.fopen w.tick path = some (content, ending) ∧
        file = some (w.descriptors.lowestFree, .opened content ending) ∧
        w' = { w with tick := w.tick + 1,
                      descriptors := w.descriptors.assign (.file path) } := by
  unfold fopen at h
  split at h
  next hnone =>
    cases h
    exact Or.inl ⟨hnone, rfl, rfl⟩
  next content ending hsome =>
    cases h
    exact Or.inr ⟨content, ending, hsome, rfl, rfl⟩

theorem opendir_cases {found : Option (List Dirent)}
    (h : opendir env path w = some (found, w')) :
    (found = none ∧ w' = { w with tick := w.tick + 1 }) ∨
      exists entries, found = some entries ∧
        w' = { w with tick := w.tick + 1,
                      descriptors := w.descriptors.assign (.directory path) } := by
  unfold opendir at h
  split at h
  · cases h
    exact Or.inl ⟨rfl, rfl⟩
  · cases h
    exact Or.inr ⟨_, rfl, rfl⟩

end Opened

/-!
# Plain routines
-/

structure Later (w w' : World) : Prop where
  saved : w'.saved = w.saved
  visits : w'.visits = w.visits
  stamps : w'.stamps = w.stamps
  tick : w.tick <= w'.tick

theorem Later.refl (w : World) : Later w w :=
  ⟨rfl, rfl, rfl, Nat.le_refl _⟩

theorem Later.trans {w w' w'' : World} (h : Later w w') (h' : Later w' w'') :
    Later w w'' :=
  ⟨h'.saved.trans h.saved, h'.visits.trans h.visits, h'.stamps.trans h.stamps,
    h.tick.trans h'.tick⟩

def Plain {value : Type} (p : Routine value) : Prop :=
  forall w, Keeps (Later w) p

section Plain

variable {value : Type} {p : Routine value}

theorem plain_of_step (h : forall w a w', p w = some (a, w') -> Later w w') :
    Plain p :=
  fun _ w a w' hw hrun => hw.trans (h w a w' hrun)

theorem Plain.later (h : Plain p) {w w' : World} {a : value}
    (hrun : p w = some (a, w')) : Later w w' :=
  h w w a w' (Later.refl w) hrun

theorem Plain.keeps (h : Plain p) {inv : World -> Prop}
    (hinv : forall w w', inv w -> Later w w' -> inv w') :
    Keeps inv p :=
  fun w _ w' hw hrun => hinv w w' hw (h.later hrun)

theorem now_plain : Plain now :=
  plain_of_step (fun w _ _ hrun => by cases hrun; exact Later.refl w)

theorem fopen_plain (env : Env) (path : Text) : Plain (fopen env path) := by
  apply plain_of_step
  intro w file w' hrun
  rcases fopen_cases hrun with ⟨_, _, rfl⟩ | ⟨content, ending, _, _, rfl⟩
  · exact ⟨rfl, rfl, rfl, Nat.le_succ _⟩
  · exact ⟨rfl, rfl, rfl, Nat.le_succ _⟩

theorem fclose_plain (fd : Nat) : Plain (fclose fd) :=
  plain_of_step (fun _ _ _ hrun => by cases hrun; exact ⟨rfl, rfl, rfl,
    Nat.le_refl _⟩)

theorem opendir_plain (env : Env) (path : Text) : Plain (opendir env path) := by
  apply plain_of_step
  intro w found w' hrun
  rcases opendir_cases hrun with ⟨_, rfl⟩ | ⟨entries, _, rfl⟩
  · exact ⟨rfl, rfl, rfl, Nat.le_succ _⟩
  · exact ⟨rfl, rfl, rfl, Nat.le_succ _⟩

theorem fdopen_plain (env : Env) (fd : Nat) : Plain (fdopen env fd) :=
  plain_of_step (fun _ _ _ hrun => by cases hrun; exact ⟨rfl, rfl, rfl,
    Nat.le_succ _⟩)

theorem clockGettime_plain (env : Env) : Plain (clockGettime env) :=
  plain_of_step (fun _ _ _ hrun => by cases hrun; exact ⟨rfl, rfl, rfl,
    Nat.le_succ _⟩)

theorem arbitraryInt_plain (env : Env) : Plain (arbitraryInt env) :=
  plain_of_step (fun _ _ _ hrun => by cases hrun; exact ⟨rfl, rfl, rfl,
    Nat.le_refl _⟩)

theorem stampNumber_plain : Plain stampNumber :=
  plain_of_step (fun w _ _ hrun => by cases hrun; exact Later.refl w)

theorem report_plain (r : Int) : Plain (report r) :=
  plain_of_step (fun _ _ _ hrun => by cases hrun; exact ⟨rfl, rfl, rfl,
    Nat.le_refl _⟩)

theorem savedValues_plain : Plain savedValues :=
  plain_of_step (fun w _ _ hrun => by cases hrun; exact Later.refl w)

theorem malloc_plain (env : Env) (size : Nat) : Plain (malloc env size) :=
  plain_of_step (fun _ _ _ hrun => by cases hrun; exact ⟨rfl, rfl, rfl,
    Nat.le_refl _⟩)

theorem built_plain (text : Text) (block : Option Text) :
    Plain (built text block) := by
  apply plain_of_step
  intro w a w' hrun
  cases hrun
  split
  · exact Later.refl w
  · exact ⟨rfl, rfl, rfl, Nat.le_refl _⟩

theorem strjoinFresh_plain (env : Env) (x : Text) (ts : List Text) :
    Plain (strjoinFresh env x ts) := by
  intro w
  apply Keeps.bind (malloc_plain env _ w)
  intro r
  exact built_plain _ _ w

theorem joinPath_plain (env : Env) (controller : Controller) (path suffix : Text) :
    Plain (joinPath env controller path suffix) := by
  intro w
  apply Keeps.bind (strjoinFresh_plain env _ _ w)
  intro t
  exact built_plain _ _ w

theorem joinSubgroup_plain (env : Env) (path name : Text) :
    Plain (joinSubgroup env path name) := by
  intro w
  apply Keeps.bind (strjoinFresh_plain env _ _ w)
  intro fn
  exact built_plain _ _ w

theorem storePathFresh_plain (env : Env) (fs : Text) :
    Plain (storePathFresh env fs) := by
  intro w
  apply Keeps.bind (malloc_plain env _ w)
  intro path
  exact built_plain _ _ w

theorem mallocGroup_plain : Plain mallocGroup :=
  plain_of_step (fun _ _ _ hrun => by cases hrun; exact ⟨rfl, rfl, rfl,
    Nat.le_refl _⟩)

theorem newList_plain : Plain newList :=
  plain_of_step (fun _ _ _ hrun => by cases hrun; exact ⟨rfl, rfl, rfl,
    Nat.le_refl _⟩)

theorem setGroup_plain (g : Nat) (f : Cgroup -> Cgroup) : Plain (setGroup g f) := by
  apply plain_of_step
  intro w a w' hrun
  rcases Option.map_eq_some_iff.mp hrun with ⟨heap, _, hheap⟩
  cases hheap
  exact ⟨rfl, rfl, rfl, Nat.le_refl _⟩

theorem display_plain : Plain display := by
  apply plain_of_step
  intro w a w' hrun
  rcases Option.map_eq_some_iff.mp hrun with ⟨nodes, _, hnodes⟩
  cases hnodes
  exact ⟨rfl, rfl, rfl, Nat.le_refl _⟩

theorem readOneLineFile_plain (env : Env) (fn : Text) :
    Plain (readOneLineFile env fn) := by
  intro w
  apply Keeps.bind (fopen_plain env fn w)
  intro file
  split
  · exact Keeps.pure
  · split
    · exact Keeps.pure
    · exact Keeps.pure

end Plain

/-!
# The traversal
-/

structure KeptByParts (env : Env) (inv : World -> Prop) : Prop where
  process : forall controller path, Keeps inv (process env controller path)
  joinPath : forall controller path suffix,
    Keeps inv (joinPath env controller path suffix)
  joinSubgroup : forall path name, Keeps inv (joinSubgroup env path name)
  opendir : forall path, Keeps inv (opendir env path)
  arbitraryInt : Keeps inv (arbitraryInt env)
  report : forall r, Keeps inv (report r)

namespace KeptByParts

variable {env : Env} {inv : World -> Prop}

theorem cgReadSubgroup (h : KeptByParts env inv) {one : Text -> Routine Int}
    (hone : forall path, Keeps inv (one path)) (path : Text)
    (entries : List Dirent) :
    Keeps inv (cgReadSubgroup env one path entries) := by
  induction entries with
  | nil =>
      exact h.report 0
  | cons de entries ih =>
      rw [Cgtop.cgReadSubgroup]
      apply Keeps.ite ih
      apply Keeps.ite ih
      apply Keeps.bind (h.joinSubgroup path de.name)
      intro fn
      apply Keeps.bind (hone fn)
      intro r
      exact Keeps.ite (h.report (-1)) ih

theorem refreshOne (h : KeptByParts env inv) (controller : Controller)
    (left : Nat) :
    forall path, Keeps inv (refreshOne env controller left path) := by
  induction left with
  | zero =>
      intro path
      exact h.report 0
  | succ left ih =>
      intro path
      rw [Cgtop.refreshOne]
      apply Keeps.bind (h.process controller path)
      intro r
      apply Keeps.ite (h.report (-1))
      apply Keeps.bind (h.joinPath controller path _)
      intro fs
      apply Keeps.bind (h.opendir fs)
      intro opened
      cases opened with
      | none =>
          exact h.report (-1)
      | some entries =>
          apply Keeps.bind (h.cgReadSubgroup ih path entries)
          intro r
          apply Keeps.ite (h.report (-1))
          apply Keeps.bind h.arbitraryInt
          intro r
          exact h.report r

theorem refreshAll (h : KeptByParts env inv) (controllers : List Controller) :
    Keeps inv (refreshAll env controllers) := by
  induction controllers with
  | nil =>
      exact h.arbitraryInt
  | cons controller controllers ih =>
      rw [Cgtop.refreshAll]
      apply Keeps.bind (h.refreshOne controller 4 [slash])
      intro r
      exact Keeps.ite Keeps.pure ih

theorem refresh (h : KeptByParts env inv) : Keeps inv (refresh env) :=
  h.refreshAll _

end KeptByParts

end Cgtop
end Lepd
