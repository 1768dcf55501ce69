import Mathlib.Algebra.Order.BigOperators.Group.List
import Lepd.Cgtop.Strings

/-!
# Hierarchies of cgroups

What a traversal is to find: the directories below the mount point of each
controller, with a directory listed in front of its subdirectories, and those in
the order of its entries.
-/

namespace Lepd
namespace Cgtop

open Ps (Text bytes byte)

/-- The entries of each directory, by the names that lead to it. -/
structure Hierarchy where
  entries : Controller -> List Text -> List Dirent
  isName : forall controller names de, de ∈ entries controller names ->
    IsName de.name
  distinct : forall controller names,
    ((entries controller names).map Dirent.name).Nodup

def Dirent.isSubgroup (de : Dirent) : Bool :=
  de.isDir && de.name != bytes "." && de.name != bytes ".."

def subgroupNames (entries : List Dirent) : List Text :=
  (entries.filter Dirent.isSubgroup).map Dirent.name

namespace Hierarchy

variable (h : Hierarchy) (controller : Controller)

def subgroups (names : List Text) : List Text :=
  subgroupNames (h.entries controller names)

def Leads : List Text -> List Text -> Prop
  | _, [] => True
  | names, name :: more =>
      name ∈ h.subgroups controller names ∧ Leads (names ++ [name]) more

def below : Nat -> List Text -> List (List Text)
  | 0, _ => []
  | left + 1, names =>
      names :: (h.subgroups controller names).flatMap (fun name =>
      below left (names ++ [name]))

variable {h controller}

theorem isName_subgroup {names : List Text} {name : Text}
    (hname : name ∈ h.subgroups controller names) :
    IsName name := by
  rcases List.mem_map.mp hname with ⟨de, hde, rfl⟩
  exact h.isName controller names de (List.mem_filter.mp hde).left

theorem subgroups_nodup (names : List Text) :
    (h.subgroups controller names).Nodup :=
  (h.distinct controller names).sublist (List.filter_sublist.map Dirent.name)

theorem Leads.isName {more : List Text} :
    forall {names : List Text}, h.Leads controller names more ->
    forall name, name ∈ more -> IsName name := by
  induction more with
  | nil =>
      intro names _ name hname
      cases hname
  | cons first more ih =>
      intro names hleads name hname
      rcases List.mem_cons.mp hname with rfl | hname
      · exact isName_subgroup hleads.left
      · exact ih hleads.right name hname

theorem Leads.concat {more : List Text} {name : Text} :
    forall {names : List Text}, h.Leads controller names more ->
    name ∈ h.subgroups controller (names ++ more) ->
      h.Leads controller names (more ++ [name]) := by
  induction more with
  | nil =>
      intro names _ hname
      rw [List.append_nil] at hname
      exact ⟨hname, trivial⟩
  | cons first more ih =>
      intro names hleads hname
      rw [List.append_cons] at hname
      exact ⟨hleads.left, ih hleads.right hname⟩

theorem mem_below_iff (left : Nat) : forall {names found : List Text},
    found ∈ h.below controller left names <->
      exists more, found = names ++ more ∧ more.length < left ∧
        h.Leads controller names more := by
  induction left with
  | zero =>
      intro names found
      constructor
      · intro hmem
        cases hmem
      · intro hmem
        rcases hmem with ⟨more, _, hlength, _⟩
        cases hlength
  | succ left ih =>
      intro names found
      rw [below, List.mem_cons, List.mem_flatMap]
      constructor
      · intro hmem
        rcases hmem with rfl | ⟨name, hname, hmem⟩
        · exact ⟨[], (List.append_nil _).symm, Nat.succ_pos left, trivial⟩
        · rcases ih.mp hmem with ⟨more, rfl, hlength, hleads⟩
          exact ⟨name :: more, (List.append_cons names name more).symm,
            Nat.succ_lt_succ hlength, hname, hleads⟩
      · intro hmem
        rcases hmem with ⟨more, rfl, hlength, hleads⟩
        cases more with
        | nil =>
            exact Or.inl (List.append_nil names)
        | cons name more =>
            refine Or.inr ⟨name, hleads.left,
              ih.mpr ⟨more, ?_, Nat.lt_of_succ_lt_succ hlength, hleads.right⟩⟩
            exact List.append_cons names name more

theorem below_nodup (left : Nat) :
    forall names, (h.below controller left names).Nodup := by
  induction left with
  | zero =>
      intro names
      exact List.nodup_nil
  | succ left ih =>
      intro names
      rw [below, List.nodup_cons, List.nodup_flatMap]
      refine ⟨?_, ?_, ?_⟩
      · intro hmem
        rcases List.mem_flatMap.mp hmem with ⟨name, _, hmem⟩
        rcases (mem_below_iff left).mp hmem with ⟨more, hsame, _, _⟩
        have hlength := congrArg List.length hsame
        rw [List.length_append, List.length_append,
          List.length_singleton] at hlength
        omega
      · intro name _
        exact ih (names ++ [name])
      · apply (subgroups_nodup names).imp
        intro name name' hne found hmem hmem'
        rcases (mem_below_iff left).mp hmem with ⟨more, rfl, _, _⟩
        rcases (mem_below_iff left).mp hmem' with ⟨more', hsame, _, _⟩
        rw [← List.append_cons, ← List.append_cons,
          List.append_cancel_left_eq] at hsame
        exact hne (List.head_eq_of_cons_eq hsame)

/-- The places that are to be visited for a controller, each with the path of
its group. -/
def places (h : Hierarchy) (controller : Controller) (left : Nat)
    (names : List Text) : List (Controller × Text) :=
  (h.below controller left names).map (fun names => (controller, pathOf names))

theorem places_nodup (left : Nat) : (h.places controller left []).Nodup := by
  apply List.Nodup.map_on _ (below_nodup left [])
  intro names hmem names' hmem' hsame
  rcases (mem_below_iff left).mp hmem with ⟨more, rfl, _, hleads⟩
  rcases (mem_below_iff left).mp hmem' with ⟨more', rfl, _, hleads'⟩
  exact pathOf_injective hleads.isName hleads'.isName (Prod.mk.inj hsame).right

/-- The places of some controllers, down to a depth of 3. -/
def placesOf (h : Hierarchy) (controllers : List Controller) :
    List (Controller × Text) :=
  controllers.flatMap (fun controller => h.places controller 4 [])

theorem placesOf_nodup {controllers : List Controller}
    (hdistinct : controllers.Nodup) :
    (h.placesOf controllers).Nodup := by
  rw [placesOf, List.nodup_flatMap]
  constructor
  · intro controller _
    exact places_nodup 4
  · apply hdistinct.imp
    intro controller controller' hne place hmem hmem'
    rcases List.mem_map.mp hmem with ⟨names, _, rfl⟩
    rcases List.mem_map.mp hmem' with ⟨names', _, hsame⟩
    exact hne (Prod.mk.inj hsame).left.symm

end Hierarchy

/-!
# What is allocated
-/

/-- The sizes of the fresh blocks in which a branch of `process` builds a path. -/
def rateSizes : Controller -> List Text -> List Nat
  | .systemd, _ => []
  | .cpuacct, names => [fileSize .cpuacct names (bytes "cpuacct.usage")]
  | .memory, names => [fileSize .memory names (bytes "memory.usage_in_bytes")]
  | .blkio, names => [fileSize .blkio names (bytes "blkio.io_service_bytes")]

def visitSizes (controller : Controller) (names : List Text) : List Nat :=
  [fileSize controller names (bytes "cgroup.procs"),
    (processesFile controller (pathOf names)).length] ++ rateSizes controller names

namespace Hierarchy

def sizes (h : Hierarchy) (controller : Controller) : Nat -> List Text -> List Nat
  | 0, _ => []
  | left + 1, names =>
      visitSizes controller names ++ (fileSize controller names (bytes "/") ::
        (h.subgroups controller names).flatMap (fun name =>
          subgroupSize names name :: sizes h controller left (names ++ [name])))

def sizesOf (h : Hierarchy) (controllers : List Controller) : List Nat :=
  controllers.flatMap (fun controller => h.sizes controller 4 [])

def outside (h : Hierarchy) (controller : Controller) : Nat -> List Text -> Nat
  | 0, _ => 0
  | left + 1, names =>
      ((h.subgroups controller names).map (fun name =>
        (if names = [] then 0 else 1) + outside h controller left
          (names ++ [name]))).sum

def outsideOf (h : Hierarchy) (controllers : List Controller) : Nat :=
  (controllers.map (fun controller => h.outside controller 4 [])).sum

/-- No subgroup of the root has a subgroup. -/
def Shallow (h : Hierarchy) (controllers : List Controller) : Prop :=
  forall controller, controller ∈ controllers -> forall name,
    name ∈ h.subgroups controller [] -> h.subgroups controller [name] = []

theorem over_subgroup_eq_zero_iff {h : Hierarchy} {controller : Controller}
    (left : Nat) (name : Text) :
    h.outside controller (left + 1) [name] = 0 <->
      h.subgroups controller [name] = [] := by
  rw [outside]
  cases h.subgroups controller [name] with
  | nil => exact ⟨fun _ => rfl, fun _ => rfl⟩
  | cons first names =>
      rw [List.map_cons, List.sum_cons, if_neg (List.cons_ne_nil name [])]
      constructor
      · intro hzero
        omega
      · intro hnil
        cases hnil

theorem outsideOf_eq_zero_iff {h : Hierarchy} (controllers : List Controller) :
    h.outsideOf controllers = 0 <-> h.Shallow controllers := by
  rw [outsideOf, List.sum_eq_zero_iff]
  simp only [List.mem_map, forall_exists_index, and_imp, forall_apply_eq_imp_iff₂]
  refine forall_congr' (fun controller => imp_congr_right (fun _ => ?_))
  rw [outside, List.sum_eq_zero_iff]
  simp only [List.mem_map, forall_exists_index, and_imp,
    forall_apply_eq_imp_iff₂, if_true, Nat.zero_add]
  exact forall_congr' (fun name => imp_congr_right (fun _ =>
    over_subgroup_eq_zero_iff 2 name))

end Hierarchy

/-!
# What can be read
-/

def Opens (env : Env) (path : Text) (good : Stream -> Prop) : Prop :=
  forall tick, exists content ending, env.fopen tick path =
    some (content, ending) ∧ good (.opened content ending)

def HasLine (f : Stream) : Prop :=
  (fgets 20 f).isSome = true

/-- The files and directories of the hierarchy can be opened and read. -/
structure Readable (env : Env) (h : Hierarchy) : Prop where
  directory : forall tick controller names, h.Leads controller [] names ->
    env.opendir tick (segments (mount controller ++ names)) =
      some (h.entries controller names)
  tasks : forall controller names, h.Leads controller [] names ->
    Opens env (segments (mount controller ++ (names ++ [bytes "cgroup.procs"])))
      (fun f => Ends f 0)
  usage : forall names, h.Leads .cpuacct [] names ->
    Opens env (segments (mount .cpuacct ++ (names ++ [bytes "cpuacct.usage"])))
      HasLine
  memory : forall names, h.Leads .memory [] names ->
    Opens env
      (segments (mount .memory ++ (names ++ [bytes "memory.usage_in_bytes"])))
      HasLine
  serviceBytes : forall names, h.Leads .blkio [] names ->
    Opens env
      (segments (mount .blkio ++ (names ++ [bytes "blkio.io_service_bytes"])))
      (fun _ => True)

end Cgtop
end Lepd
