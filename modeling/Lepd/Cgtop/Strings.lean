import Mathlib.Data.List.Infix
import Lepd.Cgtop.Process

/-!
# The strings of a visit

The strings that the routines build are those of the texts, whatever the memory
holds. A string is built inside of its block if a null byte is found there, and
if `path_kill_slashes` has room.
-/

namespace Lepd
namespace Cgtop

open Foundation
open Foundation.Program
open Ps (Text bytes byte)
open CJson (cString)

/-!
# Fresh blocks
-/

def Clear (env : Env) (k size : Nat) : Prop :=
  exists i, i < size ∧ env.memory k i = 0

instance (env : Env) (k size : Nat) : Decidable (Clear env k size) :=
  inferInstanceAs (Decidable (exists i, i < size ∧ env.memory k i = 0))

/-- How many of the blocks of these sizes hold no null byte, if the first one
has the number `k`. -/
def strayed (env : Env) : Nat -> List Nat -> Nat
  | _, [] => 0
  | k, size :: sizes =>
      (if Clear env k size then 0 else 1) + strayed env (k + 1) sizes

theorem strayed_append (env : Env) (sizes more : List Nat) : forall k,
    strayed env k (sizes ++ more) = strayed env k sizes +
      strayed env (k + sizes.length) more := by
  induction sizes with
  | nil =>
      intro k
      rw [List.nil_append, strayed, Nat.zero_add]
      rfl
  | cons size sizes ih =>
      intro k
      have hnext : k + 1 + sizes.length = k + (size :: sizes).length := by
        rw [List.length_cons]
        omega
      rw [List.cons_append, strayed, strayed, ih, hnext, Nat.add_assoc]

/-- Each of the blocks holds a null byte. -/
def Cleared (env : Env) (k : Nat) (sizes : List Nat) : Prop :=
  forall i size, sizes[i]? = some size -> Clear env (k + i) size

theorem strayed_eq_zero_iff (env : Env) (sizes : List Nat) : forall k,
    strayed env k sizes = 0 <-> Cleared env k sizes := by
  induction sizes with
  | nil =>
      intro k
      exact ⟨fun _ i size hsize => (nomatch hsize), fun _ => rfl⟩
  | cons size sizes ih =>
      intro k
      rw [strayed, Nat.add_eq_zero_iff, ih]
      constructor
      · rintro ⟨hfirst, hrest⟩ i size' hsize
        cases i with
        | zero =>
            cases hsize
            by_contra hclear
            rw [Nat.add_zero] at hclear
            rw [if_neg hclear] at hfirst
            cases hfirst
        | succ i =>
            rw [← Nat.add_assoc, Nat.add_right_comm]
            exact hrest i size' hsize
      · intro h
        refine ⟨if_pos (h 0 size rfl), fun i size' hsize => ?_⟩
        rw [Nat.add_assoc, Nat.add_comm 1]
        exact h (i + 1) size' hsize

theorem zero_mem_fresh_iff (env : Env) (k size : Nat) :
    (0 : UInt8) ∈ (List.range size).map (env.memory k) <-> Clear env k size := by
  rw [List.mem_map]
  simp only [List.mem_range]
  rfl

/-- The state after so many blocks were looked at, and so many strings not built
inside of theirs. -/
def World.drawn (w : World) (blocks strays : Nat) : World :=
  { w with blocks := w.blocks + blocks, strays := w.strays + strays }

theorem World.drawn_drawn (w : World) (blocks strays blocks' strays' : Nat) :
    (w.drawn blocks strays).drawn blocks' strays' = w.drawn (blocks + blocks')
    (strays + strays') := by
  unfold World.drawn
  simp only [Nat.add_assoc]

/-!
# Building a string
-/

theorem cString_of_isString {text block : Text} (h : IsString text block) :
    cString block = text := by
  rcases h with ⟨hnull, rest, rfl⟩
  have hplain : forall c, c ∈ text -> (c != 0) = true := by
    intro c hc
    have hne : c ≠ 0 := fun heq => hnull (heq ▸ hc)
    simpa using hne
  unfold cString
  rw [List.takeWhile_append_of_pos hplain]
  exact List.append_nil text

theorem built_inside {text block : Text} (h : IsString text block) (w : World) :
    built text (some block) w = some (text, w) := by
  unfold built
  rw [Option.map_some, cString_of_isString h, if_pos rfl]

theorem built_outside (text : Text) (w : World) :
    built text none w = some (text, w.drawn 0 1) :=
  rfl

theorem strjoinFresh_eq (env : Env) {x : Text} {ts : List Text}
    (hargs : forall t, t ∈ x :: ts -> (0 : UInt8) ∉ t) (w : World) :
    strjoinFresh env x ts w = some (concatenation (some x) ts,
      w.drawn 1 (strayed env w.blocks [joinedLength (some x) ts + 1])) := by
  have hmem := zero_mem_fresh_iff env w.blocks (joinedLength (some x) ts + 1)
  have hlength :
      ((List.range (joinedLength (some x) ts + 1)).map
    (env.memory w.blocks)).length =
      joinedLength (some x) ts + 1 := by
    rw [List.length_map, List.length_range]
  show built (concatenation (some x) ts) (strjoin (some x) ts
    ((List.range (joinedLength (some x) ts + 1)).map (env.memory w.blocks)))
    (w.drawn 1 0) = _
  by_cases hclear : Clear env w.blocks (joinedLength (some x) ts + 1)
  · rcases strjoin_of_mem hargs hlength (hmem.mpr hclear) with ⟨r, hrun, hr⟩
    rw [hrun, built_inside hr, strayed, if_pos hclear]
    rfl
  · rw [strjoin_of_not_mem _ _ (fun h => hclear (hmem.mp h)), built_outside,
      World.drawn_drawn,
      strayed, if_neg hclear]
    rfl

/-- The string of a path is built inside of its block if there is room for it. -/
theorem killSlashesFresh_eq {path : Text} (h : IsPath path) (w : World) :
    killSlashesFresh path w = some (pathKillSlashes path,
      w.drawn 0 (if [slash, slash] <:+: path ∧ path ≠ [slash, slash] then 0
        else 1)) := by
  have hlength : (List.replicate path.length (0 : UInt8)).length =
      path.length := List.length_replicate
  have hroom := room_iff h hlength
  unfold killSlashesFresh
  by_cases hinside : [slash, slash] <:+: path ∧ path ≠ [slash, slash]
  · rcases killSlashesIn_of_room h (hroom.mpr hinside) with ⟨f, hf, hstring⟩
    have htext : pathKillSlashes path = slash :: keep true path := by
      have hhead := h.head
      cases path with
      | nil => cases hhead
      | cons c path =>
          cases hhead
          exact pathKillSlashes_eq (fun hmem =>
            h.null (List.mem_cons_of_mem slash hmem))
    rw [hf, htext, built_inside hstring, if_pos hinside]
    rfl
  · rw [killSlashesIn_eq_none h (fun hr => hinside (hroom.mp hr)),
      built_outside, if_neg hinside]

/-!
# The paths
-/

def pathParts (controller : Controller) (path suffix : Text) : List Text :=
  [controller.name, [slash], path, [slash], suffix]

def fileSize (controller : Controller) (names : List Text) (suffix : Text) : Nat :=
  joinedLength (some (bytes "/sys/fs/cgroup/"))
    (pathParts controller (pathOf names) suffix) + 1

def subgroupSize (names : List Text) (name : Text) : Nat :=
  joinedLength (some (pathOf names)) [[slash], name] + 1

theorem concatenation_parts (controller : Controller) (path suffix : Text) :
    concatenation (some (bytes "/sys/fs/cgroup/"))
      (pathParts controller path suffix) =
      bytes "/sys/fs/cgroup/" ++
        (controller.name ++ (slash :: (path ++ (slash :: suffix)))) := by
  simp [concatenation, pathParts]

/-- The text of a path does not depend on the block that it is built in. -/
theorem joinPath_text {env : Env} {controller : Controller}
    {path suffix t : Text} {w w' : World}
    (hrun : joinPath env controller path suffix w = some (t, w')) :
    t = cgGetPath controller path suffix := by
  cases hrun
  exact congrArg pathKillSlashes (concatenation_parts controller path suffix)

theorem slash_pathOf (names : List Text) : exists rest, pathOf names = slash ::
    rest := by
  cases names with
  | nil => exact ⟨[], rfl⟩
  | cons name names => exact ⟨name ++ segments names, rfl⟩

section Names

variable {names : List Text}

/-- There is always room for the path of a file: two slashes stand in front of
the group's. -/
theorem joinPath_eq (env : Env) (controller : Controller)
    (h : forall name, name ∈ names -> IsName name)
    {suffix : Text} (hnull : (0 : UInt8) ∉ suffix) (w : World) :
    joinPath env controller (pathOf names) suffix w =
      some (cgGetPath controller (pathOf names) suffix,
      w.drawn 1 (strayed env w.blocks [fileSize controller names suffix])) := by
  have hargs : forall t, t ∈ bytes "/sys/fs/cgroup/" :: pathParts controller
      (pathOf names) suffix ->
      (0 : UInt8) ∉ t := by
    have hname := (isName_controller controller).null
    have hpath := null_not_mem_pathOf h
    intro t ht
    simp only [pathParts, List.mem_cons, List.not_mem_nil, or_false] at ht
    rcases ht with rfl | rfl | rfl | rfl | rfl | rfl
    · decide
    · exact hname
    · decide
    · exact hpath
    · decide
    · exact hnull
  have hjoin := strjoinFresh_eq env hargs w
  rw [concatenation_parts] at hjoin
  have hpath : IsPath (bytes "/sys/fs/cgroup/" ++
      (controller.name ++ (slash :: (pathOf names ++ (slash :: suffix))))) := by
    refine ⟨rfl, ?_⟩
    rw [← concatenation_parts, concatenation]
    intro hmem
    rcases List.mem_append.mp hmem with hmem | hmem
    · exact hargs _ List.mem_cons_self hmem
    · rcases List.mem_flatten.mp hmem with ⟨t, ht, hmem⟩
      exact hargs t (List.mem_cons_of_mem _ ht) hmem
  have hdouble : [slash, slash] <:+: bytes "/sys/fs/cgroup/" ++
      (controller.name ++ (slash :: (pathOf names ++ (slash :: suffix)))) := by
    rcases slash_pathOf names with ⟨rest, hrest⟩
    refine ⟨bytes "/sys/fs/cgroup/" ++ controller.name,
      rest ++ (slash :: suffix), ?_⟩
    rw [hrest]
    simp
  have hlong : bytes "/sys/fs/cgroup/" ++
      (controller.name ++ (slash :: (pathOf names ++ (slash :: suffix)))) ≠
        [slash, slash] := by
    intro heq
    have hlength := congrArg List.length heq
    rw [List.length_append, show (bytes "/sys/fs/cgroup/").length =
      15 from rfl] at hlength
    simp only [List.length_cons, List.length_nil] at hlength
    omega
  have hkill := killSlashesFresh_eq hpath
    (w.drawn 1 (strayed env w.blocks [fileSize controller names suffix]))
  rw [if_pos ⟨hdouble, hlong⟩, World.drawn_drawn] at hkill
  rw [joinPath, bind_apply]
  show (strjoinFresh env (bytes "/sys/fs/cgroup/")
    (pathParts controller (pathOf names) suffix) w).bind _ = _
  rw [hjoin]
  exact hkill

theorem doubles_plain {name : Text} (h : slash ∉ name) (rest : Text) :
    doubles (name ++ rest) = doubles rest := by
  induction name with
  | nil =>
      rfl
  | cons c name ih =>
      have hc : c ≠ slash := fun heq => h (heq ▸ List.mem_cons_self)
      rw [List.cons_append, doubles_cons hc,
        ih (fun hmem => h (List.mem_cons_of_mem c hmem))]

theorem doubles_segments (h : forall name, name ∈ names -> IsName name) :
    doubles (segments names) = 0 := by
  induction names with
  | nil =>
      rfl
  | cons name names ih =>
      have hname := h name List.mem_cons_self
      have hsplit : segments (name :: names) = slash ::
          (name ++ segments names) := rfl
      have hrest := ih (fun n hn => h n (List.mem_cons_of_mem name hn))
      rw [hsplit]
      cases name with
      | nil =>
          exact absurd rfl hname.nonempty
      | cons c name =>
          have hc : c ≠ slash := fun heq => hname.slash (heq ▸ List.mem_cons_self)
          rw [List.cons_append, doubles_slash_cons hc, ← List.cons_append,
            doubles_plain hname.slash, hrest]

theorem joinSubgroup_eq (env : Env) (h : forall name, name ∈ names ->
    IsName name) {name : Text}
    (hname : IsName name) (w : World) :
    joinSubgroup env (pathOf names) name w = some (pathOf (names ++ [name]),
      w.drawn 1 (strayed env w.blocks [subgroupSize names name] + if names =
        [] then 0 else 1)) := by
  have hargs : forall t, t ∈ pathOf names :: [[slash], name] ->
      (0 : UInt8) ∉ t := by
    have hpath := null_not_mem_pathOf h
    intro t ht
    simp only [List.mem_cons, List.not_mem_nil, or_false] at ht
    rcases ht with rfl | rfl | rfl
    · exact hpath
    · decide
    · exact hname.null
  have hconcatenation : concatenation (some (pathOf names)) [[slash], name] =
      pathOf names ++ (slash :: name) := by
    simp [concatenation]
  have hjoin := strjoinFresh_eq env hargs w
  rw [hconcatenation] at hjoin
  have hpath : IsPath (pathOf names ++ (slash :: name)) := by
    rcases slash_pathOf names with ⟨rest, hrest⟩
    refine ⟨by rw [hrest]; rfl, ?_⟩
    rw [List.mem_append, List.mem_cons, not_or, not_or]
    exact ⟨null_not_mem_pathOf h, by decide, hname.null⟩
  have hroom : ([slash, slash] <:+: pathOf names ++ (slash :: name) ∧
      pathOf names ++ (slash :: name) ≠ [slash, slash]) <-> names = [] := by
    cases names with
    | nil =>
        refine ⟨fun _ => rfl, fun _ => ⟨⟨[], name, rfl⟩, ?_⟩⟩
        intro heq
        exact hname.nonempty (List.tail_eq_of_cons_eq (List.tail_eq_of_cons_eq heq))
    | cons first names =>
        have hall : forall n, n ∈ (first :: names) ++ [name] -> IsName n := by
          intro n hn
          rcases List.mem_append.mp hn with hn | hn
          · exact h n hn
          · exact List.mem_singleton.mp hn ▸ hname
        have hsegments : pathOf (first :: names) ++ (slash :: name) =
            segments ((first :: names) ++ [name]) := by
          rw [segments_append]
          show segments (first :: names) ++ (slash :: name) = _
          rw [show segments [name] = slash :: name from List.append_nil _]
        rw [hsegments, ← doubles_pos_iff, doubles_segments hall]
        exact ⟨fun hpos => absurd hpos.left (Nat.lt_irrefl 0), fun hnil =>
          absurd hnil (List.cons_ne_nil first names)⟩
  have hkill := killSlashesFresh_eq hpath
    (w.drawn 1 (strayed env w.blocks [subgroupSize names name]))
  rw [World.drawn_drawn] at hkill
  simp only [hroom] at hkill
  rw [joinSubgroup, bind_apply, hjoin]
  show killSlashesFresh (pathOf names ++ (slash :: name)) _ = _
  rw [← subgroupPath_pathOf h hname]
  exact hkill

theorem groupPath_processesFile (controller : Controller)
    (h : forall name, name ∈ names -> IsName name) :
    groupPath (processesFile controller (pathOf names)) =
      nodePath controller names := by
  have hfinish : (bytes "/cgroup.procs").length = 13 := by decide
  have hstart : (bytes "/sys/fs/cgroup/systemd/").length = 23 := by decide
  have htake := take_processesFile controller h
  have hfile := processesFile_eq controller h
  rw [← List.append_assoc, ← segments_append] at hfile
  have hsize := congrArg List.length hfile
  rw [List.length_append, hfinish] at hsize
  unfold groupPath nodePath
  dsimp only
  by_cases hc : controller = .systemd
  · subst hc
    have hroot : (segments (mount .systemd)).length = 22 := by decide
    have hdrop := drop_processesFile h
    rw [if_pos (htake.mpr rfl), if_pos rfl, hstart, hfinish, hdrop]
    cases names with
    | nil => exact if_pos rfl
    | cons name names =>
        have hother : ¬ segments (name :: names) ++ bytes "/cgroup.procs" =
            bytes "/cgroup.procs" := by
          intro heq
          have hnone : segments (name :: names) = [] :=
            List.append_cancel_right (heq.trans (List.nil_append _).symm)
          cases hnone
        have hbehind : (processesFile .systemd (pathOf (name :: names))).drop 23 =
            (name ++ segments names) ++ bytes "/cgroup.procs" := by
          have hsplit : (processesFile .systemd (pathOf (name :: names))).drop 23 =
              ((processesFile .systemd (pathOf (name :: names))).drop 22).drop
                1 := by
            rw [List.drop_drop]
          rw [hsplit, hdrop]
          rfl
        have hcount : (processesFile .systemd (pathOf (name :: names))).length -
            23 - 13 =
            (name ++ segments names).length := by
          have hsegments : (segments (name :: names)).length =
              (name ++ segments names).length + 1 := rfl
          rw [hsize, segments_append, List.length_append, hroot, hsegments]
          omega
        rw [if_neg hother, hbehind, hcount, List.take_left]
        rfl
  · rw [if_neg (fun heq => hc (htake.mp heq)), if_neg hc, hfile,
      List.length_append, hfinish,
      Nat.add_sub_cancel, List.take_left]

theorem storePathFresh_eq (env : Env) (controller : Controller)
    (h : forall name, name ∈ names -> IsName name)
    (w : World) :
    storePathFresh env (processesFile controller (pathOf names)) w =
      some (nodePath controller names,
      w.drawn 1 (strayed env w.blocks
        [(processesFile controller (pathOf names)).length])) := by
  have hmem := zero_mem_fresh_iff env w.blocks
    (processesFile controller (pathOf names)).length
  have hlength : ((List.range (processesFile controller (pathOf names)).length).map
      (env.memory w.blocks)).length =
        (processesFile controller (pathOf names)).length := by
    rw [List.length_map, List.length_range]
  rw [← groupPath_processesFile controller h]
  show built (groupPath (processesFile controller (pathOf names)))
    (storePath (processesFile controller (pathOf names)) ((List.range
      (processesFile controller (pathOf names)).length).map
        (env.memory w.blocks))) (w.drawn 1 0) = _
  by_cases hclear : Clear env w.blocks
    (processesFile controller (pathOf names)).length
  · rcases storePath_of_mem controller h hlength (hmem.mpr hclear) with
      ⟨g, hrun, hg⟩
    rw [← groupPath_processesFile controller h] at hg
    rw [hrun, built_inside hg, strayed, if_pos hclear]
    rfl
  · rw [storePath_of_not_mem _ (fun hm => hclear (hmem.mp hm)), built_outside,
      World.drawn_drawn,
      strayed, if_neg hclear]
    rfl

end Names

end Cgtop
end Lepd
