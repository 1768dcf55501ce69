import Lepd.Cgtop.KillSlashes

/-!
# Strings in fresh memory

`strjoin` and `process` clear the string that they find in the memory that
`malloc` answered, before they append to it. What was in that memory decides how
far they look for its end. Allocation is taken to succeed.
-/

namespace Lepd
namespace Cgtop

open Foundation
open Ps (Text bytes byte)

def clearString (r : Text) : Option Text := do
  let n <- Block.strlen 0 r 0
  Block.memset r 0 0 n

def strcat (r t : Text) : Option Text :=
  Block.strcat 0 r t

def strncat (r t : Text) (n : Nat) : Option Text :=
  Block.strcat 0 r (t.take n)

/-- `memcmp(start, fs, a) == 0`, which looks at the null byte of `fs` too. -/
def memcmp (start fs : Text) : Option Bool :=
  if start.length <= fs.length + 1 then
    some (decide ((fs ++ [0]).take start.length = start)) else none

/-- `l`, the first argument and those in front of the null pointer taken
together. -/
def joinedLength (x : Option Text) (ts : List Text) : Nat :=
  match x with
  | some x => ts.foldl (fun l t => l + t.length) x.length
  | none => 0

/-- `strjoin`, on the block of `l+1` bytes that `malloc` answers. -/
def strjoin (x : Option Text) (ts : List Text) (r : Text) : Option Text := do
  let r <- clearString r
  match x with
  | some x => do
      let r <- strcat r x
      ts.foldlM strcat r
  | none => store r 0 0

/-- `cg_enumerate_processes`, for a group with a path. -/
def processesFile (controller : Controller) (path : Text) : Text :=
  cgGetPath controller path (bytes "cgroup.procs")

def appendPath (fs : Text) (same : Bool) (path : Text) : Option Text := do
  let start := bytes "/sys/fs/cgroup/systemd/"
  let finish := bytes "/cgroup.procs"
  if same then
    let path <- strncat path [slash] 1
    if fs.drop (start.length - 1) = finish then some path
    else strncat path (fs.drop start.length) (fs.length - start.length -
      finish.length)
  else strncat path fs (fs.length - finish.length)

/-- `g->path`, from the block of `strlen(fs)` bytes that `malloc` answers. -/
def storePath (fs path : Text) : Option Text := do
  let path <- clearString path
  let same <- memcmp (bytes "/sys/fs/cgroup/systemd/") fs
  appendPath fs same path

/-!
# Clearing and appending
-/

section Append

variable {block r text t : Text}

theorem clearString_of_mem (h : (0 : UInt8) ∈ block) : exists r,
    clearString block = some r ∧ IsString [] r ∧ r.length = block.length := by
  have hdrop : (0 : UInt8) ∈ block.drop 0 := h
  rcases Block.drop_eq_string hdrop with ⟨rest, hblock, _⟩
  have hstrlen := Block.strlen_of_mem hdrop
  rw [List.drop_zero] at hblock
  generalize Block.string 0 block 0 = run at hblock hstrlen
  have hfits : 0 + (List.replicate run.length (0 : UInt8)).length <=
      block.length := by
    rw [hblock, List.length_replicate, List.length_append]
    omega
  have hwrite := Block.write_of_le hfits
  have hrest : block.drop (0 + (List.replicate run.length (0 : UInt8)).length) =
      0 :: rest := by
    rw [List.length_replicate, Nat.zero_add, hblock, List.drop_left]
  rw [hrest] at hwrite
  have hlength := Block.write_length hwrite
  refine ⟨_, ?_, ⟨List.not_mem_nil, ?_⟩, hlength⟩
  · unfold clearString
    rw [hstrlen]
    exact hwrite
  · cases run with
    | nil =>
        exact ⟨rest, rfl⟩
    | cons c run =>
        exact ⟨List.replicate run.length 0 ++ 0 :: rest, rfl⟩

theorem clearString_of_not_mem (h : (0 : UInt8) ∉ block) :
    clearString block = none := by
  unfold clearString
  rw [Block.strlen_of_not_mem h]
  rfl

theorem strcat_isString (h : IsString text r) (hnull : (0 : UInt8) ∉ t)
    (hfits : text.length + t.length + 1 <= r.length) : exists r',
      strcat r t = some r' ∧ IsString (text ++ t) r' ∧ r'.length = r.length := by
  rcases h with ⟨htext, rest, hr⟩
  rcases Block.strcat_eq_some t htext hr hfits with ⟨tail, hrun⟩
  have hlength : (text ++ (t ++ 0 :: tail)).length = r.length := by
    have hwrite := hrun
    rw [Block.strcat_of_drop htext hr] at hwrite
    exact Block.write_length hwrite
  refine ⟨_, hrun, ⟨?_, tail, (List.append_assoc text t (0 :: tail)).symm⟩, hlength⟩
  rw [List.mem_append, not_or]
  exact ⟨htext, hnull⟩

theorem strncat_isString (h : IsString text r) (hnull : (0 : UInt8) ∉ t) {n : Nat}
    (hfits : text.length + (t.take n).length + 1 <= r.length) : exists r',
      strncat r t n = some r' ∧ IsString (text ++ t.take n) r' ∧
        r'.length = r.length :=
  strcat_isString h (fun hmem => hnull (List.mem_of_mem_take hmem)) hfits

theorem foldlM_isString {ts : List Text} :
    forall {r text : Text}, IsString text r ->
    (forall t, t ∈ ts -> (0 : UInt8) ∉ t) -> text.length + ts.flatten.length +
    1 <= r.length -> exists r',
      ts.foldlM strcat r = some r' ∧ IsString (text ++ ts.flatten) r' := by
  induction ts with
  | nil =>
      intro r text h _ _
      refine ⟨r, rfl, ?_⟩
      rw [List.flatten_nil, List.append_nil]
      exact h
  | cons t ts ih =>
      intro r text h hnull hfits
      rw [List.flatten_cons, List.length_append] at hfits
      rcases strcat_isString h (hnull t List.mem_cons_self) (by omega) with
        ⟨r', hrun, h', hlength⟩
      have hfits' : (text ++ t).length + ts.flatten.length + 1 <= r'.length := by
        rw [List.length_append, hlength]
        omega
      rcases ih h' (fun u hu => hnull u (List.mem_cons_of_mem t hu)) hfits' with
        ⟨r'', hrest, h''⟩
      refine ⟨r'', ?_, ?_⟩
      · rw [List.foldlM_cons, hrun]
        exact hrest
      · rw [List.flatten_cons, ← List.append_assoc]
        exact h''

end Append

/-!
# Joining
-/

/-- The arguments of `strjoin` one behind the other. -/
def concatenation (x : Option Text) (ts : List Text) : Text :=
  match x with
  | some x => x ++ ts.flatten
  | none => []

theorem foldl_length (ts : List Text) : forall n : Nat,
    ts.foldl (fun l t => l + t.length) n = n + ts.flatten.length := by
  induction ts with
  | nil =>
      intro n
      rfl
  | cons t ts ih =>
      intro n
      rw [List.foldl_cons, ih, List.flatten_cons, List.length_append, Nat.add_assoc]

theorem joinedLength_eq (x : Option Text) (ts : List Text) :
    joinedLength x ts = (concatenation x ts).length := by
  cases x with
  | none =>
      rfl
  | some x =>
      rw [joinedLength, foldl_length, concatenation, List.length_append]

theorem strjoin_of_mem {x : Option Text} {ts : List Text} {block : Text}
    (hargs : forall t, t ∈ x.toList ++ ts -> (0 : UInt8) ∉ t)
    (hblock : block.length = joinedLength x ts + 1)
    (h : (0 : UInt8) ∈ block) : exists r, strjoin x ts block = some r ∧ IsString
    (concatenation x ts) r := by
  rcases clearString_of_mem h with ⟨r, hclear, hr, hlength⟩
  rw [joinedLength_eq] at hblock
  unfold strjoin
  rw [hclear]
  cases x with
  | none =>
      rcases hr with ⟨_, rest, rfl⟩
      exact ⟨0 :: rest, store_cons [] 0 rest 0, List.not_mem_nil, rest, rfl⟩
  | some x =>
      rw [concatenation, List.length_append] at hblock
      have hx : (0 : UInt8) ∉ x :=
        hargs x (List.mem_append_left ts List.mem_cons_self)
      have hfirst : ([] : Text).length + x.length + 1 <= r.length := by
        rw [List.length_nil]
        omega
      rcases strcat_isString hr hx hfirst with ⟨r', hrun, hr', hlength'⟩
      rw [List.nil_append] at hr'
      have hrest : x.length + ts.flatten.length + 1 <= r'.length := by
        omega
      rcases foldlM_isString hr' (fun t ht =>
        hargs t (List.mem_append_right _ ht)) hrest with ⟨r'', hmore, hr''⟩
      refine ⟨r'', ?_, hr''⟩
      show (strcat r x).bind (fun r => ts.foldlM strcat r) = some r''
      rw [hrun]
      exact hmore

theorem strjoin_of_not_mem (x : Option Text) (ts : List Text) {block : Text}
    (h : (0 : UInt8) ∉ block) :
    strjoin x ts block = none := by
  unfold strjoin
  rw [clearString_of_not_mem h]
  rfl

/-!
# The path of a node
-/

/-- The path under the systemd root, or the directory of the group. -/
def nodePath (controller : Controller) (names : List Text) : Text :=
  if controller = .systemd then pathOf names
  else segments (mount controller ++ names)

section Node

variable {names : List Text}

theorem processesFile_eq (controller : Controller)
    (h : forall name, name ∈ names -> IsName name) :
    processesFile controller (pathOf names) =
      segments (mount controller) ++ (segments names ++ bytes "/cgroup.procs") := by
  have hprocs : IsName (bytes "cgroup.procs") := ⟨by decide, by decide, by decide⟩
  have hsingle : segments [bytes "cgroup.procs"] = bytes "/cgroup.procs" := by
    decide
  rw [processesFile, cgGetPath_file controller h hprocs, segments_append,
    segments_append, hsingle]

theorem null_not_mem_processesFile (controller : Controller)
    (h : forall name, name ∈ names -> IsName name) :
    (0 : UInt8) ∉ processesFile controller (pathOf names) := by
  rw [processesFile_eq controller h, List.mem_append, List.mem_append, not_or,
    not_or]
  exact ⟨null_not_mem_segments (isName_mount controller),
    null_not_mem_segments h, by decide⟩

theorem memcmp_of_le {start fs : Text} (hle : start.length <= fs.length) :
    memcmp start fs = some (decide (fs.take start.length = start)) := by
  unfold memcmp
  rw [if_pos (Nat.le_succ_of_le hle), List.take_append_of_le_length hle]

theorem segments_mount_length (controller : Controller) :
    20 <= (segments (mount controller)).length := by
  cases controller with
  | systemd => decide
  | cpuacct => decide
  | memory => decide
  | blkio => decide

/-- The first sixteen bytes tell the systemd root from the other directories. -/
theorem take_mount {controller : Controller} (h : controller ≠ .systemd) :
    (segments (mount controller)).take 16 ≠
    (bytes "/sys/fs/cgroup/systemd/").take 16 := by
  cases controller with
  | systemd => exact absurd rfl h
  | cpuacct => decide
  | memory => decide
  | blkio => decide

theorem processesFile_length_le (controller : Controller)
    (h : forall name, name ∈ names -> IsName name) :
    (bytes "/sys/fs/cgroup/systemd/").length <=
    (processesFile controller (pathOf names)).length := by
  have hmount := segments_mount_length controller
  have hstart : (bytes "/sys/fs/cgroup/systemd/").length = 23 := by decide
  have hfinish : (bytes "/cgroup.procs").length = 13 := by decide
  rw [processesFile_eq controller h, List.length_append, List.length_append,
    hstart, hfinish]
  omega

theorem take_processesFile (controller : Controller)
    (h : forall name, name ∈ names -> IsName name) :
    (processesFile controller (pathOf names)).take
    (bytes "/sys/fs/cgroup/systemd/").length =
      bytes "/sys/fs/cgroup/systemd/" <-> controller = .systemd := by
  have hmount := segments_mount_length controller
  have hstart : (bytes "/sys/fs/cgroup/systemd/").length = 23 := by decide
  rw [processesFile_eq controller h, hstart]
  constructor
  · intro heq
    by_contra hother
    have htake := congrArg (List.take 16) heq
    rw [List.take_take, List.take_append_of_le_length (by omega)] at htake
    exact take_mount hother htake
  · rintro rfl
    have hroot : (segments (mount .systemd)).length = 22 := by decide
    have hslash : (segments names ++ bytes "/cgroup.procs").take 1 = [slash] := by
      cases names with
      | nil => decide
      | cons name names => rfl
    rw [List.take_append, List.take_of_length_le (by omega), hroot, hslash]
    decide

theorem memcmp_processesFile (controller : Controller)
    (h : forall name, name ∈ names -> IsName name) :
    memcmp (bytes "/sys/fs/cgroup/systemd/")
      (processesFile controller (pathOf names)) =
      some (decide (controller = .systemd)) := by
  rw [memcmp_of_le (processesFile_length_le controller h)]
  congr 1
  exact decide_eq_decide.mpr (take_processesFile controller h)

theorem drop_processesFile (h : forall name, name ∈ names -> IsName name) :
    (processesFile .systemd (pathOf names)).drop 22 = segments names ++
    bytes "/cgroup.procs" := by
  have hroot : (segments (mount .systemd)).length = 22 := by decide
  rw [processesFile_eq .systemd h, ← hroot, List.drop_left]

theorem appendPath_systemd {g : Text}
    (h : forall name, name ∈ names -> IsName name) (hg : IsString [] g)
    (hlength : g.length = (processesFile .systemd (pathOf names)).length) :
    exists g',
      appendPath (processesFile .systemd (pathOf names)) true g = some g' ∧
        IsString (pathOf names) g' := by
  have hstart : (bytes "/sys/fs/cgroup/systemd/").length = 23 := by decide
  have hfinish : (bytes "/cgroup.procs").length = 13 := by decide
  have hroot : (segments (mount .systemd)).length = 22 := by decide
  have hsize := congrArg List.length (processesFile_eq .systemd h)
  rw [List.length_append, List.length_append, hfinish, hroot] at hsize
  have hdrop := drop_processesFile h
  have hnull := null_not_mem_processesFile .systemd h
  generalize processesFile .systemd (pathOf names) =
    fs at hlength hsize hdrop hnull ⊢
  have hplain : (0 : UInt8) ∉ [slash] := by decide
  have hfirst : ([] : Text).length + ([slash].take 1).length + 1 <= g.length := by
    show 2 <= g.length
    omega
  rcases strncat_isString hg hplain hfirst with ⟨g', hrun, hg', hlength'⟩
  have hmore : appendPath fs true g = if fs.drop 22 = bytes "/cgroup.procs" then
      some g'
      else strncat g' (fs.drop 23) (fs.length - 23 - 13) := by
    show (strncat g [slash] 1).bind _ = _
    rw [hrun]
    rfl
  rw [hmore, hdrop]
  cases names with
  | nil =>
      exact ⟨g', if_pos rfl, hg'⟩
  | cons name names =>
      have hsegments : segments (name :: names) = slash ::
          (name ++ segments names) := rfl
      have hpath : pathOf (name :: names) = slash :: (name ++ segments names) :=
        if_neg (List.cons_ne_nil _ _)
      rw [hsegments] at hsize hdrop
      rw [List.length_cons] at hsize
      have hother : ¬ segments (name :: names) ++ bytes "/cgroup.procs" =
          bytes "/cgroup.procs" := by
        intro heq
        have hnone : segments (name :: names) = [] :=
          List.append_cancel_right (heq.trans (List.nil_append _).symm)
        cases hnone
      have hbehind : fs.drop 23 = (name ++ segments names) ++
          bytes "/cgroup.procs" := by
        have hsplit : fs.drop 23 = (fs.drop 22).drop 1 := by rw [List.drop_drop]
        rw [hsplit, hdrop]
        rfl
      have hcount : fs.length - 23 - 13 = (name ++ segments names).length := by
        omega
      have hfits : ([] ++ [slash].take 1).length +
          ((fs.drop 23).take (fs.length - 23 - 13)).length + 1 <= g'.length := by
        rw [hbehind, hcount, List.take_left]
        show 1 + (name ++ segments names).length + 1 <= g'.length
        omega
      rcases strncat_isString hg' (fun hmem =>
        hnull (List.mem_of_mem_drop hmem)) hfits with ⟨g'', hrest, hg'', _⟩
      rw [hbehind, hcount, List.take_left] at hg''
      rw [if_neg hother, hpath]
      exact ⟨g'', hrest, hg''⟩

theorem appendPath_other {controller : Controller} {g : Text}
    (h : forall name, name ∈ names -> IsName name)
    (hg : IsString [] g)
    (hlength : g.length = (processesFile controller (pathOf names)).length) :
    exists g',
      appendPath (processesFile controller (pathOf names)) false g = some g' ∧
        IsString (segments (mount controller ++ names)) g' := by
  have hfinish : (bytes "/cgroup.procs").length = 13 := by decide
  have hfile := processesFile_eq controller h
  rw [← List.append_assoc, ← segments_append] at hfile
  have hnull := null_not_mem_processesFile controller h
  rw [hfile] at hlength hnull ⊢
  have hcount : (segments (mount controller ++ names) ++
    bytes "/cgroup.procs").length - (bytes "/cgroup.procs").length =
      (segments (mount controller ++ names)).length := by
    rw [List.length_append, Nat.add_sub_cancel]
  rw [List.length_append, hfinish] at hlength
  have hfits : ([] : Text).length +
      ((segments (mount controller ++ names) ++ bytes "/cgroup.procs").take
      (segments (mount controller ++ names)).length).length + 1 <= g.length := by
    rw [List.take_left, List.length_nil]
    omega
  rcases strncat_isString hg hnull hfits with ⟨g', hrun, hg', _⟩
  rw [List.take_left] at hg'
  refine ⟨g', ?_, hg'⟩
  rw [← hcount] at hrun
  exact hrun

theorem storePath_of_mem {block : Text} (controller : Controller)
    (h : forall name, name ∈ names -> IsName name)
    (hblock : block.length = (processesFile controller (pathOf names)).length)
    (hmem : (0 : UInt8) ∈ block) : exists g,
      storePath (processesFile controller (pathOf names)) block = some g ∧
        IsString (nodePath controller names) g := by
  rcases clearString_of_mem hmem with ⟨g, hclear, hg, hlength⟩
  have hrun : storePath (processesFile controller (pathOf names)) block =
      appendPath (processesFile controller (pathOf names))
        (decide (controller = .systemd)) g := by
    unfold storePath
    rw [hclear, memcmp_processesFile controller h]
    rfl
  rw [hrun]
  by_cases hc : controller = .systemd
  · subst hc
    exact appendPath_systemd h hg (hlength.trans hblock)
  · rw [decide_eq_false hc, nodePath, if_neg hc]
    exact appendPath_other h hg (hlength.trans hblock)

theorem storePath_of_not_mem (fs : Text) {block : Text}
    (h : (0 : UInt8) ∉ block) : storePath fs block = none := by
  unfold storePath
  rw [clearString_of_not_mem h]
  rfl

end Node

/--
`strjoin` answers its arguments one behind the other, and `process` stores the
path of the group, both inside of the memory they allocate, if and only if there
is a null byte in that memory.
-/
theorem fresh_strings_iff {x : Option Text} {ts : List Text} {block : Text}
    {controller : Controller}
    {names : List Text} {pathBlock : Text}
    (hargs : forall t, t ∈ x.toList ++ ts -> (0 : UInt8) ∉ t)
    (hblock : block.length = joinedLength x ts + 1)
    (hnames : forall name, name ∈ names -> IsName name)
    (hpath : pathBlock.length = (processesFile controller (pathOf names)).length) :
    ((exists r, strjoin x ts block = some r ∧
    IsString (concatenation x ts) r) <-> (0 : UInt8) ∈ block) ∧
    ((exists g, storePath (processesFile controller (pathOf names)) pathBlock =
    some g ∧
      IsString (nodePath controller names) g) <-> (0 : UInt8) ∈ pathBlock) := by
  constructor
  · constructor
    · rintro ⟨r, hrun, _⟩
      by_contra hnone
      rw [strjoin_of_not_mem x ts hnone] at hrun
      cases hrun
    · exact strjoin_of_mem hargs hblock
  · constructor
    · rintro ⟨g, hrun, _⟩
      by_contra hnone
      rw [storePath_of_not_mem _ hnone] at hrun
      cases hrun
    · exact storePath_of_mem controller hnames hpath

/-- In the memory for `strjoin` a null byte is found, in the one for the path
there is none. -/
theorem fresh_strings_differ :
    (exists r, strjoin (some (bytes "a")) [bytes "b"] [7, 7, 0] = some r ∧
    IsString (bytes "ab") r) ∧
      ¬ exists g, storePath (processesFile .blkio (pathOf [bytes "c"]))
        (List.replicate 35 7) = some g ∧
        IsString (nodePath .blkio [bytes "c"]) g := by
  have hargs : forall t, t ∈ (some (bytes "a")).toList ++ [bytes "b"] ->
      (0 : UInt8) ∉ t := by decide
  have hnames : forall name, name ∈ [bytes "c"] -> IsName name := by
    intro name hname
    rw [List.mem_singleton.mp hname]
    exact ⟨by decide, by decide, by decide⟩
  have hpath : (List.replicate 35 (7 : UInt8)).length =
      (processesFile .blkio (pathOf [bytes "c"])).length := by decide
  have hblock : ([7, 7, 0] : Text).length = joinedLength (some (bytes "a"))
      [bytes "b"] + 1 := by decide
  have hboth := fresh_strings_iff hargs hblock hnames hpath
  exact ⟨hboth.left.mpr (by decide), fun hsome =>
    absurd (hboth.right.mp hsome) (by decide)⟩

/-- Memory without a null byte, in which the end of the string is looked for
behind the block. -/
theorem strjoin_overrun : ([7, 7, 7] : Text).length = joinedLength
    (some (bytes "a")) [bytes "b"] + 1 ∧
    strjoin (some (bytes "a")) [bytes "b"] [7, 7, 7] = none :=
  ⟨by decide, by decide⟩

end Cgtop
end Lepd
