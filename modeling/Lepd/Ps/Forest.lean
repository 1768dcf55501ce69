import Lepd.Foundation.Block
import Lepd.Foundation.Forest
import Lepd.Foundation.Programs
import Lepd.Ps.Processes

/-!
# The forest of processes

`show_tree` shows a process and, behind it, its children, each with all of
theirs. What is put in front of the commands is kept in one buffer that all
calls write to.
-/

namespace Lepd
namespace Ps

open Foundation

/-!
# The functions
-/

/-- `sizeof forest_prefix` -/
def forestPrefixSize : Nat := 4 * 32 * 1024 + 100

/-- The buffer, and the lines: what the buffer holds when a process is shown,
and the process. -/
structure Screen where
  forestPrefix : Text
  lines : List (Text × ProcT)

def branch (haveSibling : Bool) : UInt8 :=
  if haveSibling then byte '+' else byte 'L'

def bar (haveSibling : Bool) : UInt8 :=
  if haveSibling then byte '|' else byte ' '

def storePrefix (i : Nat) (c : UInt8) : Program Screen Unit :=
  fun s => (Block.write s.forestPrefix i [c]).map (fun mem =>
    ((), { s with forestPrefix := mem }))

def putPrefix (level : Nat) (c : UInt8) : Program Screen Unit :=
  if level = 0 then pure () else do
    storePrefix (level - 1) c
    storePrefix level 0

/-- A string without its null byte is looked for, and is not there if there is
no null byte. -/
def showOneProc (p : ProcT) : Program Screen Unit :=
  fun s => (Block.strlen 0 s.forestPrefix 0).map
    (fun n => ((), { s with lines := s.lines ++ [(s.forestPrefix.take n, p)] }))

def moreChildren (selfPid : Nat) : List ProcT -> Bool
  | [] => false
  | next :: _ => decide (next.ppid = selfPid)

def showChildren (selfPid : Nat) (visit : Nat -> Bool -> Program Screen Unit) :
    List ProcT -> Nat -> Program Screen Unit
  | [], _ => pure ()
  | _ :: rest, i => do
      visit i (moreChildren selfPid rest)
      if moreChildren selfPid rest then showChildren selfPid visit rest (i + 1)
      else pure ()

def showTree (forestType : UInt8) (processes : List ProcT) :
    Nat -> Nat -> Nat -> Bool -> Program Screen Unit
  | 0, _, _, _ => StateT.lift none
  | fuel + 1, self, level, haveSibling => do
      putPrefix level (branch haveSibling)
      let p <- StateT.lift processes[self]?
      showOneProc p
      match processes.findIdx? (fun q => q.ppid = p.tid) with
      | none => pure ()
      | some i => do
          putPrefix level (bar haveSibling)
          let below := if p.tid = 1 ∧ forestType ≠ byte 'u' then level
            else level + 1
          showChildren p.tid (fun i more =>
            showTree forestType processes fuel i below more)
            (processes.drop i) i
          storePrefix level 0

/-- Cover the first processes of the array, the last one first, looking for
trees. -/
def showForest (forestType : UInt8) (processes : List ProcT) (fuel : Nat) :
    Nat -> Program Screen Unit
  | 0 => pure ()
  | i + 1 => do
      let p <- StateT.lift processes[i]?
      if processes.any (fun q => q.tid = p.ppid) then pure ()
      else showTree forestType processes fuel i 0 false
      showForest forestType processes fuel i

/-- Show pre-sorted array of process pointers; `tasks` are the threads of a
process. -/
def showProcArray (threadFlags : UInt32) (tasks : ProcT -> List ProcT) :
    List ProcT -> Program Screen Unit
  | [] => pure ()
  | p :: ps => do
      if has threadFlags tfShowProc then showOneProc p
      if has threadFlags tfShowTask then (tasks p).forM showOneProc
      showProcArray threadFlags tasks ps

/-- Sorted or forest: the processes found that were wanted. -/
def fancySpew (ctx : Context) (comparisons : Comparisons ctx.tables)
    (qsort : Qsort ProcT)
    (tasks : ProcT -> List ProcT) (found : List ProcT) (fuel : Nat)
    (screen : Screen) : Run (Option Screen) := do
  if found = [] then return some screen
  let g <- globals
  if g.forestType ≠ 0 then prepForestSort ctx
  let g <- globals
  let processes := qsort.sort (compareTwoProcs comparisons.sr g.sortList) found
  let shown := if g.forestType ≠ 0 then
    showForest g.forestType processes fuel processes.length
    else showProcArray g.threadFlags tasks processes
  return (shown screen).map Prod.snd

/-!
# What is to be shown

The path of a process tells of itself, and then of those above it, whether a
sibling is still to come.
-/

def prefixText : List Bool -> Text
  | [] => []
  | haveSibling :: above => (above.map bar).reverse ++ [branch haveSibling]

/-- The children of process 1 stand in its place, unless the forest is of the
unix kind. -/
def flat (forestType : UInt8) (p : ProcT) : Bool :=
  decide (p.tid = 1 ∧ forestType ≠ byte 'u')

def childPath (inPlace : Bool) (path : List Bool) (more : Bool) : List Bool :=
  if inPlace then
    match path with
    | [] => []
    | _ :: above => more :: above
  else more :: path

mutual

/-- The lines of a tree. -/
def treeLines (forestType : UInt8) : RoseTree ProcT -> List Bool ->
    List (Text × ProcT)
  | .node p ts, path =>
      (prefixText path, p) :: childrenLines forestType (flat forestType p) path ts

def childrenLines (forestType : UInt8) (inPlace : Bool) (path : List Bool) :
    List (RoseTree ProcT) -> List (Text × ProcT)
  | [] => []
  | t :: ts =>
      treeLines forestType t (childPath inPlace path (!ts.isEmpty)) ++
      childrenLines forestType inPlace path ts

end

def family (processes : List ProcT)
    (distinct : (processes.map ProcT.tid).Nodup) : Family ProcT Nat where
  id := ProcT.tid
  parent := ProcT.ppid
  members := processes
  distinct := distinct

/-!
# The buffer
-/

def Ready : List Bool -> Text -> Prop
  | [], mem => [0] <+: mem
  | _ :: above, mem => (above.map bar).reverse <+: mem

theorem bar_ne_zero (haveSibling : Bool) : bar haveSibling ≠ 0 := by
  cases haveSibling <;> decide

theorem branch_ne_zero (haveSibling : Bool) : branch haveSibling ≠ 0 := by
  cases haveSibling <;> decide

theorem not_mem_prefixText (path : List Bool) : (0 : UInt8) ∉ prefixText path := by
  cases path with
  | nil => exact List.not_mem_nil
  | cons haveSibling above =>
      intro hmem
      rcases List.mem_append.mp hmem with hmem | hmem
      · rcases List.mem_map.mp (List.mem_reverse.mp hmem) with ⟨b, _, hb⟩
        exact bar_ne_zero b hb
      · exact branch_ne_zero haveSibling (List.mem_singleton.mp hmem).symm

theorem length_bars (path : List Bool) :
    (path.map bar).reverse.length = path.length := by
  rw [List.length_reverse, List.length_map]

theorem storePrefix_apply {mem : Text} {lines : List (Text × ProcT)} {i : Nat}
    (h : i < mem.length) (c : UInt8) :
    storePrefix i c ⟨mem, lines⟩ = some ((), ⟨mem.set i c, lines⟩) := by
  unfold storePrefix
  rw [Block.write_single h]
  rfl

/-- Behind what is in the buffer come one more character and a null byte. -/
theorem putPrefix_apply {above : List Bool} {mem : Text}
    (lines : List (Text × ProcT))
    (h : (above.map bar).reverse <+: mem)
    (hroom : above.length + 1 < mem.length) (c : UInt8) :
    exists rest, putPrefix (above.length + 1) c ⟨mem, lines⟩ =
        some ((), ⟨(above.map bar).reverse ++ c :: 0 :: rest, lines⟩) ∧
      ((above.map bar).reverse ++ c :: 0 :: rest).length = mem.length := by
  rcases h with ⟨behind, rfl⟩
  rw [List.length_append, length_bars] at hroom
  match behind, hroom with
  | [], hroom => exact absurd hroom (by simp)
  | [_], hroom => exact absurd hroom (by simp)
  | x :: y :: rest, _ =>
      refine ⟨rest, ?_, by simp only [List.length_append, List.length_cons]⟩
      unfold putPrefix
      rw [if_neg (Nat.succ_ne_zero _), Nat.add_sub_cancel, Program.bind_apply,
        storePrefix_apply (by simp)]
      have hfirst : ((above.map bar).reverse ++ x :: y :: rest).set above.length c =
          (above.map bar).reverse ++ c :: y :: rest := by
        rw [List.set_append_right _ _ (Nat.le_of_eq (length_bars above)),
          length_bars, Nat.sub_self]
        rfl
      have hsecond : ((above.map bar).reverse ++ c :: y :: rest).set
          (above.length + 1) 0 =
          (above.map bar).reverse ++ c :: 0 :: rest := by
        rw [List.set_append_right _ _
          (by rw [length_bars]; exact Nat.le_succ _), length_bars,
          Nat.add_sub_cancel_left]
        rfl
      show storePrefix (above.length + 1) 0 ⟨_, lines⟩ = _
      rw [hfirst, storePrefix_apply (by simp), hsecond]

theorem showOneProc_apply {mem rest : Text} {path : List Bool}
    {lines : List (Text × ProcT)}
    (h : mem = prefixText path ++ 0 :: rest) (p : ProcT) :
    showOneProc p ⟨mem, lines⟩ =
      some ((), ⟨mem, lines ++ [(prefixText path, p)]⟩) := by
  unfold showOneProc
  have hlength : Block.strlen 0 mem 0 = some (prefixText path).length :=
    Block.strlen_of_drop (not_mem_prefixText path) h
  rw [hlength]
  show some ((), Screen.mk mem (lines ++ [(mem.take _, p)])) = _
  rw [h, List.take_left]

theorem showSelf_apply {path : List Bool} {haveSibling : Bool}
    (hhead : forall b, path.head? = some b -> haveSibling = b)
    {mem : Text} (lines : List (Text × ProcT)) (hready : Ready path mem)
    (hroom : path.length < mem.length) (p : ProcT) :
    exists mem', (putPrefix path.length (branch haveSibling) >>=
      fun _ => showOneProc p) ⟨mem, lines⟩ =
        some ((), ⟨mem', lines ++ [(prefixText path, p)]⟩) ∧ Ready path mem' ∧
          mem'.length = mem.length := by
  cases path with
  | nil =>
      rcases hready with ⟨rest, rfl⟩
      refine ⟨[0] ++ rest, ?_, ⟨rest, rfl⟩, rfl⟩
      have hmem : [0] ++ rest = prefixText [] ++ 0 :: rest := rfl
      exact showOneProc_apply hmem p
  | cons b above =>
      rw [hhead b rfl]
      rcases putPrefix_apply lines hready hroom (branch b) with
        ⟨rest, hput, hlength⟩
      refine ⟨_, ?_, List.prefix_append _ _, hlength⟩
      rw [Program.bind_apply, List.length_cons, hput]
      have hmem : (above.map bar).reverse ++ branch b :: 0 :: rest =
          prefixText (b :: above) ++ 0 :: rest := by
        unfold prefixText
        rw [List.append_assoc]
        rfl
      exact showOneProc_apply hmem p

theorem ready_childPath {path : List Bool} {mem : Text}
    (h : (path.map bar).reverse <+: mem) (hready : Ready path mem)
    (inPlace more : Bool) : Ready (childPath inPlace path more) mem := by
  unfold childPath
  cases inPlace with
  | false => exact h
  | true =>
      cases path with
      | nil => exact hready
      | cons b above => exact hready

theorem ready_siblings {inPlace b b' : Bool} {path : List Bool} {mem : Text}
    (h : Ready (childPath inPlace path b) mem) :
    Ready (childPath inPlace path b') mem := by
  unfold childPath at h ⊢
  cases inPlace with
  | false => exact h
  | true =>
      cases path with
      | nil => exact h
      | cons _ above => exact h

theorem length_childPath (inPlace : Bool) (path : List Bool) (b : Bool) :
    (childPath inPlace path b).length = if inPlace then path.length
    else path.length + 1 := by
  unfold childPath
  cases inPlace with
  | false => rfl
  | true =>
      cases path with
      | nil => rfl
      | cons _ above => rfl

theorem childPath_head {inPlace more : Bool} {path : List Bool} (b : Bool)
    (h : (childPath inPlace path more).head? = some b) : more = b := by
  unfold childPath at h
  cases inPlace with
  | false => exact Option.some.inj h
  | true =>
      cases path with
      | nil => cases h
      | cons _ above => exact Option.some.inj h

theorem putBar_apply {path : List Bool} {haveSibling : Bool}
    (hhead : forall b, path.head? = some b -> haveSibling = b)
    {mem : Text} (lines : List (Text × ProcT)) (hready : Ready path mem)
    (hroom : path.length < mem.length) :
    exists mem', putPrefix path.length (bar haveSibling) ⟨mem, lines⟩ =
      some ((), ⟨mem', lines⟩) ∧
      (forall inPlace more, Ready (childPath inPlace path more) mem') ∧
        mem'.length = mem.length := by
  cases path with
  | nil => exact ⟨mem, rfl, ready_childPath (List.nil_prefix) hready, rfl⟩
  | cons b above =>
      rw [hhead b rfl]
      rcases putPrefix_apply lines hready hroom (bar b) with ⟨rest, hput, hlength⟩
      refine ⟨_, hput, ready_childPath ?_ (List.prefix_append _ _), hlength⟩
      rw [List.map_cons, List.reverse_cons]
      exact ⟨0 :: rest, by rw [List.append_assoc]; rfl⟩

/-- The last part of `show_tree`: the prefix that the children added is chopped. -/
theorem chop_apply {path : List Bool} {inPlace b : Bool} {mem : Text}
    (lines : List (Text × ProcT))
    (h : Ready (childPath inPlace path b) mem) (hroom : path.length < mem.length) :
    storePrefix path.length 0 ⟨mem, lines⟩ =
      some ((), ⟨mem.set path.length 0, lines⟩) ∧
      Ready path (mem.set path.length 0) := by
  refine ⟨storePrefix_apply hroom 0, ?_⟩
  cases path with
  | nil =>
      cases mem with
      | nil => cases hroom
      | cons x mem => exact ⟨mem, rfl⟩
  | cons c above =>
      have habove : (above.map bar).reverse <+: mem := by
        unfold childPath at h
        cases inPlace with
        | false =>
            refine List.IsPrefix.trans ?_ h
            rw [List.map_cons, List.reverse_cons]
            exact List.prefix_append _ _
        | true => exact h
      rcases habove with ⟨behind, rfl⟩
      refine ⟨behind.set 1 0, ?_⟩
      rw [List.set_append_right _ _ (by rw [length_bars]; exact Nat.le_succ _),
        length_bars, List.length_cons,
        Nat.add_sub_cancel_left]

/-!
# Trees
-/

def Shows (program : Program Screen Unit) (path : List Bool) (size : Nat)
    (shown : List (Text × ProcT)) : Prop :=
  forall mem lines, Ready path mem -> mem.length = size ->
    exists mem', program ⟨mem, lines⟩ = some ((), ⟨mem', lines ++ shown⟩) ∧
      Ready path mem' ∧ mem'.length = size

section Trees

variable {forestType : UInt8} {processes : List ProcT} {distinct :
  (processes.map ProcT.tid).Nodup}

theorem showChildren_shows {selfPid : Nat} (size : Nat) (inPlace : Bool)
    (path : List Bool)
    {visit : Nat -> Bool -> Program Screen Unit} {rest : List ProcT}
    (hrest : forall q, q ∈ rest -> q.ppid ≠ selfPid)
    (ts : List (RoseTree ProcT)) :
    forall (i : Nat) (mem : Text) (lines : List (Text × ProcT)), ts ≠ [] ->
      processes.drop i = ts.map RoseTree.root ++ rest ->
        (forall t, t ∈ ts -> t.root.ppid = selfPid) ->
      (forall t, t ∈ ts -> forall j more, processes[j]? = some t.root ->
        Shows (visit j more) (childPath inPlace path more) size
          (treeLines forestType t (childPath inPlace path more))) ->
      (forall b, Ready (childPath inPlace path b) mem) -> mem.length = size ->
      exists mem', showChildren selfPid visit (ts.map RoseTree.root ++ rest) i
        ⟨mem, lines⟩ =
          some ((), ⟨mem', lines ++ childrenLines forestType inPlace path ts⟩) ∧
        Ready (childPath inPlace path false) mem' ∧ mem'.length = size := by
  induction ts with
  | nil =>
      intro i mem lines hne
      exact absurd rfl hne
  | cons t ts ih =>
      intro i mem lines _ hdrop hparent hvisit hready hsize
      have ht : processes[i]? = some t.root := by
        rw [← List.head?_drop, hdrop]
        rfl
      have hmore : moreChildren selfPid (ts.map RoseTree.root ++ rest) =
          !ts.isEmpty := by
        cases ts with
        | nil =>
            cases rest with
            | nil => rfl
            | cons q rest => exact decide_eq_false (hrest q List.mem_cons_self)
        | cons t' ts =>
            exact decide_eq_true
              (hparent t' (List.mem_cons_of_mem t List.mem_cons_self))
      rcases hvisit t List.mem_cons_self i (!ts.isEmpty) ht mem lines
        (hready _) hsize with ⟨mem', hshown, hready', hsize'⟩
      unfold childrenLines
      rw [List.map_cons, List.cons_append, showChildren, hmore,
        Program.bind_apply, hshown,
        Option.bind_some]
      cases ts with
      | nil =>
          refine ⟨mem', ?_, ready_siblings hready', hsize'⟩
          rw [if_neg (by decide)]
          unfold childrenLines
          rw [List.append_nil]
          rfl
      | cons t' ts =>
          rw [if_pos (show (!(t' :: ts).isEmpty) = true from rfl)]
          have hdrop' : processes.drop (i + 1) = (t' :: ts).map RoseTree.root ++
              rest := by
            rw [← List.drop_drop, hdrop]
            rfl
          rcases ih (i + 1) mem' _ (List.cons_ne_nil t' ts) hdrop'
            (fun u hu => hparent u (List.mem_cons_of_mem t hu)) (fun u hu =>
              hvisit u (List.mem_cons_of_mem t hu))
            (fun b => ready_siblings hready') hsize' with
              ⟨mem'', hrest', hready'', hsize''⟩
          refine ⟨mem'', ?_, hready'', hsize''⟩
          rw [← List.append_assoc]
          exact hrest'

theorem showTree_shows
    (hsorted : processes.Pairwise (fun a b => a.ppid <= b.ppid)) (size : Nat)
    (t : RoseTree ProcT) :
    forall (fuel self : Nat) (path : List Bool) (haveSibling : Bool),
      (family processes distinct).Whole t ->
      processes[self]? = some t.root -> t.height <= fuel ->
        path.length + t.height <= size ->
      (forall b, path.head? = some b -> haveSibling = b) ->
      Shows (showTree forestType processes fuel self path.length haveSibling)
        path size (treeLines forestType t path) := by
  induction t using RoseTree.induct with
  | node p ts ih =>
      intro fuel self path haveSibling hwhole hself hfuel hroom hhead mem lines
        hready hsize
      have hchildren : ts.map RoseTree.root =
          processes.filter (fun q => q.ppid = p.tid) := hwhole.children.left
      have hheight : (RoseTree.node p ts).height = RoseTree.heightAll ts + 1 := rfl
      rw [hheight] at hfuel hroom
      cases fuel with
      | zero => exact absurd hfuel (Nat.not_succ_le_zero _)
      | succ fuel =>
          have hlevel : path.length < mem.length := by omega
          rcases showSelf_apply hhead lines hready hlevel p with
            ⟨mem₁, hshow, hready₁, hsize₁⟩
          have hself' : processes[self]? = some p := hself
          have hrun : showTree forestType processes (fuel + 1) self path.length
              haveSibling ⟨mem, lines⟩ =
              (match processes.findIdx? (fun q => q.ppid = p.tid) with
                | none => pure ()
                | some i => do
                    putPrefix path.length (bar haveSibling)
                    let below := if p.tid = 1 ∧ forestType ≠ byte 'u' then
                      path.length else path.length + 1
                    showChildren p.tid (fun i more =>
                      showTree forestType processes fuel i below more)
                      (processes.drop i) i
                    storePrefix path.length 0 : Program Screen Unit)
                      ⟨mem₁, lines ++ [(prefixText path, p)]⟩ := by
            rw [showTree]
            rw [Program.bind_apply] at hshow ⊢
            rcases Option.bind_eq_some_iff.mp hshow with ⟨⟨u, s₁⟩, hput, hshown⟩
            rw [hput]
            show ((StateT.lift processes[self]? : Program Screen ProcT) >>= _)
              s₁ = _
            rw [hself', Program.bind_apply]
            show (showOneProc p >>= _) s₁ = _
            rw [Program.bind_apply]
            have hshown' : showOneProc p s₁ =
                some ((), ⟨mem₁, lines ++ [(prefixText path, p)]⟩) := hshown
            rw [hshown']
            rfl
          rw [hrun]
          unfold treeLines
          rcases filter_key hsorted p.tid with
            ⟨hnone, hnil⟩ | ⟨i, rest, hi, hdrop, hne, hrest⟩
          · rw [hnone]
            rw [hnil] at hchildren
            cases List.map_eq_nil_iff.mp hchildren
            exact ⟨mem₁, rfl, hready₁, hsize₁.trans hsize⟩
          · rw [hi]
            rw [← hchildren] at hdrop hne
            rcases putBar_apply hhead (lines ++ [(prefixText path, p)]) hready₁
              (hsize₁ ▸ hlevel) with
              ⟨mem₂, hput, hready₂, hsize₂⟩
            have hbelow : forall b, (if p.tid = 1 ∧ forestType ≠ byte 'u' then
              path.length else path.length + 1) =
                (childPath (flat forestType p) path b).length := by
              intro b
              rw [length_childPath]
              unfold flat
              simp only [decide_eq_true_eq]
            have hvisit : forall t, t ∈ ts -> forall j more, processes[j]? =
                some t.root ->
                Shows (showTree forestType processes fuel j
                    (if p.tid = 1 ∧ forestType ≠ byte 'u' then path.length
                      else path.length + 1) more)
                  (childPath (flat forestType p) path more) size
                  (treeLines forestType t
                    (childPath (flat forestType p) path more)) := by
              intro t ht j more hj
              have hle := RoseTree.height_le_heightAll ht
              rw [hbelow more]
              apply ih t ht fuel j _ more (hwhole.children.right t ht) hj (by omega)
              · rw [length_childPath]
                split <;> omega
              · intro b hb
                exact childPath_head b hb
            have hparent : forall t, t ∈ ts -> t.root.ppid = p.tid := by
              intro t ht
              have hmem : t.root ∈ ts.map RoseTree.root := List.mem_map_of_mem ht
              rw [hchildren] at hmem
              exact of_decide_eq_true (List.mem_filter.mp hmem).right
            rcases showChildren_shows size (flat forestType p) path hrest ts i mem₂
              (lines ++ [(prefixText path, p)]) (fun h => hne (by rw [h]; rfl))
                hdrop hparent hvisit
              (hready₂ (flat forestType p)) (by omega) with
                ⟨mem₃, hloop, hready₃, hsize₃⟩
            rcases chop_apply (lines ++ [(prefixText path, p)] ++
              childrenLines forestType (flat forestType p) path ts) hready₃
                (by omega) with ⟨hchop, hready₄⟩
            refine ⟨_, ?_, hready₄, ?_⟩
            · show (putPrefix path.length (bar haveSibling) >>= _) _ = _
              rw [Program.bind_apply, hput]
              show (showChildren _ _ _ _ >>= _) _ = _
              rw [Program.bind_apply, hdrop, hloop]
              show storePrefix path.length 0 _ = _
              rw [hchop, List.append_assoc]
              rfl
            · rw [List.length_set]
              exact hsize₃

theorem any_parent {p : ProcT} (hp : p ∈ processes) :
    processes.any (fun q => q.tid = p.ppid) = false <->
      (family processes distinct).IsRoot p := by
  rw [List.any_eq_false]
  constructor
  · intro h
    exact ⟨hp, fun q hq heq => h q hq (decide_eq_true heq)⟩
  · intro h q hq heq
    exact h.right q hq (of_decide_eq_true heq)

theorem Shows.append {program program' : Program Screen Unit} {path : List Bool}
    {size : Nat}
    {shown shown' : List (Text × ProcT)} (h : Shows program path size shown)
    (h' : Shows program' path size shown') :
    Shows (program >>= fun _ => program') path size (shown ++ shown') := by
  intro mem lines hready hsize
  rcases h mem lines hready hsize with ⟨mem', hrun, hready', hsize'⟩
  rcases h' mem' (lines ++ shown) hready' hsize' with
    ⟨mem'', hrun', hready'', hsize''⟩
  refine ⟨mem'', ?_, hready'', hsize''⟩
  rw [Program.bind_apply, hrun, ← List.append_assoc]
  exact hrun'

theorem Shows.nothing {path : List Bool} {size : Nat} :
    Shows (pure ()) path size [] := by
  intro mem lines hready hsize
  refine ⟨mem, ?_, hready, hsize⟩
  rw [List.append_nil]
  rfl

theorem showForest_shows
    (hsorted : processes.Pairwise (fun a b => a.ppid <= b.ppid)) {size fuel : Nat}
    (hfuel : processes.length <= fuel) (hsize : processes.length <= size)
    (n : Nat) : n <= processes.length ->
      exists ts : List (RoseTree ProcT),
        ts.map RoseTree.root =
          ((processes.take n).filter (fun p =>
          !processes.any (fun q => q.tid = p.ppid))).reverse ∧
          (forall t, t ∈ ts -> (family processes distinct).Whole t) ∧
          Shows (showForest forestType processes fuel n) [] size
            (ts.flatMap (fun t => treeLines forestType t [])) := by
  induction n with
  | zero =>
      intro _
      exact ⟨[], rfl, fun t ht => (nomatch ht), Shows.nothing⟩
  | succ n ih =>
      intro hn
      rcases ih (Nat.le_of_succ_le hn) with ⟨ts, hroots, hwhole, hshows⟩
      have hp : processes[n]? = some processes[n] := List.getElem?_eq_getElem hn
      have hmem : processes[n] ∈ processes := List.getElem_mem hn
      have hstep : showForest forestType processes fuel (n + 1) =
          if processes.any (fun q => q.tid = processes[n].ppid) = true then
            showForest forestType processes fuel n
          else showTree forestType processes fuel n 0 false >>= fun _ =>
            showForest forestType processes fuel n := by
        funext s
        rw [showForest, Program.bind_apply]
        show ((StateT.lift processes[n]? : Program Screen ProcT) s).bind _ = _
        rw [hp]
        rfl
      rw [List.take_add_one, hp, Option.toList_some, List.filter_append,
        List.reverse_append]
      cases hany : processes.any (fun q => q.tid = processes[n].ppid) with
      | true =>
          refine ⟨ts, ?_, hwhole, ?_⟩
          · rw [List.filter_cons_of_neg (by rw [hany]; decide)]
            exact hroots
          · rw [hstep, if_pos hany]
            exact hshows
      | false =>
          have hroot : (family processes distinct).IsRoot processes[n] :=
            (any_parent hmem).mp hany
          rcases Family.exists_tree processes.length (Family.Lineage.root hroot)
            (Nat.le_add_left _ _) with
            ⟨t, ht, hwhole', hheight⟩
          refine ⟨t :: ts, ?_, ?_, ?_⟩
          · rw [List.filter_cons_of_pos (by rw [hany]; rfl), List.map_cons, ht,
              hroots]
            rfl
          · intro t' ht'
            rcases List.mem_cons.mp ht' with rfl | ht'
            · exact hwhole'
            · exact hwhole t' ht'
          · rw [hstep, if_neg (by rw [hany]; decide), List.flatMap_cons]
            apply Shows.append ?_ hshows
            apply showTree_shows hsorted size t fuel n [] false hwhole'
              (hp.trans (congrArg some ht.symm))
              (Nat.le_trans hheight hfuel)
            · exact Nat.le_trans (Nat.le_of_eq (Nat.zero_add _))
                (Nat.le_trans hheight hsize)
            · intro b hb
              cases hb

end Trees

/-!
# The forest
-/

mutual

theorem treeLines_snd (forestType : UInt8) :
    forall (t : RoseTree ProcT) (path : List Bool),
    (treeLines forestType t path).map Prod.snd = t.items
  | .node p ts, path =>
      congrArg (p :: ·) (childrenLines_snd forestType (flat forestType p) path ts)

theorem childrenLines_snd (forestType : UInt8) (inPlace : Bool)
    (path : List Bool) : forall ts : List (RoseTree ProcT),
    (childrenLines forestType inPlace path ts).map Prod.snd = RoseTree.itemsAll ts
  | [] => rfl
  | t :: ts => by
      unfold childrenLines RoseTree.itemsAll
      rw [List.map_append, treeLines_snd forestType t,
        childrenLines_snd forestType inPlace path ts]

end

theorem forestLines_snd (forestType : UInt8) (ts : List (RoseTree ProcT)) :
    (ts.flatMap (fun t => treeLines forestType t [])).map Prod.snd =
    ts.flatMap RoseTree.items := by
  rw [List.map_flatMap]
  exact List.flatMap_congr (fun t _ => treeLines_snd forestType t [])

theorem fancySpew_apply {ctx : Context} {comparisons : Comparisons ctx.tables}
    {qsort : Qsort ProcT}
    {tasks : ProcT -> List ProcT} {found : List ProcT} {fuel : Nat}
    {screen : Screen} {s s' : State} {sortList : List SortNode}
    (hfound : found ≠ []) (hforest : s.globals.forestType ≠ 0)
    (hprep : prepForestSort ctx s = .ok ((), s'))
    (hglobals : s'.globals = { s.globals with sortList := sortList }) :
    fancySpew ctx comparisons qsort tasks found fuel screen s =
      .ok ((showForest s.globals.forestType
        (qsort.sort (compareTwoProcs comparisons.sr sortList) found) fuel
        (qsort.sort (compareTwoProcs comparisons.sr sortList) found).length
          screen).map Prod.snd, s') := by
  unfold fancySpew
  rw [if_neg hfound]
  show (if s.globals.forestType ≠ 0 then (_ : Run (Option Screen)) else _) s = _
  rw [if_pos hforest]
  show (prepForestSort ctx s).bind _ = _
  rw [hprep]
  show Except.ok
    ((((if s'.globals.forestType ≠ 0 then (_ : Program Screen Unit)
    else _) screen).map Prod.snd), s') = _
  rw [hglobals, if_pos hforest]

/--
With a forest, the lines are those of whole trees of the processes found, with
the siblings in the order that was asked for: each process whose chain of
parents leads to a root has one line, and no other has any. The buffer is left
as the next call needs it.
-/
theorem fancySpew_forest {ctx : Context} (comparisons : Comparisons ctx.tables)
    (qsort : Qsort ProcT)
    (tasks : ProcT -> List ProcT) {found : List ProcT} {fuel : Nat} {mem : Text}
    {s : State} {start incoming : FormatStruct}
    (hforest : s.globals.forestType ≠ 0) (hdistinct : (found.map ProcT.tid).Nodup)
    (hstart : ctx.tables.searchFormatArray (bytes "start_time") = some start)
    (hppid : ctx.tables.searchFormatArray (bytes "ppid") = some incoming)
    (hfuel : found.length <= fuel) (hroom : found.length <= forestPrefixSize)
    (hmem : mem.length = forestPrefixSize) (hclear : mem.head? = some 0) :
    exists (s' : State) (mem' : Text) (processes : Family ProcT Nat)
      (ts : List (RoseTree ProcT)),
      fancySpew ctx comparisons qsort tasks found fuel ⟨mem, []⟩ s =
          .ok (some ⟨mem', ts.flatMap (fun t =>
            treeLines s.globals.forestType t [])⟩, s') ∧
        processes.id = ProcT.tid ∧ processes.parent = ProcT.ppid ∧
          processes.members.Perm found ∧
        (forall p, p ∈ processes.members ->
          InOrder (compareTwoProcs comparisons.sr (siblingKeys start s))
            (processes.children p)) ∧
        (forall t, t ∈ ts -> processes.Whole t) ∧
        (forall p, p ∈ ts.map RoseTree.root <-> processes.IsRoot p) ∧
        (ts.flatMap RoseTree.items).Nodup ∧
          (forall p, p ∈ ts.flatMap RoseTree.items <-> processes.Rooted p) ∧
        mem'.length = forestPrefixSize ∧ mem'.head? = some 0 := by
  rcases prepForestSort_apply hstart hppid s with
    ⟨s', key, hprep, hsr, hreverse, hglobals⟩
  let sorted :=
    qsort.sort (compareTwoProcs comparisons.sr (key :: siblingKeys start s)) found
  have hperm : sorted.Perm found := qsort.perm _ found
  have hsorted := inOrder_siblings hppid hsr hreverse
    (qsort.sorted _ found (orders_compareTwoProcs comparisons.sr
    (key :: siblingKeys start s)).consistent)
  have hdistinct' : (sorted.map ProcT.tid).Nodup :=
    (hperm.map ProcT.tid).nodup_iff.mpr hdistinct
  have hlength : sorted.length = found.length := hperm.length_eq
  rcases @showForest_shows s.globals.forestType sorted hdistinct' hsorted.left _ _
    (Nat.le_trans (Nat.le_of_eq hlength) hfuel)
    (Nat.le_trans (Nat.le_of_eq hlength) hroom) sorted.length
    (Nat.le_refl _) with ⟨ts, hroots, hwhole, hshows⟩
  have hready : Ready [] mem := by
    rcases List.head?_eq_some_iff.mp hclear with ⟨rest, hrest⟩
    exact ⟨rest, hrest.symm⟩
  have hroots' : forall p, p ∈ ts.map RoseTree.root <->
      (family sorted hdistinct').IsRoot p := by
    intro p
    rw [hroots, List.mem_reverse, List.take_length, List.mem_filter,
      Bool.not_eq_true']
    constructor
    · rintro ⟨hp, hany⟩
      exact (any_parent hp).mp hany
    · intro hroot
      exact ⟨hroot.left, (any_parent hroot.left).mpr hroot⟩
  have hnodup : (ts.map RoseTree.root).Nodup := by
    rw [hroots]
    exact List.nodup_reverse.mpr
      (((List.Nodup.of_map _ hdistinct').sublist (List.take_sublist _ _)).filter _)
  have hitems := Family.forest_items hnodup hroots' rfl hwhole
  rcases hshows mem [] hready hmem with ⟨mem', hrun, ⟨rest, hrest⟩, hmem'⟩
  have hclear' : mem'.head? = some 0 := by
    rw [← hrest]
    rfl
  by_cases hfound : found = []
  · -- Without processes the call returns at once.
    have hts : ts = [] := by
      have hnil : sorted = [] := List.length_eq_zero_iff.mp
        (by rw [hlength, hfound]; rfl)
      rw [hnil] at hroots
      exact List.map_eq_nil_iff.mp hroots
    refine ⟨s, mem, family sorted hdistinct', ts, ?_, rfl, rfl, hperm,
      fun p _ => hsorted.right p.tid, hwhole, hroots',
      hitems.left, hitems.right, hmem, hclear⟩
    unfold fancySpew
    rw [if_pos hfound, hts]
    rfl
  · refine ⟨s', mem', family sorted hdistinct', ts, ?_, rfl, rfl, hperm,
      fun p _ => hsorted.right p.tid, hwhole, hroots',
      hitems.left, hitems.right, hmem', hclear'⟩
    rw [fancySpew_apply hfound hforest hprep hglobals]
    show Except.ok
      ((showForest s.globals.forestType sorted fuel sorted.length ⟨mem, []⟩).map
      Prod.snd, s') = _
    rw [hrun]
    rfl

def forestFormats (spec : Text) : Option FormatStruct :=
  if spec = bytes "ppid" then some ⟨bytes "PPID", bytes "pr_ppid",
    bytes "sr_ppid", 5, 0, 0, 0x20000013⟩
  else if spec = bytes "start_time" then
    some ⟨bytes "START", bytes "pr_stime", bytes "sr_start_time", 5, 0, 1,
    0x20000003⟩
  else none

def forestContext : Context where
  tables := {
    searchFormatArray := forestFormats
    searchMacroArray := fun _ => none
    searchAixArray := fun _ => none
    searchShortsortArray := fun _ => none
    macros_flat := fun _ _ h => (nomatch h) }
  sys := {
    getpwnam := fun _ => none
    getgrnam := fun _ => none
    stat := fun _ => none
    winsizes := [(80, 24)]
    stdoutIsTty := true
    selfTty := 0
    pidMax := none }
  env := { getenv := fun _ => none, wordHelp := bytes "help" }
  pidDigits := 5
  argv := [bytes "ps", bytes "f"]

def forestComparisons : Comparisons forestContext.tables where
  sr name :=
    if name = bytes "sr_ppid" then .small (fun P => P.ppid)
    else if name = bytes "sr_start_time" then .int (fun P => P.startTime)
    else .nop
  sr_ppid incoming h := by
    have hincoming : forestFormats (bytes "ppid") = some incoming := h
    unfold forestFormats at hincoming
    rw [if_pos rfl] at hincoming
    cases hincoming
    exact if_pos rfl

/-- A process with its number, its parent and the time it was started. -/
def started (tid ppid startTime : Nat) : ProcT :=
  ⟨tid, tid, ppid, tid, tid, 0, 0, 0, 0, 0, byte 'S', [], startTime⟩

/-- Two children of process 1, one of which has a child, and a process whose
parent is gone. -/
def someProcesses : List ProcT :=
  [started 9 5 40, started 7 1 20, started 1 0 10, started 5 1 30, started 8 6 15]

def forestState : State :=
  { globals := { (default : Globals) with forestType := byte 'u' }
    sfList := []
    haveGnuSort := false
    alreadyParsedSort := false
    alreadyParsedFormat := false
    pidDigitsRead := false
    nodes := 0
    freed := [] }

def clearPrefix : Text :=
  List.replicate forestPrefixSize 0

theorem clearPrefix_length : clearPrefix.length = forestPrefixSize := by
  unfold clearPrefix
  exact List.length_replicate

theorem clearPrefix_head : clearPrefix.head? = some 0 := by
  unfold clearPrefix
  rw [List.head?_replicate]
  exact if_neg (Nat.succ_ne_zero _)

theorem fancySpew_forest_some : exists s' screen,
    fancySpew forestContext forestComparisons Qsort.merge
      (fun _ => []) someProcesses 5 ⟨clearPrefix, []⟩ forestState =
        .ok (some screen, s') ∧
      (screen.lines.map Prod.snd).Nodup ∧ screen.forestPrefix.head? = some 0 := by
  have hroom : someProcesses.length <= forestPrefixSize :=
    Nat.le_trans (show someProcesses.length <= 100 by decide)
      (Nat.le_add_left 100 _)
  rcases @fancySpew_forest forestContext forestComparisons Qsort.merge
    (fun _ => []) someProcesses 5 clearPrefix forestState
    _ _ (by decide) (by decide) rfl rfl (by decide) hroom clearPrefix_length
      clearPrefix_head with
    ⟨s', mem', processes, ts, hrun, _, _, _, _, _, _, hnodup, _, _, hclear⟩
  refine ⟨s', _, hrun, ?_, hclear⟩
  rw [forestLines_snd]
  exact hnodup

/-- With `ps -eH`. -/
example :
    (showForest (byte 'u') [started 1 0 10, started 7 1 20, started 5 1 30,
    started 9 5 40, started 8 6 15] 5 5
    ⟨[0, 0, 0, 0], []⟩).map (fun r =>
      r.2.lines.map (fun line => (line.1, line.2.tid))) =
      some [([], 8), ([], 1), (bytes "+", 7), (bytes "L", 5), (bytes " L", 9)] := by
  decide +kernel

end Ps
end Lepd
