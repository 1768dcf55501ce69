import Lepd.Cgtop.Streams

/-!
# Paths of groups

The names of files and directories are put together with more slashes than they
need, which `path_kill_slashes` takes out.
-/

namespace Lepd
namespace Cgtop

open Ps (Text bytes byte)
open CJson (cString)

def slash : UInt8 := 47

/--
The loop of `path_kill_slashes` over what is left of `path`. The bytes up to
`f[i]` are `f`, and `x` counts the slashes that are left out.
-/
def killSlashes : Text -> Nat -> Text -> Text × Nat
  | f, x, [] => (f, x)
  | f, x, c :: path =>
      let (f, x) := if c = slash ∧ path = [] then (f ++ [0], x + 1) else (f, x)
      if c = slash then
        if f.getLast? = some slash then killSlashes f (x + 1) path
        else if path.head? = some slash then killSlashes f (x + 1) path
        else killSlashes (f ++ [c]) x path
      else killSlashes (f ++ [c]) x path

def pathKillSlashes (path : Text) : Text :=
  let (f, x) := killSlashes (path.take 1) 0 path
  cString (f.take (path.length - x + 1))

/-- The names of the controllers that `refresh` goes through. -/
inductive Controller where
  | systemd
  | cpuacct
  | memory
  | blkio
deriving DecidableEq

def Controller.name : Controller -> Text
  | .systemd => bytes "systemd"
  | .cpuacct => bytes "cpuacct"
  | .memory => bytes "memory"
  | .blkio => bytes "blkio"

/-- The text that `join_path` and `cg_get_path` put together. -/
def cgGetPath (controller : Controller) (path suffix : Text) : Text :=
  pathKillSlashes (bytes "/sys/fs/cgroup/" ++
    (controller.name ++ (slash :: (path ++ (slash :: suffix)))))

def subgroupPath (path name : Text) : Text :=
  pathKillSlashes (path ++ (slash :: name))

/-- `g->path`, which `process` takes from the path of the file of the processes. -/
def groupPath (fs : Text) : Text :=
  let start := bytes "/sys/fs/cgroup/systemd/"
  let finish := bytes "/cgroup.procs"
  if fs.take start.length = start then
    if fs.drop (start.length - 1) = finish then [slash]
    else slash :: (fs.drop start.length).take (fs.length - start.length -
      finish.length)
  else fs.take (fs.length - finish.length)

example : subgroupPath [slash] (bytes "a") = bytes "/a" ∧
    cgGetPath .blkio [slash] (bytes "/") = bytes "/sys/fs/cgroup/blkio" := by decide

/-!
# What is left of a path
-/

def keep : Bool -> Text -> Text
  | _, [] => []
  | afterSlash, c :: path =>
      if c = slash then
        if path = [] then []
        else if afterSlash then keep true path
        else if path.head? = some slash then keep false path
        else slash :: keep true path
      else c :: keep false path

theorem keep_subset : forall (b : Bool) (path : Text), forall c,
    c ∈ keep b path -> c ∈ path := by
  intro b path
  fun_induction keep b path with
  | case1 =>
      intro c hc
      exact hc
  | case2 =>
      intro c hc
      cases hc
  | case3 path _ ih =>
      intro d hd
      exact List.mem_cons_of_mem _ (ih d hd)
  | case4 b path _ _ _ ih =>
      intro d hd
      exact List.mem_cons_of_mem _ (ih d hd)
  | case5 b path _ _ _ ih =>
      intro d hd
      rcases List.mem_cons.mp hd with rfl | hd
      · exact List.mem_cons_self
      · exact List.mem_cons_of_mem _ (ih d hd)
  | case6 b c path _ ih =>
      intro d hd
      rcases List.mem_cons.mp hd with rfl | hd
      · exact List.mem_cons_self
      · exact List.mem_cons_of_mem _ (ih d hd)

/-- What the loop stores behind the end of a path that ends with a slash. -/
def beyond (path : Text) : Text :=
  if path.getLast? = some slash then [0, slash] else []

theorem beyond_cons_cons (c d : UInt8) (path : Text) :
    beyond (c :: d :: path) = beyond (d :: path) := by
  rw [beyond, beyond, List.getLast?_cons_cons]

theorem beyond_cons {c : UInt8} (hc : c ≠ slash) (path : Text) :
    beyond (c :: path) = beyond path := by
  cases path with
  | nil =>
      exact if_neg (fun h => hc (Option.some.inj h))
  | cons d path =>
      exact beyond_cons_cons c d path

/-- What the loop stores is what is kept, and what is stored beyond it is not
counted. -/
theorem killSlashes_spec (path : Text) : forall (f : Text) (x : Nat),
    (killSlashes f x path).1 = f ++
    (keep (decide (f.getLast? = some slash)) path ++ beyond path) ∧
      (killSlashes f x path).2 +
        (keep (decide (f.getLast? = some slash)) path).length = x +
        path.length := by
  induction path with
  | nil =>
      intro f x
      exact ⟨(List.append_nil f).symm, rfl⟩
  | cons c path ih =>
      intro f x
      by_cases hc : c = slash
      · subst hc
        cases path with
        | nil =>
            constructor
            · simp [killSlashes, keep, beyond, slash]
            · simp [killSlashes, keep, slash]
        | cons d path =>
            have hmore : d :: path ≠ [] := List.cons_ne_nil d path
            rw [beyond_cons_cons]
            by_cases hlast : f.getLast? = some slash
            · have hstep : killSlashes f x (slash :: d :: path) =
                  killSlashes f (x + 1) (d :: path) := by
                rw [killSlashes]
                simp [hlast]
              have hkeep : keep true (slash :: d :: path) =
                  keep true (d :: path) := by
                rw [keep, if_pos rfl, if_neg hmore, if_pos rfl]
              rcases ih f (x + 1) with ⟨htext, hcount⟩
              rw [decide_eq_true hlast] at htext hcount ⊢
              rw [hstep, hkeep]
              refine ⟨htext, hcount.trans ?_⟩
              rw [Nat.add_assoc, Nat.add_comm 1]
              rfl
            · by_cases hnext : d = slash
              · have hstep : killSlashes f x (slash :: d :: path) =
                    killSlashes f (x + 1) (d :: path) := by
                  rw [killSlashes]
                  simp [hlast, hnext]
                have hhead : (d :: path).head? = some slash := congrArg some hnext
                have hkeep : keep false (slash :: d :: path) =
                    keep false (d :: path) := by
                  rw [keep, if_pos rfl, if_neg hmore, if_neg (by decide),
                    if_pos hhead]
                rcases ih f (x + 1) with ⟨htext, hcount⟩
                rw [decide_eq_false hlast] at htext hcount ⊢
                rw [hstep, hkeep]
                refine ⟨htext, hcount.trans ?_⟩
                rw [Nat.add_assoc, Nat.add_comm 1]
                rfl
              · have hstep : killSlashes f x (slash :: d :: path) =
                    killSlashes (f ++ [slash]) x (d :: path) := by
                  rw [killSlashes]
                  simp [hlast, hnext]
                have hhead : ¬ (d :: path).head? = some slash := fun h =>
                  hnext (Option.some.inj h)
                have hkeep : keep false (slash :: d :: path) = slash ::
                    keep true (d :: path) := by
                  rw [keep, if_pos rfl, if_neg hmore, if_neg (by decide),
                    if_neg hhead]
                have hlast' : (f ++ [slash]).getLast? = some slash := by simp
                rcases ih (f ++ [slash]) x with ⟨htext, hcount⟩
                rw [decide_eq_true hlast'] at htext hcount
                rw [decide_eq_false hlast, hstep, hkeep]
                constructor
                · rw [htext, List.append_assoc]
                  rfl
                · rw [List.length_cons, ← Nat.add_assoc, hcount]
                  rfl
      · have hstep : killSlashes f x (c :: path) =
            killSlashes (f ++ [c]) x path := by
          rw [killSlashes]
          simp [hc]
        have hkeep : forall b, keep b (c :: path) = c :: keep false path := by
          intro b
          rw [keep, if_neg hc]
        have hlast' : ¬ (f ++ [c]).getLast? = some slash := by simpa using hc
        rcases ih (f ++ [c]) x with ⟨htext, hcount⟩
        rw [decide_eq_false hlast'] at htext hcount
        rw [hstep, hkeep, beyond_cons hc]
        constructor
        · rw [htext, List.append_assoc]
          rfl
        · rw [List.length_cons, ← Nat.add_assoc, hcount]
          rfl

theorem pathKillSlashes_eq {path : Text} (hnull : (0 : UInt8) ∉ path) :
    pathKillSlashes (slash :: path) = slash :: keep true (slash :: path) := by
  rcases killSlashes_spec (slash :: path) [slash] 0 with ⟨htext, hcount⟩
  have hlast : decide ([slash].getLast? = some slash) = true := rfl
  rw [hlast] at htext hcount
  rw [Nat.zero_add] at hcount
  have hy : (slash :: path).length - (killSlashes [slash] 0 (slash :: path)).2 =
      (keep true (slash :: path)).length := by
    omega
  have htake : (killSlashes [slash] 0 (slash :: path)).1.take
      ((keep true (slash :: path)).length + 1) =
      slash :: keep true (slash :: path) := by
    rw [htext]
    show slash :: (keep true (slash :: path) ++ beyond (slash :: path)).take
      (keep true (slash :: path)).length = _
    rw [List.take_left]
  show cString ((killSlashes [slash] 0 (slash :: path)).1.take
    ((slash :: path).length - (killSlashes [slash] 0 (slash :: path)).2 + 1)) = _
  rw [hy, htake]
  apply cString_of_plain
  intro c hc
  have hmem : c ∈ slash :: path := by
    rcases List.mem_cons.mp hc with rfl | hc
    · exact List.mem_cons_self
    · exact keep_subset true (slash :: path) c hc
  rintro rfl
  rcases List.mem_cons.mp hmem with heq | hmem
  · cases heq
  · exact hnull hmem

/-!
# Names
-/

/-- The name of a directory entry. -/
structure IsName (name : Text) : Prop where
  nonempty : name ≠ []
  slash : slash ∉ name
  null : (0 : UInt8) ∉ name

def segments (names : List Text) : Text :=
  (names.map (slash :: ·)).flatten

/-- The path of a group, by the names that lead to it. -/
def pathOf (names : List Text) : Text :=
  if names = [] then [slash] else segments names

def mount (controller : Controller) : List Text :=
  [bytes "sys", bytes "fs", bytes "cgroup", controller.name]

theorem segments_append (names more : List Text) :
    segments (names ++ more) = segments names ++ segments more := by
  rw [segments, List.map_append, List.flatten_append]
  rfl

theorem keep_plain {name : Text} (h : slash ∉ name) (rest : Text) :
    keep false (name ++ rest) = name ++ keep false rest := by
  induction name with
  | nil =>
      rfl
  | cons c name ih =>
      have hc : c ≠ slash := fun heq => h (heq ▸ List.mem_cons_self)
      rw [List.cons_append, keep, if_neg hc,
        ih (fun hmem => h (List.mem_cons_of_mem c hmem))]
      rfl

theorem keep_name {name : Text} (h : IsName name) (b : Bool) (rest : Text) :
    keep b (name ++ rest) = name ++ keep false rest := by
  cases name with
  | nil =>
      exact absurd rfl h.nonempty
  | cons c name =>
      have hc : c ≠ slash := fun heq => h.slash (heq ▸ List.mem_cons_self)
      rw [List.cons_append, keep, if_neg hc,
        keep_plain (fun hmem => h.slash (List.mem_cons_of_mem c hmem))]
      rfl

theorem keep_slash_name {name : Text} (h : IsName name) (rest : Text) :
    keep false (slash :: (name ++ rest)) = slash :: (name ++ keep false rest) := by
  have hne : name ++ rest ≠ [] := List.append_ne_nil_of_left_ne_nil h.nonempty rest
  have hhead : ¬ (name ++ rest).head? = some slash := by
    rw [List.head?_append_of_ne_nil _ h.nonempty]
    intro hhead
    exact h.slash (List.mem_of_head? hhead)
  rw [keep, if_pos rfl, if_neg hne, if_neg (by decide), if_neg hhead, keep_name h]

theorem keep_slashes (rest : Text) : keep false (slash :: slash :: rest) =
    keep false (slash :: rest) := by
  have hhead : (slash :: rest).head? = some slash := rfl
  rw [keep, if_pos rfl, if_neg (List.cons_ne_nil _ _), if_neg (by decide),
    if_pos hhead]

theorem keep_segments {names : List Text}
    (h : forall name, name ∈ names -> IsName name) (rest : Text) :
    keep false (segments names ++ rest) = segments names ++ keep false rest := by
  induction names with
  | nil =>
      rfl
  | cons name names ih =>
      have hsplit : segments (name :: names) = slash ::
          (name ++ segments names) := rfl
      rw [hsplit, List.cons_append, List.append_assoc,
        keep_slash_name (h name List.mem_cons_self),
        ih (fun n hn => h n (List.mem_cons_of_mem name hn)), List.cons_append,
          List.append_assoc]

theorem null_not_mem_segments {names : List Text}
    (h : forall name, name ∈ names -> IsName name) :
    (0 : UInt8) ∉ segments names := by
  intro hmem
  rcases List.mem_flatten.mp hmem with ⟨segment, hsegment, hnull⟩
  rcases List.mem_map.mp hsegment with ⟨name, hname, rfl⟩
  rcases List.mem_cons.mp hnull with heq | hnull
  · cases heq
  · exact (h name hname).null hnull

theorem pathKillSlashes_segments {names : List Text} (hne : names ≠ [])
    (h : forall name, name ∈ names -> IsName name) {rest : Text}
    (hnull : (0 : UInt8) ∉ rest) :
    pathKillSlashes (segments names ++ rest) = segments names ++
      keep false rest := by
  cases names with
  | nil =>
      exact absurd rfl hne
  | cons name names =>
      have hsplit : segments (name :: names) = slash ::
          (name ++ segments names) := rfl
      have hname := h name List.mem_cons_self
      have hnames : forall n, n ∈ names -> IsName n := fun n hn =>
        h n (List.mem_cons_of_mem name hn)
      have hplain : (0 : UInt8) ∉ name ++ (segments names ++ rest) := by
        rw [List.mem_append, List.mem_append, not_or, not_or]
        exact ⟨hname.null, null_not_mem_segments hnames, hnull⟩
      have hmore : name ++ (segments names ++ rest) ≠ [] :=
        List.append_ne_nil_of_left_ne_nil hname.nonempty _
      rw [hsplit, List.cons_append, List.append_assoc,
        pathKillSlashes_eq hplain, keep, if_pos rfl, if_neg hmore,
        if_pos rfl, keep_name hname, keep_segments hnames, List.cons_append,
          List.append_assoc]

/-!
# The paths that are used
-/

section Used

variable {names : List Text}

theorem null_not_mem_pathOf (h : forall name, name ∈ names -> IsName name) :
    (0 : UInt8) ∉ pathOf names := by
  unfold pathOf
  split
  · decide
  · exact null_not_mem_segments h

theorem subgroupPath_pathOf (h : forall name, name ∈ names -> IsName name)
    {name : Text} (hname : IsName name) :
    subgroupPath (pathOf names) name = pathOf (names ++ [name]) := by
  have hnone : pathOf (names ++ [name]) = segments (names ++ [name]) :=
    if_neg (List.append_ne_nil_of_right_ne_nil names (List.cons_ne_nil name []))
  have hsingle : segments [name] = slash :: name := List.append_nil _
  unfold subgroupPath
  cases names with
  | nil =>
      have hne : name ≠ [] := hname.nonempty
      have hplain : (0 : UInt8) ∉ slash :: name := by
        rw [List.mem_cons, not_or]
        exact ⟨by decide, hname.null⟩
      have hkeep := keep_name hname true []
      rw [List.append_nil, keep, List.append_nil] at hkeep
      show pathKillSlashes (slash :: (slash :: name)) = pathOf [name]
      rw [pathKillSlashes_eq hplain, keep, if_pos rfl,
        if_neg (List.cons_ne_nil _ _), if_pos rfl, keep, if_pos rfl,
        if_neg hne, if_pos rfl, hkeep]
      exact hsingle.symm
  | cons first names =>
      have hall : forall n, n ∈ (first :: names) ++ [name] -> IsName n := by
        intro n hn
        rcases List.mem_append.mp hn with hn | hn
        · exact h n hn
        · rw [List.mem_singleton.mp hn]
          exact hname
      have hpath : pathOf (first :: names) = segments (first :: names) :=
        if_neg (List.cons_ne_nil _ _)
      have hkill := pathKillSlashes_segments
        (List.append_ne_nil_of_right_ne_nil _ (List.cons_ne_nil name []))
        hall (List.not_mem_nil : (0 : UInt8) ∉ [])
      rw [List.append_nil, segments_append, hsingle, keep, List.append_nil] at hkill
      rw [hpath, hkill, hnone, segments_append, hsingle]

theorem isName_controller (controller : Controller) : IsName controller.name := by
  cases controller with
  | systemd =>
      exact ⟨by decide, by decide, by decide⟩
  | cpuacct =>
      exact ⟨by decide, by decide, by decide⟩
  | memory =>
      exact ⟨by decide, by decide, by decide⟩
  | blkio =>
      exact ⟨by decide, by decide, by decide⟩

theorem isName_mount (controller : Controller) :
    forall name, name ∈ mount controller -> IsName name := by
  intro name hname
  simp only [mount, List.mem_cons, List.not_mem_nil, or_false] at hname
  rcases hname with rfl | rfl | rfl | rfl
  · exact ⟨by decide, by decide, by decide⟩
  · exact ⟨by decide, by decide, by decide⟩
  · exact ⟨by decide, by decide, by decide⟩
  · exact isName_controller controller

theorem keep_pathOf (h : forall name, name ∈ names -> IsName name) (rest : Text) :
    keep false (slash :: (pathOf names ++ (slash :: rest))) = segments names ++
      keep false (slash :: rest) := by
  cases names with
  | nil =>
      show keep false (slash :: slash :: slash :: rest) = keep false (slash :: rest)
      rw [keep_slashes, keep_slashes]
  | cons first names =>
      have hpath : pathOf (first :: names) = slash ::
          (first ++ segments names) := if_neg (List.cons_ne_nil _ _)
      have hsegments := keep_segments h (slash :: rest)
      rw [hpath, List.cons_append, keep_slashes]
      exact hsegments

theorem cgGetPath_pathOf (controller : Controller)
    (h : forall name, name ∈ names -> IsName name) {suffix : Text}
    (hnull : (0 : UInt8) ∉ suffix) :
    cgGetPath controller (pathOf names) suffix =
      segments (mount controller) ++
        (segments names ++ keep false (slash :: suffix)) := by
  have hmount : bytes "/sys/fs/cgroup/" ++ controller.name =
      segments (mount controller) := by
    cases controller with
    | systemd => decide
    | cpuacct => decide
    | memory => decide
    | blkio => decide
  have hrest : (0 : UInt8) ∉ slash :: (pathOf names ++ (slash :: suffix)) := by
    simp only [List.mem_cons, List.mem_append, not_or]
    exact ⟨by decide, null_not_mem_pathOf h, by decide, hnull⟩
  have hne : mount controller ≠ [] := List.cons_ne_nil _ _
  unfold cgGetPath
  rw [← List.append_assoc, hmount, pathKillSlashes_segments hne
    (isName_mount controller) hrest, keep_pathOf h]

theorem cgGetPath_file (controller : Controller)
    (h : forall name, name ∈ names -> IsName name) {suffix : Text}
    (hsuffix : IsName suffix) :
    cgGetPath controller (pathOf names) suffix =
      segments (mount controller ++ (names ++ [suffix])) := by
  have hkeep := keep_slash_name hsuffix []
  rw [List.append_nil, keep, List.append_nil] at hkeep
  have hsingle : segments [suffix] = slash :: suffix := List.append_nil _
  rw [cgGetPath_pathOf controller h hsuffix.null, hkeep, segments_append,
    segments_append, hsingle]

theorem cgGetPath_dir (controller : Controller)
    (h : forall name, name ∈ names -> IsName name) :
    cgGetPath controller (pathOf names) (bytes "/") =
      segments (mount controller ++ names) := by
  have hkeep : keep false (slash :: bytes "/") = [] := by decide
  rw [cgGetPath_pathOf controller h (by decide), hkeep, List.append_nil,
    segments_append]

end Used

theorem takeWhile_segments {name : Text} (h : IsName name) (names : List Text) :
    (name ++ segments names).takeWhile (fun c => c != slash) = name := by
  have hplain : forall c, c ∈ name -> (c != slash) = true := by
    intro c hc
    have hne : c ≠ slash := fun heq => h.slash (heq ▸ hc)
    simpa using hne
  rw [List.takeWhile_append_of_pos hplain]
  cases names with
  | nil =>
      exact List.append_nil name
  | cons next names =>
      have hnone : (segments (next :: names)).takeWhile (fun c => c != slash) =
          [] :=
        List.takeWhile_cons_of_neg (by decide)
      rw [hnone, List.append_nil]

theorem segments_injective {names : List Text}
    (h : forall name, name ∈ names -> IsName name) :
    forall {names' : List Text}, (forall name, name ∈ names' -> IsName name) ->
      segments names = segments names' -> names = names' := by
  induction names with
  | nil =>
      intro names' _ hsame
      cases names' with
      | nil =>
          rfl
      | cons name names' =>
          cases hsame
  | cons name names ih =>
      intro names' h' hsame
      cases names' with
      | nil =>
          cases hsame
      | cons name' names' =>
          have hname := h name List.mem_cons_self
          have hname' := h' name' List.mem_cons_self
          have hrest : name ++ segments names = name' ++ segments names' :=
            List.tail_eq_of_cons_eq hsame
          have hfirst := congrArg (List.takeWhile (fun c => c != slash)) hrest
          rw [takeWhile_segments hname, takeWhile_segments hname'] at hfirst
          subst hfirst
          rw [ih (fun n hn => h n (List.mem_cons_of_mem name hn)) (fun n hn =>
            h' n (List.mem_cons_of_mem name hn))
            (List.append_cancel_left hrest)]

theorem pathOf_injective {names names' : List Text}
    (h : forall name, name ∈ names -> IsName name)
    (h' : forall name, name ∈ names' -> IsName name)
    (hsame : pathOf names = pathOf names') : names = names' := by
  have hroot : forall {name : Text} {names : List Text}, IsName name ->
      [slash] ≠ pathOf (name :: names) := by
    intro name names hname hsame
    have hrest : [] = name ++ segments names := List.tail_eq_of_cons_eq hsame
    exact hname.nonempty (List.append_eq_nil_iff.mp hrest.symm).left
  cases names with
  | nil =>
      cases names' with
      | nil =>
          rfl
      | cons name names' =>
          exact absurd hsame (hroot (h' name List.mem_cons_self))
  | cons name names =>
      cases names' with
      | nil =>
          exact absurd hsame.symm (hroot (h name List.mem_cons_self))
      | cons name' names' =>
          exact segments_injective h h' hsame

end Cgtop
end Lepd
