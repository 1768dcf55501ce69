import Lepd.Cgtop.KillSlashes

/-!
# The normal form of a path

A path stands for the names between its slashes. `path_kill_slashes` writes
these names with one slash in front of each, whatever slashes there were.
-/

namespace Lepd
namespace Cgtop

open Ps (Text bytes byte)

def squeeze : Text -> Text
  | [] => []
  | c :: path => if c = slash ∧ path.head? = some slash then squeeze path
      else c :: squeeze path

def dropFinalSlash (path : Text) : Text :=
  if path.getLast? = some slash then path.dropLast else path

/-- One slash for each run of them, and none at the end unless the path is the
root. -/
def normalForm (path : Text) : Text :=
  if squeeze path = [slash] then [slash] else dropFinalSlash (squeeze path)

/-- The names between the slashes of a path. -/
def names (path : Text) : List Text :=
  (path.splitOn slash).filter (fun name => name ≠ [])

/-- What `join_path` puts together. -/
def joined (controller path suffix : Text) : Text :=
  bytes "/sys/fs/cgroup/" ++ (controller ++ (slash :: (path ++ (slash :: suffix))))

example : normalForm (bytes "//a///b/") = bytes "/a/b" ∧ names
    (bytes "//a///b/") = [bytes "a", bytes "b"] := by decide

/-!
# Squeezing
-/

theorem squeeze_slashes (path : Text) :
    squeeze (slash :: slash :: path) = squeeze (slash :: path) := by
  rw [squeeze, if_pos ⟨rfl, rfl⟩]

theorem squeeze_cons {c : UInt8} {path : Text}
    (h : ¬ (c = slash ∧ path.head? = some slash)) :
    squeeze (c :: path) = c :: squeeze path := by
  rw [squeeze, if_neg h]

theorem squeeze_ne_nil {path : Text} (hne : path ≠ []) : squeeze path ≠ [] := by
  induction path with
  | nil =>
      exact absurd rfl hne
  | cons c path ih =>
      unfold squeeze
      split
      · next h =>
          apply ih
          rintro rfl
          exact nomatch h.right
      · exact List.cons_ne_nil c _

theorem dropFinalSlash_cons (c : UInt8) {path : Text} (hne : path ≠ []) :
    dropFinalSlash (c :: path) = c :: dropFinalSlash path := by
  cases path with
  | nil =>
      exact absurd rfl hne
  | cons d path =>
      unfold dropFinalSlash
      rw [List.getLast?_cons_cons]
      split
      · rfl
      · rfl

/-- What is kept behind a byte that is no slash is the squeezed text without a
slash at its end. -/
theorem keep_eq_squeeze (path : Text) : keep false path = dropFinalSlash
    (squeeze path) := by
  induction path with
  | nil =>
      rfl
  | cons c path ih =>
      by_cases hc : c = slash
      · subst hc
        cases path with
        | nil =>
            decide
        | cons d path =>
            by_cases hd : d = slash
            · subst hd
              rw [keep_slashes, squeeze_slashes, ih]
            · have hhead : ¬ (d :: path).head? = some slash :=
                fun h => hd (Option.some.inj h)
              have hmore := squeeze_ne_nil (List.cons_ne_nil d path)
              rw [squeeze_cons (fun h => hhead h.right),
                dropFinalSlash_cons slash hmore, ← ih, keep, if_pos rfl,
                if_neg (List.cons_ne_nil d path), if_neg (by decide),
                  if_neg hhead, keep_cons hd, keep_cons hd]
      · rw [keep_cons hc, ih, squeeze_cons (fun h => hc h.left)]
        cases path with
        | nil =>
            exact (if_neg (fun h => hc (Option.some.inj h))).symm
        | cons d path =>
            rw [dropFinalSlash_cons c (squeeze_ne_nil (List.cons_ne_nil d path))]

theorem keep_eq_normalForm (path : Text) : slash :: keep true (slash :: path) =
    normalForm (slash :: path) := by
  induction path with
  | nil =>
      decide
  | cons c path ih =>
      by_cases hc : c = slash
      · subst hc
        rw [keep_true_cons (List.cons_ne_nil slash path), ih, normalForm,
          normalForm, squeeze_slashes]
      · have hhead : ¬ (c :: path).head? = some slash :=
          fun h => hc (Option.some.inj h)
        have hmore := squeeze_ne_nil (List.cons_ne_nil c path)
        have hroot : ¬ slash :: squeeze (c :: path) = [slash] := fun h =>
          hmore (List.tail_eq_of_cons_eq h)
        have hsame : keep true (c :: path) = keep false (c :: path) := by
          rw [keep_cons hc, keep_cons hc]
        rw [keep_true_cons (List.cons_ne_nil c path), normalForm,
          squeeze_cons (fun h => hhead h.right), if_neg hroot,
          dropFinalSlash_cons slash hmore, ← keep_eq_squeeze, hsame]

/-!
# Names
-/

theorem names_nil : names [] = [] := by
  decide

theorem names_append (a b : Text) : names (a ++ slash :: b) = names a ++
    names b := by
  rw [names, List.splitOn_append_cons_self, List.filter_append]
  rfl

theorem names_slash (path : Text) : names (slash :: path) = names path :=
  names_append [] path

theorem names_plain {name : Text} (hslash : slash ∉ name) (hne : name ≠ []) :
    names name = [name] := by
  rw [names, List.splitOn_eq_singleton hslash]
  simp [hne]

theorem names_induction {P : Text -> Prop}
    (plain : forall name, slash ∉ name -> P name)
    (more : forall name path, slash ∉ name -> P path ->
    P (name ++ slash :: path)) (path : Text) : P path := by
  induction hn : path.length using Nat.strongRecOn generalizing path with
  | ind n ih =>
      by_cases hslash : slash ∈ path
      · rcases List.eq_append_cons_of_mem hslash with ⟨name, rest, rfl, hname⟩
        have hshorter : rest.length < n := by
          rw [← hn, List.length_append, List.length_cons]
          omega
        exact more name rest hname (ih rest.length hshorter rest rfl)
      · exact plain path hslash

theorem isName_names {path : Text} (hnull : (0 : UInt8) ∉ path) :
    forall name, name ∈ names path -> IsName name := by
  induction path using names_induction with
  | plain name hslash =>
      intro n hn
      by_cases hne : name = []
      · subst hne
        rw [names_nil] at hn
        cases hn
      · rw [names_plain hslash hne] at hn
        rw [List.mem_singleton.mp hn]
        exact ⟨hne, hslash, hnull⟩
  | more name path hslash ih =>
      intro n hn
      have hpath : (0 : UInt8) ∉ path := fun hmem =>
        hnull (List.mem_append_right name (List.mem_cons_of_mem slash hmem))
      rw [names_append, List.mem_append] at hn
      rcases hn with hn | hn
      · by_cases hne : name = []
        · subst hne
          rw [names_nil] at hn
          cases hn
        · rw [names_plain hslash hne] at hn
          rw [List.mem_singleton.mp hn]
          exact ⟨hne, hslash, fun hmem => hnull (List.mem_append_left _ hmem)⟩
      · exact ih hpath n hn

theorem names_segments {list : List Text}
    (h : forall name, name ∈ list -> IsName name) :
    names (segments list) = list := by
  induction list with
  | nil =>
      exact names_nil
  | cons name list ih =>
      have hname := h name List.mem_cons_self
      have hrest := ih (fun n hn => h n (List.mem_cons_of_mem name hn))
      have hsplit : segments (name :: list) = slash ::
          (name ++ segments list) := rfl
      rw [hsplit, names_slash]
      cases list with
      | nil =>
          show names (name ++ []) = [name]
          rw [List.append_nil, names_plain hname.slash hname.nonempty]
      | cons next list =>
          have hnext : segments (next :: list) = slash ::
              (next ++ segments list) := rfl
          rw [hnext, names_slash] at hrest
          rw [hnext, names_append, names_plain hname.slash hname.nonempty, hrest]
          rfl

theorem names_pathOf {list : List Text}
    (h : forall name, name ∈ list -> IsName name) : names (pathOf list) = list := by
  unfold pathOf
  split
  · next hnil =>
      rw [hnil]
      decide
  · exact names_segments h

/-- Behind a byte that is no slash, each name is kept with one slash in front of
it. -/
theorem keep_eq_segments {path : Text} (hnull : (0 : UInt8) ∉ path) :
    keep false (slash :: path) = segments (names path) := by
  induction path using names_induction with
  | plain name hslash =>
      by_cases hne : name = []
      · subst hne
        decide
      · have hkeep := keep_slash_name ⟨hne, hslash, hnull⟩ []
        rw [List.append_nil] at hkeep
        rw [hkeep, names_plain hslash hne]
        rfl
  | more name path hslash ih =>
      have hpath : (0 : UInt8) ∉ path := fun hmem =>
        hnull (List.mem_append_right name (List.mem_cons_of_mem slash hmem))
      rw [names_append]
      by_cases hne : name = []
      · subst hne
        rw [List.nil_append, keep_slashes, ih hpath, names_nil]
        rfl
      · have hname : (0 : UInt8) ∉ name := fun hmem =>
          hnull (List.mem_append_left _ hmem)
        rw [keep_slash_name ⟨hne, hslash, hname⟩, ih hpath, names_plain hslash hne]
        rfl

theorem normalForm_eq_pathOf {path : Text} (h : IsPath path) :
    normalForm path = pathOf (names path) := by
  cases path with
  | nil =>
      cases h.head
  | cons c path =>
      cases h.head
      have hnull : (0 : UInt8) ∉ path := fun hmem =>
        h.null (List.mem_cons_of_mem slash hmem)
      clear h
      rw [names_slash]
      induction path using names_induction with
      | plain name hslash =>
          by_cases hne : name = []
          · subst hne
            decide
          · have hkeep := keep_name ⟨hne, hslash, hnull⟩ true []
            rw [List.append_nil] at hkeep
            rw [← keep_eq_normalForm, keep_true_cons hne, hkeep,
              names_plain hslash hne]
            rfl
      | more name path hslash ih =>
          have hpath : (0 : UInt8) ∉ path := fun hmem =>
            hnull (List.mem_append_right name (List.mem_cons_of_mem slash hmem))
          rw [names_append]
          by_cases hne : name = []
          · subst hne
            rw [names_nil, List.nil_append, normalForm, squeeze_slashes]
            exact ih hpath
          · have hname : (0 : UInt8) ∉ name := fun hmem =>
              hnull (List.mem_append_left _ hmem)
            have hmore : name ++ slash :: path ≠ [] :=
              List.append_ne_nil_of_left_ne_nil hne _
            rw [← keep_eq_normalForm, keep_true_cons hmore,
              keep_name ⟨hne, hslash, hname⟩, keep_eq_segments hpath,
              names_plain hslash hne]
            rfl

/-!
# What is returned
-/

theorem IsPath.normalForm {path : Text} (h : IsPath path) :
    IsPath (normalForm path) := by
  rw [normalForm_eq_pathOf h]
  have hnames := isName_names h.null
  constructor
  · unfold pathOf
    split
    · rfl
    · next hne =>
        cases hlist : names path with
        | nil => exact absurd hlist hne
        | cons name list => rfl
  · exact null_not_mem_pathOf hnames

theorem normalForm_idempotent {path : Text} (h : IsPath path) :
    normalForm (normalForm path) = normalForm path := by
  rw [normalForm_eq_pathOf h.normalForm, normalForm_eq_pathOf h,
    names_pathOf (isName_names h.null)]

theorem returns_normalForm {path block : Text} (h : IsPath path)
    (hblock : path.length + 2 <= block.length) :
    Returns path block (normalForm path) := by
  have hreturns := killSlashesIn_of_room h (room_of_le h hblock)
  cases path with
  | nil =>
      cases h.head
  | cons c path =>
      cases h.head
      rw [keep_eq_normalForm] at hreturns
      exact hreturns

theorem pathKillSlashes_eq_normalForm {path : Text} (h : IsPath path) :
    pathKillSlashes path = normalForm path := by
  cases path with
  | nil =>
      cases h.head
  | cons c path =>
      cases h.head
      rw [pathKillSlashes_eq (fun hmem =>
        h.null (List.mem_cons_of_mem slash hmem)), keep_eq_normalForm]

theorem names_joined (controller path suffix : Text) :
    names (joined controller path suffix) =
    [bytes "sys", bytes "fs", bytes "cgroup"] ++
    (names controller ++ (names path ++ names suffix)) := by
  have hstart : bytes "/sys/fs/cgroup/" = bytes "/sys/fs/cgroup" ++ slash ::
      [] := by decide
  have hnames : names (bytes "/sys/fs/cgroup") =
      [bytes "sys", bytes "fs", bytes "cgroup"] := by decide
  rw [joined, hstart, List.append_assoc, List.cons_append, List.nil_append,
    names_append, names_append, names_append,
    hnames]

/--
The string that is returned is the normal form, which is left as it is when it
is passed again. What is returned for the texts that `join_path` and
`cg_read_subgroup` put together depends only on the names in their parts.
-/
theorem killSlashesIn_normalForm {path controller part suffix name : Text}
    (hpath : IsPath path)
    (hcontroller : (0 : UInt8) ∉ controller) (hpart : (0 : UInt8) ∉ part)
    (hsuffix : (0 : UInt8) ∉ suffix)
    (hname : (0 : UInt8) ∉ name) :
    (forall block : Text, path.length + 2 <= block.length ->
    Returns path block (normalForm path)) ∧
    (forall block : Text, (normalForm path).length + 2 <= block.length ->
      Returns (normalForm path) block (normalForm path)) ∧
    (forall block : Text, (joined controller part suffix).length + 2 <=
    block.length ->
      Returns (joined controller part suffix) block (pathOf
        ([bytes "sys", bytes "fs", bytes "cgroup"] ++
          (names controller ++ (names part ++ names suffix))))) ∧
    (forall block : Text, (path ++ slash :: name).length + 2 <= block.length ->
      Returns (path ++ slash :: name) block
        (pathOf (names path ++ names name))) := by
  have hjoined : IsPath (joined controller part suffix) := by
    constructor
    · rfl
    · have hstart : (0 : UInt8) ∉ bytes "/sys/fs/cgroup/" := by decide
      have hslash : (0 : UInt8) ≠ slash := by decide
      simp [joined, hstart, hslash, hcontroller, hpart, hsuffix]
  have hsub : IsPath (path ++ slash :: name) := by
    constructor
    · rw [List.head?_append, hpath.head]
      rfl
    · have hslash : (0 : UInt8) ≠ slash := by decide
      simp [hslash, hpath.null, hname]
  refine ⟨fun block => returns_normalForm hpath, fun block hblock =>
    ?_, fun block hblock => ?_, fun block hblock => ?_⟩
  · have hreturns := returns_normalForm hpath.normalForm hblock
    rw [normalForm_idempotent hpath] at hreturns
    exact hreturns
  · have hreturns := returns_normalForm hjoined hblock
    rw [normalForm_eq_pathOf hjoined, names_joined] at hreturns
    exact hreturns
  · have hreturns := returns_normalForm hsub hblock
    rw [normalForm_eq_pathOf hsub, names_append] at hreturns
    exact hreturns

theorem killSlashesIn_normalForm_runs :
    Returns (bytes "//a///b/") (List.replicate 10 7)
      (normalForm (bytes "//a///b/")) := by
  have hpath : IsPath (bytes "//a///b/") := ⟨by decide, by decide⟩
  have hnull : (0 : UInt8) ∉ bytes "x//y" := by decide
  exact (killSlashesIn_normalForm hpath hnull hnull hnull hnull).left _ (by decide)

end Cgtop
end Lepd
