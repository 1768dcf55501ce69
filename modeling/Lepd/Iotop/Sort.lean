import Lepd.Foundation.ExchangeSort
import Lepd.Iotop.Diff

/-!
# The order of the differences of iotop

`sort_diff` exchanges the entries of the array until they descend by a field,
turns them around if they are to ascend, and links them anew.
-/

namespace Lepd
namespace Iotop

open Foundation
open Ps (Text)

inductive SortBy where
  | pid
  | prio
  | user
  | read
  | write
  | swapin
  | io
  | command
deriving DecidableEq

inductive SortOrder where
  | desc
  | asc
deriving DecidableEq

/-- `>` on `double`. -/
class Greater (double : Type) where
  gt : double -> double -> Bool

def strcmp : Text -> Text -> Int
  | [], [] => 0
  | [], d :: _ => -(d.toNat : Int)
  | c :: _, [] => c.toNat
  | c :: cs, d :: ds => if c = d then strcmp cs ds else (c.toNat : Int) - d.toNat

section SortDiff

variable {double : Type} [Greater double]

/-- `found` for `d[k]` and `d[i]`; `strcmp` of a null pointer has no answer. -/
def found (sortBy : SortBy) (dk di : Stats double) : Option Bool :=
  match sortBy with
  | .prio => some (decide (dk.ioPrio > di.ioPrio))
  | .command => do
      let cmdline <- dk.cmdline
      let cmdline' <- di.cmdline
      some (decide (strcmp cmdline cmdline' > 0))
  | .pid => some (decide (dk.tid > di.tid))
  | .user => some (decide (dk.euid > di.euid))
  | .read => some (Greater.gt dk.readVal di.readVal)
  | .write => some (Greater.gt dk.writeVal di.writeVal)
  | .swapin => some (Greater.gt dk.swapinVal di.swapinVal)
  | .io => some (Greater.gt dk.blkioVal di.blkioVal)

/-- Each entry is copied to `rev`, from the last one to the first one, and all
are copied back. -/
def turnAround (len : Nat) (d : List (Stats double)) :
    Option (List (Stats double)) := do
  let rev <- (List.range len).mapM (fun i => d[len - i - 1]?)
  Block.write d 0 rev

def orient (sortOrder : SortOrder) (len : Nat) (d : List (Stats double)) :
    Option (List (Stats double)) :=
  match sortOrder with
  | .asc => turnAround len d
  | .desc => some d

def setNext (i : Nat) (next : Option Nat) (d : List (Stats double)) :
    Option (List (Stats double)) := do
  let s <- d[i]?
  Block.write d i [s.link next]

def relink (len : Nat) (d : List (Stats double)) :
    Option (List (Stats double)) := do
  let d <- (List.range len).foldlM (fun d i => setNext i (some (i + 1)) d) d
  setNext (len - 1) none d

/-- `sort_diff`, for which `len` is the number of entries that the pointers lead
through. -/
def sortDiff (sortBy : SortBy) (sortOrder : SortOrder)
    (d : List (Stats double)) : Option (List (Stats double)) := do
  let chain <- follow d d.length (some 0)
  let len := chainlen chain
  let d <- exchangeSort (found sortBy) len d
  let d <- orient sortOrder len d
  relink len d

/-!
# The fields
-/

theorem strcmp_neg (s : Text) : forall t : Text, strcmp t s = -strcmp s t := by
  induction s with
  | nil =>
      intro t
      cases t with
      | nil => rfl
      | cons d ds => exact (Int.neg_neg _).symm
  | cons c cs ih =>
      intro t
      cases t with
      | nil => rfl
      | cons d ds =>
          unfold strcmp
          by_cases hcd : c = d
          · rw [if_pos hcd, if_pos hcd.symm, ih]
          · rw [if_neg hcd, if_neg (Ne.symm hcd)]
            omega

theorem strcmp_trans (s : Text) : forall t u : Text, 0 < strcmp s t ->
    0 < strcmp t u -> 0 < strcmp s u := by
  induction s with
  | nil =>
      intro t u hst
      cases t with
      | nil => cases hst
      | cons d ds =>
          unfold strcmp at hst
          omega
  | cons c cs ih =>
      intro t u hst htu
      cases t with
      | nil =>
          cases u with
          | nil => cases htu
          | cons e es =>
              unfold strcmp at htu
              omega
      | cons d ds =>
          cases u with
          | nil =>
              unfold strcmp at hst htu ⊢
              split at hst
              · next hcd =>
                  rw [hcd]
                  exact htu
              · omega
          | cons e es =>
              unfold strcmp at hst htu ⊢
              by_cases hcd : c = d
              · subst hcd
                by_cases hce : c = e
                · rw [if_pos hce] at htu ⊢
                  rw [if_pos rfl] at hst
                  exact ih ds es hst htu
                · rw [if_neg hce] at htu ⊢
                  exact htu
              · rw [if_neg hcd] at hst
                by_cases hde : d = e
                · subst hde
                  rw [if_neg hcd]
                  exact hst
                · rw [if_neg hde] at htu
                  have hce : c ≠ e := by
                    intro heq
                    subst heq
                    omega
                  rw [if_neg hce]
                  omega

structure Ranks (values : List double) : Prop where
  asymm : forall x y, x ∈ values -> y ∈ values -> Greater.gt x y = true ->
    Greater.gt y x = false
  trans : forall x y z, x ∈ values -> y ∈ values -> z ∈ values ->
    Greater.gt x y = true -> Greater.gt y z = true ->
    Greater.gt x z = true

/-- The values of a field are ordered: there are no null pointers among them,
and the numbers are no NaN. -/
def Sortable (sortBy : SortBy) (d : List (Stats double)) : Prop :=
  match sortBy with
  | .pid => True
  | .prio => True
  | .user => True
  | .read => Ranks (d.map Stats.readVal)
  | .write => Ranks (d.map Stats.writeVal)
  | .swapin => Ranks (d.map Stats.swapinVal)
  | .io => Ranks (d.map Stats.blkioVal)
  | .command => forall s, s ∈ d -> s.cmdline ≠ none

section Fields

variable {among : Stats double -> Prop}

omit [Greater double] in
theorem compares_int (field : Stats double -> Int) :
    Compares (fun x y : Stats double => some (decide (field x > field y)))
      among where
  defined _ _ := ⟨_, rfl⟩
  asymm _ _ h := by
    rw [Option.some.injEq, decide_eq_true_iff] at h
    rw [Option.some.injEq, decide_eq_false_iff_not]
    omega
  trans _ _ _ h h' := by
    rw [Option.some.injEq, decide_eq_true_iff] at h h' ⊢
    omega

theorem compares_double {d : List (Stats double)}
    (field : Stats double -> double) (h : Ranks (d.map field)) :
    Compares (fun x y => some (Greater.gt (field x) (field y)))
      (fun s => s ∈ d) where
  defined _ _ := ⟨_, rfl⟩
  asymm hx hy hgt := by
    rw [Option.some.injEq] at hgt ⊢
    exact h.asymm _ _ (List.mem_map_of_mem hx) (List.mem_map_of_mem hy) hgt
  trans hx hy hz hgt hgt' := by
    rw [Option.some.injEq] at hgt hgt' ⊢
    exact h.trans _ _ _ (List.mem_map_of_mem hx) (List.mem_map_of_mem hy)
      (List.mem_map_of_mem hz) hgt hgt'

theorem found_command {x y : Stats double} {s t : Text}
    (hx : x.cmdline = some s) (hy : y.cmdline = some t) :
    found .command x y = some (decide (strcmp s t > 0)) := by
  unfold found
  rw [hx, hy]
  rfl

theorem compares_command {d : List (Stats double)}
    (h : forall s, s ∈ d -> s.cmdline ≠ none) :
    Compares (found .command : Stats double -> Stats double -> Option Bool)
      (fun s => s ∈ d) where
  defined hx hy := by
    rcases Option.ne_none_iff_exists'.mp (h _ hx) with ⟨s, hs⟩
    rcases Option.ne_none_iff_exists'.mp (h _ hy) with ⟨t, ht⟩
    exact ⟨_, found_command hs ht⟩
  asymm hx hy hgt := by
    rcases Option.ne_none_iff_exists'.mp (h _ hx) with ⟨s, hs⟩
    rcases Option.ne_none_iff_exists'.mp (h _ hy) with ⟨t, ht⟩
    rw [found_command hs ht, Option.some.injEq, decide_eq_true_iff] at hgt
    rw [found_command ht hs, Option.some.injEq, decide_eq_false_iff_not, strcmp_neg]
    omega
  trans hx hy hz hgt hgt' := by
    rcases Option.ne_none_iff_exists'.mp (h _ hx) with ⟨s, hs⟩
    rcases Option.ne_none_iff_exists'.mp (h _ hy) with ⟨t, ht⟩
    rcases Option.ne_none_iff_exists'.mp (h _ hz) with ⟨u, hu⟩
    rw [found_command hs ht, Option.some.injEq, decide_eq_true_iff] at hgt
    rw [found_command ht hu, Option.some.injEq, decide_eq_true_iff] at hgt'
    rw [found_command hs hu, Option.some.injEq, decide_eq_true_iff]
    exact strcmp_trans s t u hgt hgt'

end Fields

theorem found_compares {sortBy : SortBy} {d : List (Stats double)}
    (h : Sortable sortBy d) :
    Compares (found sortBy) (fun s => s ∈ d) := by
  cases sortBy with
  | pid => exact compares_int Stats.tid
  | prio => exact compares_int Stats.ioPrio
  | user => exact compares_int Stats.euid
  | read => exact compares_double Stats.readVal h
  | write => exact compares_double Stats.writeVal h
  | swapin => exact compares_double Stats.swapinVal h
  | io => exact compares_double Stats.blkioVal h
  | command => exact compares_command h

/-!
# The copy
-/

omit [Greater double] in
theorem readBack_ok {d : List (Stats double)} {m : Nat} (h : m <= d.length) :
    (List.range' (d.length - m) m).mapM (fun i => d[d.length - i - 1]?) =
    some (d.take m).reverse := by
  induction m with
  | zero => rfl
  | succ m ih =>
      have hread : d[d.length - (d.length - (m + 1)) - 1]? = some d[m] := by
        have hindex : d.length - (d.length - (m + 1)) - 1 = m := by omega
        rw [hindex]
        exact List.getElem?_eq_getElem h
      have hnext : d.length - (m + 1) + 1 = d.length - m := by omega
      rw [List.range'_succ, List.mapM_cons, hread, hnext, ih (Nat.le_of_succ_le h),
        List.take_succ_eq_append_getElem h, List.reverse_append]
      rfl

omit [Greater double] in
theorem turnAround_ok (d : List (Stats double)) :
    turnAround d.length d = some d.reverse := by
  have hread := readBack_ok (Nat.le_refl d.length)
  rw [Nat.sub_self, List.take_length, ← List.range_eq_range'] at hread
  have hfits : 0 + d.reverse.length <= d.length := by
    rw [Nat.zero_add, List.length_reverse]
  unfold turnAround
  rw [hread]
  show Block.write d 0 d.reverse = _
  rw [Block.write_of_le hfits, Nat.zero_add, List.length_reverse,
    List.drop_length, List.append_nil]
  rfl

/-!
# The links
-/

omit [Greater double] in
theorem setNext_at (front : List (Stats double)) (s : Stats double)
    (rest : List (Stats double)) (next : Option Nat) :
    setNext front.length next (front ++ s :: rest) =
      some ((front ++ [s.link next]) ++ rest) := by
  unfold setNext
  rw [getElem?_front]
  exact Block.write_next front s rest (s.link next)

omit [Greater double] in
theorem links_ok (rest : List (Stats double)) : forall front : List (Stats double),
    (List.range' front.length rest.length).foldlM
    (fun d i => setNext i (some (i + 1)) d) (front ++ rest) =
      some (front ++ rest.mapIdx (fun j s =>
        s.link (some (front.length + j + 1)))) := by
  induction rest with
  | nil =>
      intro front
      rfl
  | cons s rest ih =>
      intro front
      have hmore := ih (front ++ [s.link (some (front.length + 1))])
      rw [List.length_append, List.length_singleton,
        List.append_assoc _ _ (List.mapIdx _ rest),
        List.singleton_append] at hmore
      have hindex : (fun j (s : Stats double) =>
        s.link (some (front.length + 1 + j + 1))) =
          fun j s => s.link (some (front.length + (j + 1) + 1)) := by
        funext j s
        rw [Nat.add_assoc front.length 1 j, Nat.add_comm 1 j]
      rw [List.length_cons, List.range'_succ, List.foldlM_cons, setNext_at,
        List.mapIdx_cons]
      rw [hindex] at hmore
      exact hmore

omit [Greater double] in
theorem relink_ok {d : List (Stats double)} (hne : d ≠ []) :
    exists d', relink d.length d = some d' ∧ IsLinked d d' := by
  have hpos : 0 < d.length := List.length_pos_iff.mpr hne
  have hlinks := links_ok d []
  rw [List.length_nil, List.nil_append, List.nil_append,
    ← List.range_eq_range'] at hlinks
  generalize hlinked : d.mapIdx (fun j s => s.link (some (0 + j + 1))) =
    linked at hlinks
  have hlength : linked.length = d.length := by
    rw [← hlinked, List.length_mapIdx]
  have hitems : forall i, linked[i]? =
      d[i]?.map (fun s => Stats.link s (some (i + 1))) := by
    intro i
    rw [← hlinked, List.getElem?_mapIdx, Nat.zero_add]
  have hlast : d.length - 1 < linked.length := by omega
  refine ⟨linked.set (d.length - 1) (linked[d.length - 1].link none), ?_,
    isLinked_set hlength hpos hlast hitems⟩
  unfold relink setNext at *
  rw [hlinks]
  show (linked[d.length - 1]?.bind fun s =>
    Block.write linked (d.length - 1) [s.link none]) = _
  rw [List.getElem?_eq_getElem hlast, Option.bind_some, Block.write_single hlast]

omit [Greater double] in
theorem IsLinked.entries {d d' : List (Stats double)} (h : IsLinked d d') :
    d'.map (fun s => s.link none) = d.map (fun s => s.link none) := by
  apply List.ext_getElem?
  intro i
  rw [List.getElem?_map, List.getElem?_map, h.right, Option.map_map]
  rfl

/-!
# What is left
-/

/-- The entry `y` may stand behind `x`: it is not greater, or not less if they
ascend. -/
def MayFollow (sortBy : SortBy) (sortOrder : SortOrder) (x y : Stats double) :
    Prop :=
  match sortOrder with
  | .desc => found sortBy y x = some false
  | .asc => found sortBy x y = some false

/-- The array has the entries of the other one in order, and its first entry
leads through all of them. -/
structure Sorted (sortBy : SortBy) (sortOrder : SortOrder)
    (d d' : List (Stats double)) : Prop where
  entries : (d'.map (fun s => s.link none)).Perm (d.map (fun s => s.link none))
  order : d'.Pairwise (MayFollow sortBy sortOrder)
  chain : follow d' d'.length (some 0) = some d'

theorem mayFollow_link (sortBy : SortBy) (sortOrder : SortOrder)
    (x y : Stats double) :
    MayFollow sortBy sortOrder (x.link none) (y.link none) <->
      MayFollow sortBy sortOrder x y := by
  cases sortOrder with
  | desc => cases sortBy <;> exact Iff.rfl
  | asc => cases sortBy <;> exact Iff.rfl

theorem IsLinked.order {sortBy : SortBy} {sortOrder : SortOrder}
    {d d' : List (Stats double)} (h : IsLinked d d')
    (horder : d.Pairwise (MayFollow sortBy sortOrder)) :
    d'.Pairwise (MayFollow sortBy sortOrder) := by
  have hunlinked : (d.map (fun s => s.link none)).Pairwise
      (MayFollow sortBy sortOrder) :=
    List.pairwise_map.mpr
      (horder.imp (fun hxy => (mayFollow_link sortBy sortOrder _ _).mpr hxy))
  rw [← h.entries] at hunlinked
  exact (List.pairwise_map.mp hunlinked).imp (fun hxy =>
    (mayFollow_link sortBy sortOrder _ _).mp hxy)

/-- The entries once they are exchanged, and turned around if they are to ascend. -/
theorem ordered_ok {sortBy : SortBy} (sortOrder : SortOrder)
    {d : List (Stats double)} (h : Sortable sortBy d) :
    exists sorted ordered, exchangeSort (found sortBy) d.length d = some sorted ∧
      orient sortOrder d.length sorted = some ordered ∧
      ordered.Perm d ∧ ordered.Pairwise (MayFollow sortBy sortOrder) := by
  rcases exchangeSort_ok (found_compares h) d (fun _ hs => hs) with
    ⟨sorted, hrun, hperm, hsorted⟩
  cases sortOrder with
  | desc =>
      exact ⟨sorted, sorted, hrun, rfl, hperm, hsorted⟩
  | asc =>
      refine ⟨sorted, sorted.reverse, hrun, ?_,
        (List.reverse_perm sorted).trans hperm, List.pairwise_reverse.mpr hsorted⟩
      rw [orient, ← hperm.length_eq]
      exact turnAround_ok sorted

/--
An array of linked entries is left with the same entries in the order of the
field, linked from the first one to the last one.
-/
theorem sortDiff_sorts (sortBy : SortBy) (sortOrder : SortOrder)
    {d : List (Stats double)} (hne : d ≠ [])
    (hchained : Chained d) (h : Sortable sortBy d) :
    exists d', sortDiff sortBy sortOrder d = some d' ∧
      Sorted sortBy sortOrder d d' := by
  rcases ordered_ok sortOrder h with
    ⟨sorted, ordered, hsort, horder, hperm, hordered⟩
  have hne' : ordered ≠ [] := fun hnil =>
    hne (List.length_eq_zero_iff.mp (by rw [← hperm.length_eq, hnil]; rfl))
  rcases relink_ok hne' with ⟨d', hrelink, hlinked⟩
  refine ⟨d', ?_, ?_, hlinked.order hordered, ?_⟩
  · unfold sortDiff
    rw [follow_all hchained hne]
    show (exchangeSort (found sortBy) d.length d).bind (fun sorted =>
      (orient sortOrder d.length sorted).bind (relink d.length)) = _
    rw [hsort, Option.bind_some, horder, Option.bind_some, ← hperm.length_eq]
    exact hrelink
  · rw [hlinked.entries]
    exact hperm.map _
  · apply follow_all hlinked.chained
    intro hnil
    have hlength := hlinked.left
    rw [hnil] at hlength
    exact hne' (List.length_eq_zero_iff.mp hlength.symm)

/-- The array that `create_diff` answers is sorted, and the number of its
entries is an `int`. -/
theorem sortDiff_createDiff [Arithmetic double] (settings : Settings)
    (sortBy : SortBy) (sortOrder : SortOrder)
    {cs ps diff : List (Stats double)} {n : Nat}
    (hdiff : createDiff settings cs ps = some (some (diff, n)))
    (h : Sortable sortBy diff) :
    sizeofStats * diff.length < 2 ^ 31 ∧
      exists d', sortDiff sortBy sortOrder diff = some d' ∧
        Sorted sortBy sortOrder diff d' := by
  have hne : cs ≠ [] := by
    intro hnil
    rw [hnil, createDiff_nil] at hdiff
    cases hdiff
  by_cases hroom : sizeofStats * cs.length < 2 ^ 31
  · rcases createDiff_of_room settings ps hne hroom with ⟨answered, hrun, hlinked⟩
    cases hrun.symm.trans hdiff
    have hlength : diff.length = cs.length := hlinked.left.trans (List.length_map _)
    refine ⟨hlength.symm ▸ hroom, sortDiff_sorts sortBy sortOrder ?_
      hlinked.chained h⟩
    intro hnil
    rw [hnil] at hlength
    exact hne (List.length_eq_zero_iff.mp hlength.symm)
  · rw [createDiff_of_no_room settings ps (Nat.le_of_not_lt hroom)] at hdiff
    cases hdiff

end SortDiff

instance exactGreater : Greater Int where
  gt x y := decide (y < x)

theorem ranks_int (values : List Int) : Ranks values where
  asymm x y _ _ h := by
    have hlt : y < x := of_decide_eq_true h
    exact decide_eq_false (fun hgt => Int.lt_asymm hlt hgt)
  trans x y z _ _ _ h h' := by
    have hlt : y < x := of_decide_eq_true h
    have hlt' : z < y := of_decide_eq_true h'
    exact decide_eq_true (Int.lt_trans hlt' hlt)

def waiter (tid blkioVal : Int) (next : Option Nat) : Stats Int :=
  ⟨tid, 0, 0, 0, 0, blkioVal, 0, 0, 0, 0, 0, none, next⟩

theorem sortDiff_sorts_ascending : exists d',
    sortDiff .io .asc [waiter 7 1 (some 1), waiter 8 3 (some 2),
      waiter 9 2 none] = some d' ∧
      Sorted .io .asc [waiter 7 1 (some 1), waiter 8 3 (some 2),
        waiter 9 2 none] d' := by
  apply sortDiff_sorts .io .asc (List.cons_ne_nil _ _)
  · intro i s hs
    match i with
    | 0 =>
        cases hs
        rfl
    | 1 =>
        cases hs
        rfl
    | 2 =>
        cases hs
        rfl
    | i + 3 =>
        cases hs
  · exact ranks_int _

example :
    (sortDiff .io .asc [waiter 7 1 (some 1), waiter 8 3 (some 2),
    waiter 9 2 none]).map (List.map Stats.tid) =
    some [7, 9, 8] := by
  decide

end Iotop
end Lepd
