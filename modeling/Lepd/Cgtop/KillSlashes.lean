import Lepd.Cgtop.Paths
import Lepd.Foundation.Block

/-!
# Slashes in a block

`path_kill_slashes` on the block that its result is put into: what is read and
written there, how much of the block that takes, and the path that is left.
-/

namespace Lepd
namespace Cgtop

open Foundation
open Ps (Text bytes byte)
open CJson (cString)

/-- `*(f+i) = c`. -/
def store (f : Text) (i : Nat) (c : UInt8) : Option Text :=
  Block.write f i [c]

structure Killing where
  f : Text
  i : Nat
  x : Nat

def Killing.put (k : Killing) (c : UInt8) : Option Killing :=
  (store k.f (k.i + 1) c).map (fun f => { k with f := f, i := k.i + 1 })

def Killing.drop (k : Killing) : Killing :=
  { k with x := k.x + 1 }

def Killing.turn (k : Killing) (c next : UInt8) : Option Killing := do
  let k <- (if c = slash ∧ next = 0 then (k.put 0).map Killing.drop else some k)
  let k <- (if c = slash then do
      let last <- k.f[k.i]?
      if last = slash then some k.drop
      else if next = slash then some k.drop
      else k.put c
    else some k)
  if c ≠ slash then k.put c else some k

/-- The loop over what is left of `path`, behind which there is a null byte. -/
def Killing.loop : Text -> Killing -> Option Killing
  | [], k => some k
  | c :: path, k => do
      let k <- k.turn c (path.headD 0)
      Killing.loop path k

/-- `while(*p) { *p = '\0'; }` with `p` at `f+y`, which ends when a null byte is
stored there. -/
def cut (f : Text) (y : Nat) : Option Text := do
  let p <- f[y]?
  if p ≠ 0 then store f y 0 else some f

/-- `path_kill_slashes`, from the block that `malloc` answers to the block that
is returned. -/
def killSlashesIn (path block : Text) : Option Text := do
  let j := path.length
  let f <- Block.memset block 0 0 j
  let f <- store f 0 (path.headD 0)
  let k <- Killing.loop path ⟨f, 0, 0⟩
  cut k.f (j - k.x + 1)

/-!
# What the loop does to the block
-/

/-- What a turn stores behind the bytes `f`, and how many slashes it leaves out. -/
def added (f : Text) (c : UInt8) (path : Text) : Text × Nat :=
  if c = slash then
    if path = [] then ([0, slash], 1)
    else if f.getLast? = some slash then ([], 1)
    else if path.head? = some slash then ([], 1)
    else ([slash], 0)
  else ([c], 0)

theorem killSlashes_cons (f : Text) (x : Nat) (c : UInt8) (path : Text) :
    killSlashes f x (c :: path) = killSlashes (f ++ (added f c path).1)
      (x + (added f c path).2) path := by
  rw [killSlashes]
  unfold added
  by_cases hc : c = slash
  · subst hc
    by_cases hlast : path = []
    · subst hlast
      have hzero : ¬ (0 : UInt8) = slash := by decide
      simp [killSlashes, hzero]
    · simp only [hlast, and_false, if_false, if_true]
      split
      · rw [List.append_nil]
      · split
        · rw [List.append_nil]
        · rfl
  · simp [hc]

def Killing.at (f rest : Text) (x : Nat) : Killing :=
  ⟨f ++ rest, f.length - 1, x⟩

theorem store_nil (f : Text) (c : UInt8) : store (f ++ []) f.length c = none :=
  Block.write_end f c

theorem store_cons (f : Text) (r : UInt8) (rest : Text) (c : UInt8) :
    store (f ++ r :: rest) f.length c = some ((f ++ [c]) ++ rest) :=
  Block.write_next f r rest c

section Turn

variable {f : Text}

theorem at_index (hf : f ≠ []) : f.length - 1 + 1 = f.length :=
  Nat.sub_add_cancel (List.length_pos_iff.mpr hf)

theorem at_last (hf : f ≠ []) (rest : Text) :
    (f ++ rest)[f.length - 1]? = f.getLast? := by
  have hlt : f.length - 1 < f.length := by
    have hpos := List.length_pos_iff.mpr hf
    omega
  rw [List.getElem?_append_left hlt, List.getLast?_eq_getElem?]

theorem headD_eq_zero {path : Text} (hnull : (0 : UInt8) ∉ path) :
    path.headD 0 = 0 <-> path = [] := by
  cases path with
  | nil =>
      exact ⟨fun _ => rfl, fun _ => rfl⟩
  | cons c path =>
      constructor
      · intro h
        exact absurd (h ▸ List.mem_cons_self) hnull
      · intro h
        cases h

theorem headD_eq_slash (path : Text) : path.headD 0 = slash <->
    path.head? = some slash := by
  cases path with
  | nil =>
      exact ⟨fun h => absurd h (by decide), fun h => nomatch h⟩
  | cons c path =>
      exact ⟨congrArg some, Option.some.inj⟩

theorem put_at (hf : f ≠ []) (rest : Text) (x : Nat) (c : UInt8) :
    (Killing.at f rest x).put c = if 1 <= rest.length then
    some (Killing.at (f ++ [c]) (rest.drop 1) x) else none := by
  unfold Killing.put Killing.at
  dsimp only
  rw [at_index hf, List.length_append, List.length_singleton, Nat.add_sub_cancel]
  cases rest with
  | nil =>
      rw [store_nil]
      rfl
  | cons r rest =>
      rw [store_cons]
      rfl

theorem getElem_at (hf : f ≠ []) (rest : Text) (x : Nat) :
    (Killing.at f rest x).f[(Killing.at f rest x).i]? = f.getLast? :=
  at_last hf rest

@[simp] theorem drop_at (f rest : Text) (x : Nat) :
    (Killing.at f rest x).drop = Killing.at f rest (x + 1) := rfl

theorem turn_at (hf : f ≠ []) (rest : Text) (x : Nat) (c : UInt8) {path : Text}
    (hnull : (0 : UInt8) ∉ path) :
    (Killing.at f rest x).turn c (path.headD 0) =
      if (added f c path).1.length <= rest.length then
        some (Killing.at (f ++ (added f c path).1)
          (rest.drop (added f c path).1.length) (x + (added f c path).2))
      else none := by
  have hread := getElem_at hf rest x
  rcases List.getLast?_isSome.mpr hf |> Option.isSome_iff_exists.mp with
    ⟨last, hlast⟩
  rw [hlast] at hread
  have hzero := headD_eq_zero hnull
  have hslash := headD_eq_slash path
  generalize path.headD 0 = next at hzero hslash
  unfold Killing.turn added
  by_cases hc : c = slash
  · subst hc
    by_cases hend : path = []
    · subst hend
      have hne : f ++ [(0 : UInt8)] ≠ [] :=
        List.append_ne_nil_of_right_ne_nil f (List.cons_ne_nil 0 [])
      have hplain : ¬ (0 : UInt8) = slash := by decide
      cases hzero.mpr rfl
      cases rest with
      | nil =>
          simp [put_at hf]
      | cons r rest =>
          have hget := getElem_at hne rest (x + 1)
          rw [List.getLast?_concat] at hget
          have hput := put_at hne rest (x + 1) slash
          simp [put_at hf, hget, hplain, hput]
    · have hmore : ¬ next = 0 := fun h => hend (hzero.mp h)
      by_cases hsame : last = slash
      · simp [hread, hlast, hsame, hend, hmore]
      · by_cases hnext : next = slash
        · have hplain : ¬ slash = 0 := by decide
          simp [hread, hlast, hsame, hend, hplain, hnext, hslash.mp hnext]
        · have hhead : ¬ path.head? = some slash := fun h => hnext (hslash.mpr h)
          simp [hread, hlast, hsame, hend, hmore, hnext, hhead, put_at hf]
  · simp [hc, put_at hf]

theorem killSlashes_length (f : Text) (x : Nat) (path : Text) :
    f.length <= (killSlashes f x path).1.length := by
  rw [(killSlashes_spec path f x).left, List.length_append]
  exact Nat.le_add_right _ _

theorem loop_at : forall {path f : Text}, (0 : UInt8) ∉ path -> f ≠ [] ->
    forall (rest : Text) (x : Nat),
    Killing.loop path (Killing.at f rest x) =
      if (killSlashes f x path).1.length <= f.length + rest.length then
        some (Killing.at (killSlashes f x path).1
          (rest.drop ((killSlashes f x path).1.length - f.length))
          (killSlashes f x path).2)
      else none := by
  intro path
  induction path with
  | nil =>
      intro f _ _ rest x
      have hfits : f.length <= f.length + rest.length := Nat.le_add_right _ _
      show some (Killing.at f rest x) = if f.length <= f.length + rest.length then
        some (Killing.at f (rest.drop (f.length - f.length)) x) else none
      rw [if_pos hfits, Nat.sub_self, List.drop_zero]
  | cons c path ih =>
      intro f hnull hf rest x
      have hnull' : (0 : UInt8) ∉ path := fun hmem =>
        hnull (List.mem_cons_of_mem c hmem)
      have hf' : f ++ (added f c path).1 ≠ [] :=
        List.append_ne_nil_of_left_ne_nil hf _
      have hlonger := killSlashes_length (f ++ (added f c path).1)
        (x + (added f c path).2) path
      rw [List.length_append] at hlonger
      rw [Killing.loop, turn_at hf rest x c hnull', killSlashes_cons]
      by_cases hroom : (added f c path).1.length <= rest.length
      · rw [if_pos hroom]
        show Killing.loop path _ = _
        rw [ih hnull' hf', List.length_append, List.length_drop, List.drop_drop]
        have hsum : f.length + (added f c path).1.length +
            (rest.length - (added f c path).1.length) =
            f.length + rest.length := by
          omega
        have hbehind : (added f c path).1.length +
            ((killSlashes (f ++ (added f c path).1)
            (x + (added f c path).2) path).1.length -
              (f.length + (added f c path).1.length)) =
            (killSlashes (f ++ (added f c path).1) (x + (added f c path).2)
              path).1.length - f.length := by
          omega
        rw [hsum, hbehind]
      · rw [if_neg hroom, if_neg (by omega)]
        rfl

end Turn

/-!
# The block that is returned
-/

/-- A path that starts with a slash, as the bytes of a C string. -/
structure IsPath (path : Text) : Prop where
  head : path.head? = some slash
  null : (0 : UInt8) ∉ path

/-- The bytes at the front of a block, with a null byte behind them. -/
def IsString (text block : Text) : Prop :=
  (0 : UInt8) ∉ text ∧ exists rest, block = text ++ 0 :: rest

/-- `path_kill_slashes` stays in the block, and a string is left there. -/
def Returns (path block text : Text) : Prop :=
  exists f, killSlashesIn path block = some f ∧ IsString text f

/-- The block takes all that the loop stores, and the byte that is looked at
behind the result. -/
structure Room (path block : Text) : Prop where
  cleared : path.length <= block.length
  stored : (keep true path).length + (beyond path).length + 1 <= block.length
  behind : (keep true path).length + 1 < block.length

section Block

variable {path block : Text}

theorem cleared_at (h : IsPath path) (hroom : path.length <= block.length) :
    exists rest,
    rest.length + 1 = block.length ∧
      (Block.memset block 0 0 path.length).bind
        (fun f => store f 0 (path.headD 0)) = some ([slash] ++ rest) := by
  cases path with
  | nil =>
      cases h.head
  | cons c path =>
      cases h.head
      have hset : Block.memset block 0 0 (slash :: path).length =
          some (0 :: (List.replicate path.length 0 ++
            block.drop (path.length + 1))) := by
        have hfits :
            0 + (List.replicate (path.length + 1) (0 : UInt8)).length <=
            block.length := by
          rw [List.length_replicate, Nat.zero_add]
          exact hroom
        show Block.write block 0 (List.replicate (path.length + 1) 0) = _
        rw [Block.write_of_le hfits, List.length_replicate, Nat.zero_add]
        rfl
      refine ⟨List.replicate path.length 0 ++ block.drop (path.length + 1), ?_, ?_⟩
      · rw [List.length_append, List.length_replicate, List.length_drop]
        have hle : path.length + 1 <= block.length := hroom
        omega
      · rw [hset]
        exact store_cons [] 0 _ slash

theorem killSlashes_first (path : Text) :
    (killSlashes [slash] 0 path).1 = (slash :: keep true path) ++ beyond path ∧
      (killSlashes [slash] 0 path).2 + (keep true path).length = path.length := by
  have hlast : decide ([slash].getLast? = some slash) = true := rfl
  have hspec := killSlashes_spec path [slash] 0
  rw [hlast, Nat.zero_add] at hspec
  exact hspec

theorem null_not_mem_keep (h : IsPath path) :
    (0 : UInt8) ∉ slash :: keep true path := by
  intro hmem
  rcases List.mem_cons.mp hmem with heq | hmem
  · cases heq
  · exact h.null (keep_subset true path 0 hmem)

theorem cut_append (text : Text) {cells : Text} (hcells : cells ≠ []) : exists rest,
    cut (text ++ cells) text.length = some (text ++ 0 :: rest) := by
  cases cells with
  | nil =>
      exact absurd rfl hcells
  | cons p rest =>
      have hread : (text ++ p :: rest)[text.length]? = some p := by
        rw [List.getElem?_append_right (Nat.le_refl _), Nat.sub_self]
        rfl
      refine ⟨rest, ?_⟩
      unfold cut
      rw [hread]
      by_cases hp : p = 0
      · subst hp
        rfl
      · show (if p ≠ 0 then store (text ++ p :: rest) text.length 0
          else some (text ++ p :: rest)) = _
        rw [if_pos hp, store_cons, List.append_assoc]
        rfl

theorem cut_length (f : Text) : cut f f.length = none := by
  unfold cut
  rw [List.getElem?_eq_none (Nat.le_refl _)]
  rfl

theorem killSlashesIn_eq (h : IsPath path)
    (hroom : path.length <= block.length) : exists rest : Text,
    rest.length + 1 = block.length ∧ killSlashesIn path block =
      if (keep true path).length + (beyond path).length + 1 <= block.length then
        cut ((slash :: keep true path) ++
          (beyond path ++ rest.drop ((keep true path).length +
          (beyond path).length)))
          (slash :: keep true path).length
      else none := by
  rcases cleared_at h hroom with ⟨rest, hlength, hcleared⟩
  rcases killSlashes_first path with ⟨htext, hcount⟩
  have hloop := loop_at h.null (List.cons_ne_nil slash []) rest 0
  have hstored : (killSlashes [slash] 0 path).1.length =
      (keep true path).length + (beyond path).length + 1 := by
    rw [htext, List.length_append, List.length_cons]
    omega
  have hroom' : [slash].length + rest.length = block.length := by
    rw [List.length_singleton]
    omega
  have hy : path.length - (killSlashes [slash] 0 path).2 + 1 =
      (slash :: keep true path).length := by
    rw [List.length_cons]
    omega
  refine ⟨rest, hlength, ?_⟩
  have hrun : killSlashesIn path block =
      (Killing.loop path (Killing.at [slash] rest 0)).bind
      (fun k => cut k.f (path.length - k.x + 1)) := by
    show (Block.memset block 0 0 path.length).bind (fun f =>
      (store f 0 (path.headD 0)).bind
      (fun f => (Killing.loop path ⟨f, 0, 0⟩).bind (fun k =>
        cut k.f (path.length - k.x + 1)))) = _
    rw [← Option.bind_assoc, hcleared]
    rfl
  rw [hrun, hloop, hstored, hroom']
  split
  · show cut ((killSlashes [slash] 0 path).1 ++
      rest.drop ((keep true path).length + (beyond path).length + 1 - 1))
      (path.length - (killSlashes [slash] 0 path).2 + 1) = _
    rw [htext, hy, Nat.add_sub_cancel, List.append_assoc]
  · rfl

theorem killSlashesIn_of_room (h : IsPath path) (hroom : Room path block) :
    Returns path block (slash :: keep true path) := by
  rcases killSlashesIn_eq h hroom.cleared with ⟨rest, hlength, hrun⟩
  rw [if_pos hroom.stored] at hrun
  have hcells : beyond path ++ rest.drop
      ((keep true path).length + (beyond path).length) ≠ [] := by
    intro hnil
    have hzero := congrArg List.length hnil
    rw [List.length_append, List.length_drop, List.length_nil] at hzero
    have hbehind := hroom.behind
    omega
  rcases cut_append (slash :: keep true path) hcells with ⟨rest', hcut⟩
  rw [hcut] at hrun
  exact ⟨_, hrun, null_not_mem_keep h, rest', rfl⟩

theorem killSlashesIn_eq_none (h : IsPath path) (hroom : ¬ Room path block) :
    killSlashesIn path block = none := by
  by_cases hcleared : path.length <= block.length
  · rcases killSlashesIn_eq h hcleared with ⟨rest, hlength, hrun⟩
    rw [hrun]
    split
    · next hstored =>
        have hfull : ¬ (keep true path).length + 1 < block.length :=
          fun hbehind => hroom ⟨hcleared, hstored, hbehind⟩
        have hnil : beyond path ++ rest.drop
            ((keep true path).length + (beyond path).length) = [] := by
          rw [← List.length_eq_zero_iff, List.length_append, List.length_drop]
          omega
        rw [hnil, List.append_nil]
        exact cut_length _
    · rfl
  · have hset : Block.memset block 0 0 path.length = none := by
      unfold Block.memset Block.write
      rw [List.length_replicate, Nat.zero_add, if_neg hcleared]
    show (Block.memset block 0 0 path.length).bind _ = none
    rw [hset]
    rfl

end Block

/-!
# How much room the loop needs
-/

def doubles : Text -> Nat
  | c :: d :: path => (if c = slash ∧ d = slash then 1 else 0) + doubles (d :: path)
  | _ => 0

theorem doubles_cons {c : UInt8} (hc : c ≠ slash) (path : Text) :
    doubles (c :: path) = doubles path := by
  cases path with
  | nil =>
      rfl
  | cons d path =>
      rw [doubles, if_neg (fun h => hc h.left), Nat.zero_add]

theorem doubles_slash_cons {d : UInt8} (hd : d ≠ slash) (path : Text) :
    doubles (slash :: d :: path) = doubles (d :: path) := by
  rw [doubles, if_neg (fun h => hd h.right), Nat.zero_add]

theorem doubles_slashes (path : Text) : doubles (slash :: slash :: path) = 1 +
    doubles (slash :: path) := by
  rw [doubles, if_pos ⟨rfl, rfl⟩]

theorem doubles_pos_iff (path : Text) : 0 < doubles path <->
    [slash, slash] <:+: path := by
  induction path with
  | nil =>
      exact ⟨fun h => absurd h (Nat.lt_irrefl 0), fun h =>
        nomatch List.eq_nil_of_infix_nil h⟩
  | cons c path ih =>
      rw [List.infix_cons_iff, ← ih]
      cases path with
      | nil =>
          constructor
          · intro h
            exact absurd h (Nat.lt_irrefl 0)
          · intro h
            rcases h with ⟨rest, hrest⟩ | h
            · exact nomatch List.tail_eq_of_cons_eq hrest
            · exact h
      | cons d path =>
          have hpair : [slash, slash] <+: c :: d :: path <-> c = slash ∧
              d = slash := by
            rw [List.cons_prefix_cons, List.cons_prefix_cons]
            exact ⟨fun h => ⟨h.left.symm, h.right.left.symm⟩, fun h =>
              ⟨h.left.symm, h.right.symm, List.nil_prefix⟩⟩
          rw [hpair, doubles]
          by_cases hboth : c = slash ∧ d = slash
          · rw [if_pos hboth]
            exact ⟨fun _ => Or.inl hboth, fun _ =>
              Nat.lt_of_lt_of_le Nat.zero_lt_one (Nat.le_add_right _ _)⟩
          · rw [if_neg hboth, Nat.zero_add]
            exact ⟨Or.inr, fun h => h.resolve_left hboth⟩

theorem keep_cons {c : UInt8} (hc : c ≠ slash) (b : Bool) (path : Text) :
    keep b (c :: path) = c :: keep false path := by
  rw [keep, if_neg hc]

/-- Behind a byte that is no slash, one slash of each pair is left out, and one
at the end. -/
theorem keep_false_length (path : Text) :
    2 * (keep false path).length + 2 * doubles path + (beyond path).length = 2 *
      path.length := by
  induction path with
  | nil =>
      rfl
  | cons c path ih =>
      by_cases hc : c = slash
      · subst hc
        cases path with
        | nil =>
            decide
        | cons d path =>
            rw [beyond_cons_cons]
            by_cases hd : d = slash
            · subst hd
              rw [keep_slashes, doubles_slashes, List.length_cons]
              omega
            · have hhead : ¬ (d :: path).head? = some slash :=
                fun h => hd (Option.some.inj h)
              have hstep : keep false (slash :: d :: path) = slash ::
                  keep false (d :: path) := by
                rw [keep, if_pos rfl, if_neg (List.cons_ne_nil d path),
                  if_neg (by decide), if_neg hhead,
                  keep_cons hd, keep_cons hd]
              rw [hstep, doubles_slash_cons hd, List.length_cons,
                List.length_cons (a := slash)]
              omega
      · rw [keep_cons hc, doubles_cons hc, beyond_cons hc, List.length_cons,
          List.length_cons]
        omega

theorem keep_true_cons {path : Text} (hne : path ≠ []) :
    keep true (slash :: path) = keep true path := by
  rw [keep, if_pos rfl, if_neg hne, if_pos rfl]

theorem keep_true_length {path : Text} (hother : exists c, c ∈ path ∧ c ≠ slash) :
    2 * (keep true path).length + 2 * doubles (slash :: path) +
      (beyond path).length = 2 * path.length := by
  induction path with
  | nil =>
      rcases hother with ⟨c, hc, _⟩
      cases hc
  | cons d path ih =>
      by_cases hd : d = slash
      · subst hd
        rcases hother with ⟨c, hmem, hc⟩
        have hrest : c ∈ path := (List.mem_cons.mp hmem).resolve_left hc
        have hlength := ih ⟨c, hrest, hc⟩
        cases path with
        | nil =>
            cases hrest
        | cons e path =>
            rw [keep_true_cons (List.cons_ne_nil e path), doubles_slashes,
              beyond_cons_cons,
              List.length_cons (a := slash)]
            omega
      · have hlength := keep_false_length (d :: path)
        rw [keep_cons hd] at hlength ⊢
        rw [doubles_slash_cons hd]
        exact hlength

theorem keep_true_replicate (n : Nat) : keep true (List.replicate n slash) =
    [] := by
  induction n with
  | zero =>
      rfl
  | succ n ih =>
      cases n with
      | zero =>
          rfl
      | succ n =>
          have hne : List.replicate (n + 1) slash ≠ [] := List.cons_ne_nil slash _
          rw [List.replicate_succ, keep_true_cons hne]
          exact ih

theorem doubles_replicate (n : Nat) : doubles (List.replicate (n + 1) slash) =
    n := by
  induction n with
  | zero =>
      rfl
  | succ n ih =>
      rw [List.replicate_succ] at ih
      rw [List.replicate_succ, List.replicate_succ, doubles_slashes, ih,
        Nat.add_comm]

theorem beyond_replicate (n : Nat) : beyond (List.replicate (n + 1) slash) =
    [0, slash] := by
  rw [beyond, List.replicate_succ', List.getLast?_concat, if_pos rfl]

theorem room_iff {path block : Text} (h : IsPath path)
    (hblock : block.length = path.length) :
    Room path block <-> [slash, slash] <:+: path ∧ path ≠ [slash, slash] := by
  rw [← doubles_pos_iff]
  have hroom : Room path block <->
      (keep true path).length + (beyond path).length + 1 <= path.length ∧
        (keep true path).length + 1 < path.length := by
    rw [← hblock]
    exact ⟨fun hroom => ⟨hroom.stored, hroom.behind⟩, fun hroom =>
      ⟨Nat.le_of_eq hblock.symm, hroom.left, hroom.right⟩⟩
  rw [hroom]
  cases path with
  | nil =>
      cases h.head
  | cons c path =>
      cases h.head
      by_cases hother : exists c, c ∈ path ∧ c ≠ slash
      · rcases hother with ⟨c, hmem, hc⟩
        have hne : path ≠ [] := List.ne_nil_of_mem hmem
        have hlength := keep_true_length ⟨c, hmem, hc⟩
        have hbeyond : beyond (slash :: path) = beyond path := by
          cases path with
          | nil => cases hmem
          | cons d path => exact beyond_cons_cons slash d path
        have hends : (beyond path).length = 0 ∨ (beyond path).length = 2 := by
          unfold beyond
          split
          · exact Or.inr rfl
          · exact Or.inl rfl
        have hnot : slash :: path ≠ [slash, slash] := by
          intro heq
          cases heq
          exact hc (List.mem_singleton.mp hmem)
        rw [keep_true_cons hne, hbeyond, List.length_cons]
        constructor
        · intro hfits
          exact ⟨by omega, hnot⟩
        · intro hdouble
          omega
      · have hall : slash :: path = List.replicate (path.length + 1) slash := by
          rw [List.eq_replicate_iff]
          refine ⟨rfl, fun d hd => ?_⟩
          rcases List.mem_cons.mp hd with heq | hd
          · exact heq
          · by_contra hne
            exact hother ⟨d, hd, hne⟩
        have hpair : slash :: path = [slash, slash] <-> path.length = 1 := by
          rw [hall]
          constructor
          · intro heq
            have hlength := congrArg List.length heq
            rw [List.length_replicate] at hlength
            exact Nat.succ.inj hlength
          · intro heq
            rw [heq]
            rfl
        rw [ne_eq, hpair, hall, keep_true_replicate, doubles_replicate,
          beyond_replicate, List.length_replicate,
          List.length_nil, List.length_cons, List.length_singleton]
        omega

theorem beyond_length_le (path : Text) : (beyond path).length <= 2 := by
  unfold beyond
  split
  · exact Nat.le_refl 2
  · exact Nat.zero_le 2

theorem room_of_le {path block : Text} (h : IsPath path)
    (hblock : path.length + 2 <= block.length) : Room path block := by
  have hbeyond := beyond_length_le path
  have hkeep : (keep true path).length + 1 <= path.length := by
    cases path with
    | nil =>
        cases h.head
    | cons c path =>
        cases h.head
        by_cases hne : path = []
        · subst hne
          exact Nat.le_refl 1
        · have hcount := (killSlashes_first path).right
          have hle : (keep true path).length <= path.length := by omega
          rw [keep_true_cons hne]
          exact Nat.succ_le_succ hle
  exact ⟨by omega, by omega, by omega⟩

/--
`path_kill_slashes` stays in the `strlen(path)` bytes that it allocates if and
only if two slashes follow each other in the path, and there is more than these
two.
-/
theorem killSlashesIn_inside_iff {path block : Text} (h : IsPath path)
    (hblock : block.length = path.length) :
    (killSlashesIn path block).isSome = true <-> [slash, slash] <:+: path ∧
    path ≠ [slash, slash] := by
  rw [← room_iff h hblock]
  constructor
  · intro hsome
    by_contra hroom
    rw [killSlashesIn_eq_none h hroom] at hsome
    cases hsome
  · intro hroom
    rcases killSlashesIn_of_room h hroom with ⟨f, hf, _⟩
    rw [hf]
    rfl

theorem killSlashesIn_inside_root :
    (killSlashesIn (bytes "//a") (bytes "xyz")).isSome = true := by
  have hpath : IsPath (bytes "//a") := ⟨by decide, by decide⟩
  exact (killSlashesIn_inside_iff hpath rfl).mpr ⟨by decide, by decide⟩

/-- For a subgroup of a group that is not the root, the byte behind the block is
looked at. -/
theorem killSlashesIn_overrun : IsPath (bytes "/a/b") ∧ (bytes "xyzw").length =
    (bytes "/a/b").length ∧
    killSlashesIn (bytes "/a/b") (bytes "xyzw") = none :=
  ⟨⟨by decide, by decide⟩, by decide, by decide⟩

end Cgtop
end Lepd
