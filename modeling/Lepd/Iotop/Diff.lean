import Lepd.Foundation.Block
import Lepd.Ps.Globals
import Mathlib.Data.List.Forall2
import Mathlib.Data.List.Nodup

/-!
# The differences of iotop

`create_diff` from two chains of tasks to the array of differences, whose
entries are linked by the addresses of their neighbours. A pointer into the
array is the index it points to.
-/

namespace Lepd
namespace Iotop

open Foundation
open Ps (Text)

/-- The `double` operations that are used. -/
class Arithmetic (double : Type) where
  zero : double
  ofUInt64 : UInt64 -> double
  ofInt : Int -> double
  mul : double -> double -> double
  div : double -> double -> double
  /-- `pow(10, 9)` -/
  powTen : double

/-- `struct xxxid_stats` -/
structure Stats (double : Type) where
  tid : Int
  swapinDelayTotal : UInt64
  blkioDelayTotal : UInt64
  readBytes : UInt64
  writeBytes : UInt64
  blkioVal : double
  swapinVal : double
  readVal : double
  writeVal : double
  ioPrio : Int
  euid : Int
  cmdline : Option Text
  next : Option Nat

def Stats.link {double : Type} (s : Stats double) (next : Option Nat) :
    Stats double :=
  { s with next := next }

/-- `config.f.accumulated` and `params.delay`. -/
structure Settings where
  accumulated : Bool
  delay : Int

section Diff

variable {double : Type}

/-- `sizeof(struct xxxid_stats)` -/
def sizeofStats : Nat :=
  96

def findpid (chain : List (Stats double)) (tid : Int) : Option (Stats double) :=
  chain.find? (fun s => s.tid = tid)

def chainlen (chain : List (Stats double)) : Nat :=
  chain.length

def diffSize (n : Nat) : Int :=
  ((sizeofStats * n : Nat) : Int).bmod (2 ^ 32)

def rrv (current previous : UInt64) : UInt64 :=
  if current < previous then ~~~0 - current + previous else current - previous

/-!
# Chains in an array
-/

def follow (diff : List (Stats double)) : Nat -> Option Nat ->
    Option (List (Stats double))
  | _, none => some []
  | 0, some _ => none
  | fuel + 1, some i => do
      let s <- diff[i]?
      let rest <- follow diff fuel s.next
      some (s :: rest)

def chainOf (answer : Option (List (Stats double) × Nat)) :
    Option (List (Stats double)) :=
  match answer with
  | none => some []
  | some (diff, _) => follow diff diff.length (some 0)

/-- Each entry points to the one behind it, and the last one to none. -/
def Chained (diff : List (Stats double)) : Prop :=
  forall i s, diff[i]? = some s -> s.next = if i + 1 < diff.length then
    some (i + 1) else none

theorem follow_chained {diff : List (Stats double)} (h : Chained diff) :
    forall {fuel i : Nat},
    i + fuel = diff.length -> 0 < fuel -> follow diff fuel (some i) =
      some (diff.drop i) := by
  intro fuel
  induction fuel with
  | zero =>
      intro i _ hpos
      exact absurd hpos (Nat.lt_irrefl 0)
  | succ fuel ih =>
      intro i hlength _
      have hi : i < diff.length := by omega
      have hget : diff[i]? = some diff[i] := List.getElem?_eq_getElem hi
      have hnext := h i diff[i] hget
      rw [follow, hget, Option.bind_eq_bind, Option.bind_some, hnext,
        List.drop_eq_getElem_cons hi]
      by_cases hlast : i + 1 < diff.length
      · rw [if_pos hlast, ih (by omega) (by omega)]
        rfl
      · have hnone : diff.drop (i + 1) = [] := List.drop_eq_nil_of_le (by omega)
        rw [if_neg hlast, hnone]
        cases fuel with
        | zero => rfl
        | succ fuel => rfl

theorem follow_all {diff : List (Stats double)} (h : Chained diff)
    (hne : diff ≠ []) :
    follow diff diff.length (some 0) = some diff := by
  have hfollow := follow_chained h (Nat.zero_add diff.length)
    (List.length_pos_iff.mpr hne)
  rw [List.drop_zero] at hfollow
  exact hfollow

/-- The entries of an array, each linked to the next one and the last one to
none. -/
def IsLinked (xs diff : List (Stats double)) : Prop :=
  diff.length = xs.length ∧
    forall i, diff[i]? = xs[i]?.map (fun s =>
      Stats.link s (if i + 1 < xs.length then some (i + 1) else none))

theorem IsLinked.chained {xs diff : List (Stats double)}
    (h : IsLinked xs diff) : Chained diff := by
  intro i s hs
  rw [h.right] at hs
  rcases Option.map_eq_some_iff.mp hs with ⟨x, _, rfl⟩
  rw [h.left]
  rfl

/-- The last entry has been linked like the other ones, and is now linked to
none. -/
theorem isLinked_set {xs diff : List (Stats double)}
    (hlength : diff.length = xs.length) (hpos : 0 < xs.length)
    (hlast : xs.length - 1 < diff.length)
    (hitems : forall i, diff[i]? = xs[i]?.map (fun s =>
    Stats.link s (some (i + 1)))) :
    IsLinked xs (diff.set (xs.length - 1) (diff[xs.length - 1].link none)) := by
  refine ⟨by rw [List.length_set, hlength], fun i => ?_⟩
  rw [List.getElem?_set, hitems]
  by_cases hi : xs.length - 1 = i
  · subst hi
    have hend : ¬ xs.length - 1 + 1 < xs.length := by omega
    have hlast' : xs.length - 1 < xs.length := by omega
    have hitem := hitems (xs.length - 1)
    rw [List.getElem?_eq_getElem hlast, List.getElem?_eq_getElem hlast',
      Option.map_some, Option.some.injEq] at hitem
    rw [if_pos rfl, if_pos hlast, if_neg hend, List.getElem?_eq_getElem hlast',
      Option.map_some, hitem]
    rfl
  · rw [if_neg hi]
    by_cases hin : i < xs.length
    · have hmore : i + 1 < xs.length := by omega
      rw [if_pos hmore]
    · rw [List.getElem?_eq_none (Nat.le_of_not_lt hin)]
      rfl

/-!
# Modular differences
-/

/-- The formula is the modular difference as long as nothing has wrapped around. -/
theorem rrv_eq_iff (current previous : UInt64) :
    rrv current previous = current - previous <-> previous <= current := by
  have hall : (~~~0 : UInt64).toNat = 2 ^ 64 - 1 := by decide
  have hcurrent := current.toNat_lt
  have hprevious := previous.toNat_lt
  unfold rrv
  split
  · next hlt =>
      have hlt' : current.toNat < previous.toNat := hlt
      constructor
      · intro heq
        have hsame := congrArg UInt64.toNat heq
        rw [UInt64.toNat_add, UInt64.toNat_sub, UInt64.toNat_sub, hall] at hsame
        omega
      · intro hle
        exact absurd hlt (UInt64.not_lt.mpr hle)
  · next hle =>
      exact ⟨fun _ => UInt64.not_lt.mp hle, fun _ => rfl⟩

/-- What an entry should have for the task `c`, by the tasks of the previous
snapshot. -/
structure IsDelta (ps : List (Stats double)) (c e : Stats double) : Prop where
  tid : e.tid = c.tid
  known : forall p, p ∈ ps -> p.tid = c.tid ->
    e.readBytes = c.readBytes - p.readBytes ∧ e.writeBytes = c.writeBytes -
      p.writeBytes ∧
    e.swapinDelayTotal = c.swapinDelayTotal - p.swapinDelayTotal ∧
    e.blkioDelayTotal = c.blkioDelayTotal - p.blkioDelayTotal
  unknown : (forall p, p ∈ ps -> p.tid ≠ c.tid) ->
    e.readBytes = 0 ∧ e.writeBytes = 0 ∧ e.swapinDelayTotal = 0 ∧
      e.blkioDelayTotal = 0

/-- The chain that is answered has one such entry for each task, in the same
order. -/
def ModularDifferences (cs ps : List (Stats double))
    (answer : Option (List (Stats double) × Nat)) : Prop :=
  exists entries, chainOf answer = some entries ∧
    List.Forall₂ (IsDelta ps) cs entries

/-- No counter of the task has wrapped around since the previous snapshot. -/
def Grown (ps : List (Stats double)) (c : Stats double) : Prop :=
  forall p, p ∈ ps -> p.tid = c.tid ->
    p.readBytes <= c.readBytes ∧ p.writeBytes <= c.writeBytes ∧
    p.swapinDelayTotal <= c.swapinDelayTotal ∧ p.blkioDelayTotal <=
      c.blkioDelayTotal

/-!
# The differences
-/

variable [Arithmetic double] (settings : Settings)

open Arithmetic

def Stats.zero : Stats double :=
  ⟨0, 0, 0, 0, 0, Arithmetic.zero, Arithmetic.zero, Arithmetic.zero,
    Arithmetic.zero, 0, 0, none, none⟩

def delayVal (total : UInt64) : double :=
  mul (div (div (ofUInt64 total) powTen) (ofInt settings.delay)) (ofInt 100)

def bytesVal (count : UInt64) : double :=
  div (ofUInt64 count) (ofInt (if settings.accumulated then 1 else settings.delay))

def diffOf (ps : List (Stats double)) (c : Stats double) : Stats double :=
  match findpid ps c.tid with
  | none =>
      { c with readBytes := 0, writeBytes := 0, swapinDelayTotal := 0,
               blkioDelayTotal := 0 }
  | some p =>
      let readBytes := rrv c.readBytes p.readBytes
      let writeBytes := rrv c.writeBytes p.writeBytes
      let swapinDelayTotal := rrv c.swapinDelayTotal p.swapinDelayTotal
      let blkioDelayTotal := rrv c.blkioDelayTotal p.blkioDelayTotal
      { c with
        readBytes := readBytes, writeBytes := writeBytes
        swapinDelayTotal := swapinDelayTotal, blkioDelayTotal := blkioDelayTotal
        blkioVal := delayVal settings blkioDelayTotal, swapinVal :=
          delayVal settings swapinDelayTotal
        readVal := bytesVal settings readBytes, writeVal :=
          bytesVal settings writeBytes }

def fillDiff (ps : List (Stats double)) : List (Stats double) -> Nat ->
    List (Stats double) ->
    Option (List (Stats double) × Nat)
  | diff, n, [] => some (diff, n)
  | diff, n, c :: cs => do
      let diff <- Block.write diff n [(diffOf settings ps c).link (some (n + 1))]
      fillDiff ps diff (n + 1) cs

def closeDiff (diff : List (Stats double)) (n : Nat) :
    Option (Option (List (Stats double) × Nat)) :=
  if n = 0 then some none
  else do
    let last <- diff[n - 1]?
    let diff <- Block.write diff (n - 1) [last.link none]
    some (some (diff, n))

/--
`create_diff`, with `len`. There is no answer where memory outside of the array
is used; where `diff_size` is negative, `malloc` answers a null pointer and
`memset` writes there.
-/
def createDiff (cs ps : List (Stats double)) :
    Option (Option (List (Stats double) × Nat)) :=
  let size := diffSize (chainlen cs)
  if size < 0 then none
  else
    (fillDiff settings ps (List.replicate (size.toNat / sizeofStats) Stats.zero)
    0 cs).bind
      (fun filled => closeDiff filled.1 filled.2)

/-!
# The array
-/

def entriesFrom (ps : List (Stats double)) : Nat -> List (Stats double) ->
    List (Stats double)
  | _, [] => []
  | n, c :: cs =>
      (diffOf settings ps c).link (some (n + 1)) :: entriesFrom ps (n + 1) cs

theorem entriesFrom_length (ps cs : List (Stats double)) : forall n : Nat,
    (entriesFrom settings ps n cs).length = cs.length := by
  induction cs with
  | nil =>
      intro n
      rfl
  | cons c cs ih =>
      intro n
      rw [entriesFrom, List.length_cons, List.length_cons, ih]

theorem entriesFrom_getElem? (ps cs : List (Stats double)) : forall (n i : Nat),
    (entriesFrom settings ps n cs)[i]? =
      cs[i]?.map (fun c => (diffOf settings ps c).link (some (n + i + 1))) := by
  induction cs with
  | nil =>
      intro n i
      rfl
  | cons c cs ih =>
      intro n i
      cases i with
      | zero =>
          rfl
      | succ i =>
          rw [entriesFrom, List.getElem?_cons_succ, List.getElem?_cons_succ, ih]
          have hindex : n + 1 + i + 1 = n + (i + 1) + 1 := by omega
          rw [hindex]

/-- The loop fills the array behind the entries that it has, if there is room
for the tasks. -/
theorem fillDiff_append (ps cs : List (Stats double)) :
    forall done rest : List (Stats double),
    fillDiff settings ps (done ++ rest) done.length cs =
      if cs.length <= rest.length then
        some (done ++ (entriesFrom settings ps done.length cs ++
          rest.drop cs.length), done.length + cs.length)
      else none := by
  induction cs with
  | nil =>
      intro done rest
      have hroom : ([] : List (Stats double)).length <= rest.length := Nat.zero_le _
      rw [if_pos hroom]
      rfl
  | cons c cs ih =>
      intro done rest
      rw [fillDiff]
      cases rest with
      | nil =>
          have hroom : ¬ (c :: cs).length <=
              ([] : List (Stats double)).length := Nat.not_succ_le_zero _
          rw [Block.write_end, if_neg hroom]
          rfl
      | cons r rest =>
          rw [Block.write_next]
          have hmore :=
            ih (done ++ [(diffOf settings ps c).link (some (done.length + 1))]) rest
          rw [List.length_append, List.length_singleton] at hmore
          refine hmore.trans ?_
          simp only [List.length_cons, Nat.add_le_add_iff_right,
            List.append_assoc, List.drop_succ_cons, entriesFrom,
            List.cons_append, List.nil_append]
          have hsum : done.length + 1 + cs.length = done.length +
              (cs.length + 1) := by omega
          rw [hsum]

/-- The array that is answered: the entries in the order of the tasks, the last
one without a successor. -/
theorem createDiff_of_room {cs : List (Stats double)} (ps : List (Stats double))
    (hne : cs ≠ []) (hroom : sizeofStats * cs.length < 2 ^ 31) :
    exists diff, createDiff settings cs ps = some (some (diff, cs.length)) ∧
      IsLinked (cs.map (diffOf settings ps)) diff := by
  have hpos : 0 < cs.length := List.length_pos_iff.mpr hne
  have hsize : diffSize cs.length = ((sizeofStats * cs.length : Nat) : Int) := by
    unfold diffSize
    exact Int.bmod_eq_of_le (by omega) (by omega)
  have hcount : (diffSize cs.length).toNat / sizeofStats = cs.length := by
    rw [hsize, Int.toNat_natCast]
    exact Nat.mul_div_cancel_left _ (by decide)
  have hnonneg : ¬ diffSize cs.length < 0 := by
    rw [hsize]
    exact Int.not_lt.mpr (Int.natCast_nonneg _)
  have hfill := fillDiff_append settings ps cs []
    (List.replicate cs.length Stats.zero)
  rw [List.length_replicate, if_pos (Nat.le_refl _),
    List.drop_eq_nil_of_le (by simp)] at hfill
  simp only [List.nil_append, List.append_nil, List.length_nil,
    Nat.zero_add] at hfill
  have hlast : cs.length - 1 < cs.length := Nat.sub_lt hpos Nat.zero_lt_one
  have hlength := entriesFrom_length settings ps cs 0
  have hentries := entriesFrom_getElem? settings ps cs 0
  generalize entriesFrom settings ps 0 cs = entries at hfill hlength hentries
  have hlast' : cs.length - 1 < entries.length := hlength.symm ▸ hlast
  have hlinked : IsLinked (cs.map (diffOf settings ps))
      (entries.set (cs.length - 1) (entries[cs.length - 1].link none)) := by
    have hset :=
      isLinked_set (hlength.trans (List.length_map (diffOf settings ps)).symm)
        (by rwa [List.length_map])
      (by rwa [List.length_map])
      (fun i => by
        rw [hentries, List.getElem?_map, Option.map_map, Nat.zero_add]
        rfl)
    simpa only [List.length_map] using hset
  refine ⟨entries.set (cs.length - 1) (entries[cs.length - 1].link none), ?_,
    hlinked⟩
  unfold createDiff chainlen
  dsimp only
  rw [if_neg hnonneg, hcount, hfill, Option.bind_some, closeDiff,
    if_neg (Nat.pos_iff_ne_zero.mp hpos),
    List.getElem?_eq_getElem hlast']
  show (Block.write entries (cs.length - 1)
    [entries[cs.length - 1].link none]).bind _ = _
  rw [Block.write_single hlast']
  rfl

theorem createDiff_nil (ps : List (Stats double)) :
    createDiff settings [] ps = some none := by
  have hsize : ¬ diffSize 0 < 0 := by decide
  unfold createDiff chainlen
  dsimp only
  rw [List.length_nil, if_neg hsize]
  rfl

/-- Where the size does not fit in an `int`, memory outside of the array is used. -/
theorem createDiff_of_no_room {cs : List (Stats double)} (ps : List (Stats double))
    (hroom : 2 ^ 31 <= sizeofStats * cs.length) :
    createDiff settings cs ps = none := by
  unfold createDiff chainlen
  dsimp only
  split
  · rfl
  · next hnonneg =>
      have hsize : (diffSize cs.length).toNat < 2 ^ 31 := by
        have hlt : diffSize cs.length < (2 ^ 32 + 1) / 2 := Int.bmod_lt (by decide)
        omega
      have hshort :
          ¬ cs.length <= (List.replicate ((diffSize cs.length).toNat / sizeofStats)
          (Stats.zero : Stats double)).length := by
        rw [List.length_replicate, Nat.not_le]
        exact Nat.div_lt_of_lt_mul (Nat.lt_of_lt_of_le hsize hroom)
      have hfill := fillDiff_append settings ps cs []
        (List.replicate ((diffSize cs.length).toNat / sizeofStats) Stats.zero)
      rw [if_neg hshort] at hfill
      rw [List.nil_append] at hfill
      rw [show (0 : Nat) = ([] : List (Stats double)).length from rfl, hfill]
      rfl

/-!
# What is answered
-/

/-- An entry is right if and only if no counter of its task has wrapped around. -/
theorem diffOf_isDelta_iff {ps : List (Stats double)}
    (hps : (ps.map Stats.tid).Nodup) (c : Stats double)
    (next : Option Nat) : IsDelta ps c ((diffOf settings ps c).link next) <->
    Grown ps c := by
  unfold diffOf
  cases hfind : findpid ps c.tid with
  | none =>
      have hnone : forall p, p ∈ ps -> p.tid ≠ c.tid := by
        intro p hp
        simpa using List.find?_eq_none.mp hfind p hp
      exact ⟨fun _ p hp heq => absurd heq (hnone p hp),
        fun _ => ⟨rfl, fun p hp heq => absurd heq (hnone p hp),
          fun _ => ⟨rfl, rfl, rfl, rfl⟩⟩⟩
  | some p =>
      have hp : p ∈ ps := List.mem_of_find?_eq_some hfind
      have htid : p.tid = c.tid := by simpa using List.find?_some hfind
      have honly : forall q, q ∈ ps -> q.tid = c.tid -> q = p := fun q hq heq =>
        List.inj_on_of_nodup_map hps hq hp (heq.trans htid.symm)
      constructor
      · intro h q hq heq
        cases honly q hq heq
        rcases h.known p hp htid with ⟨hread, hwrite, hswapin, hblkio⟩
        exact ⟨(rrv_eq_iff _ _).mp hread, (rrv_eq_iff _ _).mp hwrite,
          (rrv_eq_iff _ _).mp hswapin,
          (rrv_eq_iff _ _).mp hblkio⟩
      · intro h
        rcases h p hp htid with ⟨hread, hwrite, hswapin, hblkio⟩
        refine ⟨rfl, ?_, fun hnone => absurd htid (hnone p hp)⟩
        intro q hq heq
        cases honly q hq heq
        exact ⟨(rrv_eq_iff _ _).mpr hread, (rrv_eq_iff _ _).mpr hwrite,
          (rrv_eq_iff _ _).mpr hswapin,
          (rrv_eq_iff _ _).mpr hblkio⟩

theorem createDiff_chain {cs : List (Stats double)} (ps : List (Stats double))
    (hroom : sizeofStats * cs.length < 2 ^ 31) :
    exists answer entries, createDiff settings cs ps = some answer ∧
      chainOf answer = some entries ∧
      IsLinked (cs.map (diffOf settings ps)) entries := by
  by_cases hne : cs = []
  · subst hne
    exact ⟨none, [], createDiff_nil settings ps, rfl, rfl, fun _ => rfl⟩
  · rcases createDiff_of_room settings ps hne hroom with ⟨diff, hrun, hlinked⟩
    refine ⟨some (diff, cs.length), diff, hrun, follow_all hlinked.chained ?_,
      hlinked⟩
    intro hnil
    have hlength := hlinked.left
    rw [hnil, List.length_map] at hlength
    exact hne (List.length_eq_zero_iff.mp hlength.symm)

theorem forall₂_isDelta_iff {cs ps entries : List (Stats double)}
    (hps : (ps.map Stats.tid).Nodup)
    (hlinked : IsLinked (cs.map (diffOf settings ps)) entries) :
    List.Forall₂ (IsDelta ps) cs entries <-> forall c, c ∈ cs -> Grown ps c := by
  have hlength : entries.length = cs.length :=
    hlinked.left.trans (List.length_map _)
  have hentry : forall (i : Nat) (hi : i < cs.length) (hi' :
    i < entries.length), entries[i] =
      (diffOf settings ps cs[i]).link (if i + 1 < cs.length then some (i + 1)
        else none) := by
    intro i hi hi'
    have hitem := hlinked.right i
    rw [List.getElem?_eq_getElem hi', List.getElem?_map,
      List.getElem?_eq_getElem hi, Option.map_some, Option.map_some,
      List.length_map] at hitem
    exact Option.some.inj hitem
  rw [List.forall₂_iff_get]
  constructor
  · intro h c hc
    rcases List.getElem_of_mem hc with ⟨i, hi, rfl⟩
    have hi' : i < entries.length := hlength.symm ▸ hi
    have hdelta := h.right i hi hi'
    rw [List.get_eq_getElem, List.get_eq_getElem, hentry i hi hi'] at hdelta
    exact (diffOf_isDelta_iff settings hps cs[i] _).mp hdelta
  · intro h
    refine ⟨hlength.symm, fun i hi hi' => ?_⟩
    rw [List.get_eq_getElem, List.get_eq_getElem, hentry i hi hi']
    exact (diffOf_isDelta_iff settings hps cs[i] _).mpr
      (h cs[i] (List.getElem_mem hi))

/--
The differences are modular if and only if the size of the array fits in an
`int` and no counter of a task has wrapped around.
-/
theorem createDiff_modular_iff {cs ps : List (Stats double)}
    (hps : (ps.map Stats.tid).Nodup) :
    (exists answer, createDiff settings cs ps = some answer ∧
    ModularDifferences cs ps answer) <->
      sizeofStats * cs.length < 2 ^ 31 ∧ forall c, c ∈ cs -> Grown ps c := by
  by_cases hroom : sizeofStats * cs.length < 2 ^ 31
  · rcases createDiff_chain settings ps hroom with
      ⟨answer, entries, hrun, hchain, hlinked⟩
    have hall : List.Forall₂ (IsDelta ps) cs entries <-> forall c, c ∈ cs ->
        Grown ps c :=
      forall₂_isDelta_iff settings hps hlinked
    constructor
    · rintro ⟨answer', hrun', entries', hchain', hdelta⟩
      cases hrun.symm.trans hrun'
      cases hchain.symm.trans hchain'
      exact ⟨hroom, hall.mp hdelta⟩
    · intro h
      exact ⟨answer, hrun, entries, hchain, hall.mpr h.right⟩
  · constructor
    · rintro ⟨answer, hrun, _⟩
      rw [createDiff_of_no_room settings ps (Nat.le_of_not_lt hroom)] at hrun
      cases hrun
    · intro h
      exact absurd h.left hroom

end Diff

/-- Division without rounding. -/
instance exactArithmetic : Arithmetic Rat where
  zero := Rat.ofInt 0
  ofUInt64 n := Rat.ofInt n.toNat
  ofInt := Rat.ofInt
  mul := Rat.mul
  div := Rat.div
  powTen := Rat.ofInt 1000000000

/-- A task that has read some bytes, and no more. -/
def reader (tid : Int) (readBytes : UInt64) : Stats Rat :=
  { (Stats.zero : Stats Rat) with tid := tid, readBytes := readBytes }

theorem createDiff_modular_grown : exists answer,
    createDiff ⟨false, 1⟩ [reader 7 10, reader 8 3] [reader 7 4] = some answer ∧
      ModularDifferences [reader 7 10, reader 8 3] [reader 7 4] answer := by
  apply (createDiff_modular_iff ⟨false, 1⟩ (by decide)).mpr
  refine ⟨by decide, fun c hc p hp heq => ?_⟩
  cases List.mem_singleton.mp hp
  rcases List.mem_cons.mp hc with rfl | hc
  · exact ⟨by decide, by decide, by decide, by decide⟩
  · cases List.mem_singleton.mp hc
    exact absurd heq (by decide)

/-- From 5 to 3 the counter has grown by `2 ^ 64 - 2`, and the formula makes
that one byte. -/
theorem createDiff_wrapped : ¬ exists answer, createDiff ⟨false, 1⟩ [reader 7 3]
    [reader 7 5] = some answer ∧
    ModularDifferences [reader 7 3] [reader 7 5] answer := by
  rintro ⟨answer, hrun, entries, hchain, hdelta⟩
  rcases createDiff_chain (⟨false, 1⟩ : Settings) [reader 7 5]
    (show sizeofStats * [reader 7 3].length < 2 ^ 31 by decide)
    with ⟨answer', entries', hrun', hchain', hlinked⟩
  cases hrun.symm.trans hrun'
  cases hchain.symm.trans hchain'
  have hgrown := (forall₂_isDelta_iff ⟨false, 1⟩ (by decide) hlinked).mp hdelta
  have hread :=
    (hgrown (reader 7 3) List.mem_cons_self (reader 7 5) List.mem_cons_self
    rfl).left
  exact absurd hread (by decide)

end Iotop
end Lepd
