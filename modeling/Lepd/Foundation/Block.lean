import Mathlib.Algebra.Order.Ring.Nat
import Mathlib.Data.List.Basic
import Mathlib.Data.List.TakeWhile

/-!
# Memory blocks

An allocated block of memory is the list of its cells.  The operations on it
answer nothing when they would touch a cell outside of the block.
-/

namespace Lepd
namespace Foundation
namespace Block

variable {cell : Type}

/-- Store cells from an index on. -/
def write (mem : List cell) (i : Nat) (cells : List cell) : Option (List cell) :=
  if i + cells.length <= mem.length then
    some (mem.take i ++ (cells ++ mem.drop (i + cells.length)))
  else none

def memset (mem : List cell) (i : Nat) (value : cell) (n : Nat) :
    Option (List cell) :=
  write mem i (List.replicate n value)

def memmove (mem : List cell) (dst src n : Nat) : Option (List cell) :=
  if src + n <= mem.length then write mem dst ((mem.drop src).take n)
  else none

/-- The cells from an index on, up to the first null cell. -/
def string [DecidableEq cell] (null : cell) (mem : List cell) (i : Nat) :
    List cell :=
  (mem.drop i).takeWhile (fun c => c ≠ null)

def strlen [DecidableEq cell] (null : cell) (mem : List cell) (i : Nat) :
    Option Nat :=
  if i + (string null mem i).length < mem.length then
    some (string null mem i).length
  else none

def strcat [DecidableEq cell] (null : cell) (mem cells : List cell) :
    Option (List cell) :=
  match strlen null mem 0 with
  | some n => write mem n (cells ++ [null])
  | none => none

/-!
# Writing
-/

theorem write_eq_some {mem cells mem' : List cell} {i : Nat}
    (h : write mem i cells = some mem') :
    i + cells.length <= mem.length ∧
      mem' = mem.take i ++ (cells ++ mem.drop (i + cells.length)) := by
  unfold write at h
  split at h
  · next hle =>
      cases h
      exact ⟨hle, rfl⟩
  · cases h

theorem write_of_le {mem cells : List cell} {i : Nat}
    (h : i + cells.length <= mem.length) :
    write mem i cells =
      some (mem.take i ++ (cells ++ mem.drop (i + cells.length))) :=
  if_pos h

theorem write_length {mem cells mem' : List cell} {i : Nat}
    (h : write mem i cells = some mem') :
    mem'.length = mem.length := by
  rcases write_eq_some h with ⟨hle, rfl⟩
  simp only [List.length_append, List.length_take, List.length_drop]
  omega

/-- From the index on there are the cells written, and behind them the old ones. -/
theorem write_drop_self {mem cells mem' : List cell} {i : Nat}
    (h : write mem i cells = some mem') :
    mem'.drop i = cells ++ mem.drop (i + cells.length) := by
  rcases write_eq_some h with ⟨hle, rfl⟩
  have htake : (mem.take i).length = i := by
    rw [List.length_take]
    omega
  rw [List.drop_append, List.drop_eq_nil_of_le (by omega), htake, Nat.sub_self,
    List.drop_zero,
    List.nil_append]

theorem write_take {mem cells mem' : List cell} {i : Nat}
    (h : write mem i cells = some mem') :
    mem'.take i = mem.take i := by
  rcases write_eq_some h with ⟨hle, rfl⟩
  have htake : (mem.take i).length = i := by
    rw [List.length_take]
    omega
  rw [List.take_append, htake, Nat.sub_self, List.take_zero, List.append_nil,
    List.take_take,
    Nat.min_self]

theorem write_drop {mem cells mem' : List cell} {i j : Nat}
    (h : write mem i cells = some mem')
    (hj : i + cells.length <= j) : mem'.drop j = mem.drop j := by
  rcases write_eq_some h with ⟨hle, rfl⟩
  have htake : (mem.take i).length = i := by
    rw [List.length_take]
    omega
  rw [List.drop_append, List.drop_eq_nil_of_le (by omega), htake,
    List.nil_append, List.drop_append,
    List.drop_eq_nil_of_le (by omega), List.nil_append, List.drop_drop]
  congr 1
  omega

theorem write_end (front : List cell) (c : cell) :
    write (front ++ []) front.length [c] = none := by
  unfold write
  rw [if_neg]
  simp only [List.append_nil, List.length_cons, List.length_nil]
  omega

theorem write_next (front : List cell) (r : cell) (rest : List cell) (c : cell) :
    write (front ++ r :: rest) front.length [c] =
      some ((front ++ [c]) ++ rest) := by
  have hfits : front.length + [c].length <= (front ++ r :: rest).length := by
    simp only [List.length_append, List.length_cons, List.length_nil]
    omega
  have hdrop : (front ++ r :: rest).drop (front.length + [c].length) = rest := by
    rw [List.drop_append, List.drop_eq_nil_of_le (Nat.le_add_right _ _),
      Nat.add_sub_cancel_left]
    rfl
  rw [write_of_le hfits, hdrop, List.take_left, List.append_assoc]

theorem write_single {mem : List cell} {i : Nat} (h : i < mem.length) (c : cell) :
    write mem i [c] = some (mem.set i c) := by
  have hfits : i + [c].length <= mem.length := h
  rw [write_of_le hfits, List.set_eq_take_append_cons_drop, if_pos h]
  rfl

theorem memset_length {mem mem' : List cell} {i n : Nat} {value : cell}
    (h : memset mem i value n = some mem') : mem'.length = mem.length :=
  write_length h

theorem memmove_length {mem mem' : List cell} {dst src n : Nat}
    (h : memmove mem dst src n = some mem') : mem'.length = mem.length := by
  unfold memmove at h
  split at h
  · exact write_length h
  · cases h

/-!
# Strings
-/

theorem strlen_eq_some [DecidableEq cell] {null : cell} {mem : List cell}
    {i n : Nat}
    (h : strlen null mem i = some n) :
    i + n < mem.length ∧ n = (string null mem i).length := by
  unfold strlen at h
  split at h
  · next hlt =>
      cases h
      exact ⟨hlt, rfl⟩
  · cases h

theorem string_of_drop [DecidableEq cell] {null : cell}
    {mem run rest : List cell} {i : Nat}
    (hrun : null ∉ run) (h : mem.drop i = run ++ null :: rest) :
    string null mem i = run := by
  unfold string
  rw [h, List.takeWhile_append_of_pos, List.takeWhile_cons_of_neg (by simp),
    List.append_nil]
  intro c hc
  have hne : c ≠ null := fun heq => hrun (heq ▸ hc)
  simpa using hne

theorem strlen_of_drop [DecidableEq cell] {null : cell}
    {mem run rest : List cell} {i : Nat}
    (hrun : null ∉ run) (h : mem.drop i = run ++ null :: rest) :
    strlen null mem i = some run.length := by
  have hlength := congrArg List.length h
  rw [List.length_drop, List.length_append, List.length_cons] at hlength
  unfold strlen
  rw [string_of_drop hrun h, if_pos (by omega)]

theorem drop_eq_string [DecidableEq cell] {null : cell} {mem : List cell} {i : Nat}
    (h : null ∈ mem.drop i) :
    exists rest, mem.drop i = string null mem i ++ null :: rest ∧
      null ∉ string null mem i := by
  unfold string
  generalize mem.drop i = cells at h
  induction cells with
  | nil =>
      cases h
  | cons c cells ih =>
      by_cases hc : c = null
      · subst hc
        exact ⟨cells, by simp, by simp⟩
      · have hmem : null ∈ cells := (List.mem_cons.mp h).resolve_left (Ne.symm hc)
        rcases ih hmem with ⟨rest, hrest, hnull⟩
        have htake : (c :: cells).takeWhile (fun c => c ≠ null) =
            c :: cells.takeWhile (fun c => c ≠ null) :=
          List.takeWhile_cons_of_pos (by simpa using hc)
        refine ⟨rest, ?_, ?_⟩
        · rw [htake, List.cons_append, ← hrest]
        · rw [htake]
          intro hmem
          rcases List.mem_cons.mp hmem with heq | hmem
          · exact hc heq.symm
          · exact hnull hmem

theorem strlen_of_mem [DecidableEq cell] {null : cell} {mem : List cell} {i : Nat}
    (h : null ∈ mem.drop i) :
    strlen null mem i = some (string null mem i).length := by
  rcases drop_eq_string h with ⟨rest, hrest, hnull⟩
  exact strlen_of_drop hnull hrest

theorem memmove_of_le {mem : List cell} {dst src n : Nat}
    (hsrc : src + n <= mem.length)
    (hdst : dst + n <= mem.length) :
    memmove mem dst src n =
      some (mem.take dst ++ ((mem.drop src).take n ++ mem.drop (dst + n))) := by
  have hlength : ((mem.drop src).take n).length = n := by
    rw [List.length_take, List.length_drop]
    omega
  unfold memmove
  rw [if_pos hsrc, write_of_le (by rw [hlength]; exact hdst), hlength]

theorem memmove_eq_some {mem mem' : List cell} {dst src n : Nat}
    (h : memmove mem dst src n = some mem') :
    src + n <= mem.length ∧ dst + n <= mem.length ∧
      mem' = mem.take dst ++ ((mem.drop src).take n ++ mem.drop (dst + n)) := by
  unfold memmove at h
  split at h
  · next hsrc =>
      have hlength : ((mem.drop src).take n).length = n := by
        rw [List.length_take, List.length_drop]
        omega
      rcases write_eq_some h with ⟨hdst, hmem⟩
      rw [hlength] at hdst hmem
      exact ⟨hsrc, hdst, hmem⟩
  · cases h

/-!
# Appending
-/

section Append

variable [DecidableEq cell] {null : cell} {mem run rest cells : List cell}

theorem strcat_of_drop (hrun : null ∉ run) (h : mem = run ++ null :: rest) :
    strcat null mem cells = write mem run.length (cells ++ [null]) := by
  unfold strcat
  rw [strlen_of_drop hrun (by rw [List.drop_zero]; exact h)]

/-- What is appended fits if there is room for it and for the null cell. -/
theorem strcat_eq_some (cells : List cell) (hrun : null ∉ run)
    (h : mem = run ++ null :: rest)
    (hfits : run.length + cells.length + 1 <= mem.length) :
    exists tail, strcat null mem cells = some (run ++ (cells ++ null :: tail)) := by
  have htake : mem.take run.length = run := by
    rw [h, List.take_left]
  refine ⟨mem.drop (run.length + (cells ++ [null]).length), ?_⟩
  rw [strcat_of_drop hrun h, write_of_le, htake, List.append_assoc]
  · rfl
  · rw [List.length_append, List.length_singleton]
    exact hfits

theorem strcat_eq_none (cells : List cell) (hrun : null ∉ run)
    (h : mem = run ++ null :: rest)
    (hfull : mem.length < run.length + cells.length + 1) :
    strcat null mem cells = none := by
  rw [strcat_of_drop hrun h, write, if_neg]
  rw [List.length_append, List.length_singleton]
  omega

theorem strlen_of_not_mem (h : null ∉ mem) : strlen null mem 0 = none := by
  have hstring : string null mem 0 = mem := by
    unfold string
    rw [List.drop_zero, List.takeWhile_eq_self_iff]
    intro c hc
    have hne : c ≠ null := fun heq => h (heq ▸ hc)
    simpa using hne
  unfold strlen
  rw [hstring, if_neg (by omega)]

theorem strcat_of_not_mem (h : null ∉ mem) : strcat null mem cells = none := by
  unfold strcat
  rw [strlen_of_not_mem h]

end Append

/-!
# Shifting a string to the front

A string is copied to the front of its block together with its null cell and the
cell `x` behind it.  What is then found at the place where the string had been
depends on how far the copy reaches.
-/

section Shift

variable {null x : cell} {mem run tail : List cell} {i : Nat}

def shifted (null x : cell) (mem run : List cell) : List cell :=
  run ++ null :: x :: mem.drop (run.length + 2)

theorem memmove_shifted (hrun : mem.drop i = run ++ null :: x :: tail) :
    memmove mem 0 i (run.length + 2) = some (shifted null x mem run) := by
  have hlength := congrArg List.length hrun
  simp only [List.length_drop, List.length_append, List.length_cons] at hlength
  have htake : (mem.drop i).take (run.length + 2) = run ++ [null, x] := by
    rw [hrun, List.take_length_add_append]
    rfl
  rw [memmove_of_le (by omega) (by omega), htake, List.take_zero,
    List.nil_append, Nat.zero_add,
    List.append_assoc]
  rfl

variable [DecidableEq cell]

theorem string_cons_null (cells : List cell) :
    (null :: cells).takeWhile (fun c => c ≠ null) = [] :=
  List.takeWhile_cons_of_neg (by simp)

theorem takeWhile_append_null (hnull : null ∉ run) (cells : List cell) :
    (run ++ null :: cells).takeWhile (fun c => c ≠ null) = run := by
  have hall : forall c, c ∈ run -> decide (c ≠ null) = true := by
    intro c hc
    have hne : c ≠ null := fun heq => hnull (heq ▸ hc)
    simpa using hne
  rw [List.takeWhile_append_of_pos hall, string_cons_null, List.append_nil]

theorem string_shifted_far (hnull : null ∉ run)
    (hrun : mem.drop i = run ++ null :: x :: tail)
    (hi : run.length + 2 <= i) : string null (shifted null x mem run) i = run := by
  have hsplit : i = (run ++ [null, x]).length + (i - (run.length + 2)) := by
    simp
    omega
  have hdrop : (shifted null x mem run).drop i = run ++ null :: x :: tail := by
    have hform : shifted null x mem run = (run ++ [null, x]) ++
        mem.drop (run.length + 2) := by
      simp [shifted]
    rw [hform, hsplit, List.drop_length_add_append, List.drop_drop, ← hrun]
    congr 1
    omega
  exact string_of_drop hnull hdrop

/-- A copy over part of the old place leaves only the end of the string there. -/
theorem string_shifted_near (hnull : null ∉ run) (hi : i <= run.length) :
    string null (shifted null x mem run) i = run.drop i := by
  have hdrop : (shifted null x mem run).drop i =
      run.drop i ++ null :: x :: mem.drop (run.length + 2) := by
    rw [shifted, List.drop_append_of_le_length hi]
  exact string_of_drop (fun hmem => hnull (List.mem_of_mem_drop hmem)) hdrop

/-- A copy whose null cell comes right before the old place puts `x` at that
place. -/
theorem string_shifted_adjacent (hnull : null ∉ run)
    (hrun : mem.drop i = run ++ null :: x :: tail)
    (hi : i = run.length + 1) :
    (string null (shifted null x mem run) i).length = run.length <->
      (x = null <-> run.length = 0) := by
  have hdrop : (shifted null x mem run).drop i = x :: mem.drop (i + 1) := by
    have hform : shifted null x mem run =
        (run ++ [null]) ++ x :: mem.drop (run.length + 2) := by
      simp [shifted]
    rw [hform, hi, List.drop_append, List.drop_eq_nil_of_le (by simp),
      List.nil_append,
      List.length_append, List.length_singleton, Nat.sub_self, List.drop_zero]
  have htail : mem.drop (i + 1) = (run ++ null :: x :: tail).drop 1 := by
    rw [← hrun, List.drop_drop]
  unfold string
  rw [hdrop, htail]
  cases run with
  | nil =>
      by_cases hx : x = null
      · simp [hx]
      · have hmore : (x :: ([] ++ null :: x :: tail).drop 1).takeWhile
            (fun c => c ≠ null) =
            x :: (x :: tail).takeWhile (fun c => c ≠ null) :=
          List.takeWhile_cons_of_pos (by simpa using hx)
        rw [hmore]
        simp [hx]
  | cons r run =>
      have hnull' : null ∉ run := fun hmem => hnull (List.mem_cons_of_mem r hmem)
      by_cases hx : x = null
      · simp [hx]
      · have hmore : (x :: (r :: run ++ null :: x :: tail).drop 1).takeWhile
            (fun c => c ≠ null) =
            x :: run := by
          rw [List.takeWhile_cons_of_pos (by simpa using hx)]
          exact congrArg (x :: ·) (takeWhile_append_null hnull' (x :: tail))
        rw [hmore]
        simp [hx]

/-- When the string that is found at the old place has the length of the one
copied. -/
theorem string_shifted_iff (hnull : null ∉ run)
    (hrun : mem.drop i = run ++ null :: x :: tail) :
    (string null (shifted null x mem run) i).length = run.length <->
      i = 0 ∨ run.length + 2 <= i ∨ (i = run.length + 1 ∧
        (x = null <-> run.length = 0)) := by
  by_cases hfar : run.length + 2 <= i
  · rw [string_shifted_far hnull hrun hfar]
    exact ⟨fun _ => Or.inr (Or.inl hfar), fun _ => rfl⟩
  · by_cases hadj : i = run.length + 1
    · rw [string_shifted_adjacent hnull hrun hadj]
      constructor
      · intro h
        exact Or.inr (Or.inr ⟨hadj, h⟩)
      · rintro (h | h | ⟨_, h⟩)
        · omega
        · omega
        · exact h
    · rw [string_shifted_near hnull (by omega), List.length_drop]
      constructor
      · intro h
        by_cases hzero : i = 0
        · exact Or.inl hzero
        · omega
      · rintro (h | h | ⟨h, _⟩) <;> omega

end Shift

end Block
end Foundation
end Lepd
