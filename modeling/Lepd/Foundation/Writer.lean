import Lepd.Foundation.Block

/-!
# Filling a block

A routine that composes a text stores it cell by cell into a block that was
allocated before. It answers nothing when it would store a cell outside of the
block. What such a routine appends, and how far it reaches while it does so, is
known of a sequence of routines when it is known of each of them.
-/

namespace Lepd
namespace Foundation

structure Writer (cell : Type) where
  mem : List cell
  ptr : Nat

namespace Writer

variable {cell : Type}

/-- Nothing is stored yet. -/
def start (mem : List cell) : Writer cell :=
  ⟨mem, 0⟩

def put (c : cell) (w : Writer cell) : Option (Writer cell) :=
  (Block.write w.mem w.ptr [c]).map (fun mem => ⟨mem, w.ptr + 1⟩)

/-- `*ptr = c` -/
def store (c : cell) (w : Writer cell) : Option (Writer cell) :=
  (Block.write w.mem w.ptr [c]).map (fun mem => ⟨mem, w.ptr⟩)

def memcpy (cells : List cell) (w : Writer cell) : Option (Writer cell) :=
  (Block.write w.mem w.ptr cells).map (fun mem => ⟨mem, w.ptr + cells.length⟩)

def copy (null : cell) (cells : List cell) (w : Writer cell) :
    Option (Writer cell) :=
  (Block.write w.mem w.ptr (cells ++ [null])).map (fun mem =>
    ⟨mem, w.ptr + cells.length⟩)

def optionally (wanted : Bool) (write : Writer cell -> Option (Writer cell))
    (w : Writer cell) :
    Option (Writer cell) :=
  if wanted then write w else some w

def fill (c : cell) : Nat -> Writer cell -> Option (Writer cell)
  | 0, w => some w
  | n + 1, w => do
      let w <- put c w
      fill c n w

/-- The string at the front of the block. -/
def string [DecidableEq cell] (null : cell) (w : Writer cell) :
    Option (List cell) :=
  (Block.strlen null w.mem 0).map (fun n => w.mem.take n)

/-!
# What is stored
-/

/-- The cells in front of `ptr`, and the size of the block. -/
structure Holds (size : Nat) (cells : List cell) (w : Writer cell) : Prop where
  size : w.mem.length = size
  ptr : w.ptr = cells.length
  cells : w.mem.take w.ptr = cells

theorem holds_start (mem : List cell) : Holds mem.length [] (start mem) where
  size := rfl
  ptr := rfl
  cells := List.take_zero

theorem Holds.length_le {size : Nat} {cells : List cell} {w : Writer cell}
    (h : Holds size cells w) :
    cells.length <= size := by
  rw [← h.cells, ← h.size]
  exact List.length_take_le' _ _

theorem Holds.string [DecidableEq cell] {null : cell} {size : Nat}
    {cells : List cell} {w : Writer cell}
    (h : Holds size (cells ++ [null]) w) (hnull : null ∉ cells) :
    w.string null = some cells := by
  have hmem : w.mem.drop 0 = cells ++ null :: w.mem.drop w.ptr := by
    calc
      w.mem.drop 0 = w.mem.take w.ptr ++ w.mem.drop w.ptr :=
        (List.take_append_drop w.ptr w.mem).symm
      _ = cells ++ null :: w.mem.drop w.ptr := by
        rw [h.cells, List.append_assoc]; rfl
  unfold Writer.string
  rw [Block.strlen_of_drop hnull hmem, Option.map_some,
    ← List.drop_zero (l := w.mem), hmem, List.take_left]

/--
A routine appends some cells, if the block has room for the cells stored before
and for `reach` more.
-/
def Appends (write : Writer cell -> Option (Writer cell)) (cells : List cell)
    (reach : Nat) : Prop :=
  forall (size : Nat) (before : List cell) (w : Writer cell), Holds size before w ->
    before.length + reach <= size -> exists w', write w = some w' ∧
      Holds size (before ++ cells) w'

theorem Holds.write {size : Nat} {before cells : List cell} {w : Writer cell}
    (h : Holds size before w)
    (hroom : before.length + cells.length <= size) :
    exists mem, Block.write w.mem w.ptr cells = some mem ∧ mem.length = size ∧
      mem.take (w.ptr + cells.length) = before ++ cells ∧ mem.take w.ptr =
        before := by
  have hfits : w.ptr + cells.length <= w.mem.length := by
    rw [h.ptr, h.size]
    exact hroom
  have hwrite := Block.write_of_le hfits
  have hbefore := (Block.write_take hwrite).trans h.cells
  have hbehind :
      (w.mem.take w.ptr ++ (cells ++ w.mem.drop (w.ptr + cells.length))).take
      (w.ptr + cells.length) =
      before ++ cells := by
    rw [h.cells, h.ptr, List.take_length_add_append, List.take_left]
  exact ⟨_, hwrite, (Block.write_length hwrite).trans h.size, hbehind, hbefore⟩

theorem appends_memcpy (cells : List cell) :
    Appends (memcpy cells) cells cells.length := by
  intro size before w h hroom
  rcases h.write hroom with ⟨mem, hwrite, hsize, hcells, _⟩
  refine ⟨⟨mem, w.ptr + cells.length⟩, congrArg (Option.map _) hwrite, hsize,
    ?_, hcells⟩
  rw [List.length_append, ← h.ptr]

theorem appends_put (c : cell) : Appends (put c) [c] 1 :=
  appends_memcpy [c]

theorem appends_store (c : cell) : Appends (store c) [] 1 := by
  intro size before w h hroom
  have hroom' : before.length + [c].length <= size := hroom
  rcases h.write hroom' with ⟨mem, hwrite, hsize, _, hcells⟩
  rw [List.append_nil]
  exact ⟨⟨mem, w.ptr⟩, congrArg (Option.map _) hwrite, hsize, h.ptr, hcells⟩

theorem appends_copy (null : cell) (cells : List cell) :
    Appends (copy null cells) cells (cells.length + 1) := by
  intro size before w h hroom
  have hlength : (cells ++ [null]).length = cells.length + 1 := List.length_append
  have hroom' : before.length + (cells ++ [null]).length <= size := by
    rw [hlength]
    exact hroom
  rcases h.write hroom' with ⟨mem, hwrite, hsize, hcells, _⟩
  refine ⟨⟨mem, w.ptr + cells.length⟩, congrArg (Option.map _) hwrite, hsize,
    ?_, ?_⟩
  · rw [List.length_append, ← h.ptr]
  · rw [hlength] at hcells
    have hless : w.ptr + cells.length <= w.ptr + (cells.length + 1) := Nat.le_succ _
    have htake := congrArg (List.take (w.ptr + cells.length)) hcells
    rw [List.take_take, Nat.min_eq_left hless, ← List.append_assoc, h.ptr,
      ← List.length_append,
      List.take_left] at htake
    show mem.take (w.ptr + cells.length) = before ++ cells
    rw [h.ptr, ← List.length_append]
    exact htake

theorem appends_none : Appends (some : Writer cell -> Option (Writer cell))
    [] 0 := by
  intro size before w h _
  rw [List.append_nil]
  exact ⟨w, rfl, h⟩

variable {write next : Writer cell -> Option (Writer cell)} {cells more :
  List cell} {reach further : Nat}

theorem Appends.mono (h : Appends write cells reach)
    (hreach : reach <= further) : Appends write cells further := by
  intro size before w hw hroom
  exact h size before w hw (Nat.le_trans (Nat.add_le_add_left hreach _) hroom)

theorem Appends.congr (h : Appends write cells reach) (hcells : cells = more)
    (hreach : reach <= further) :
    Appends write more further := by
  rw [← hcells]
  exact h.mono hreach

theorem Appends.bind (h : Appends write cells reach)
    (h' : Appends next more further) :
    Appends (fun w => (write w).bind next) (cells ++ more)
      (max reach (cells.length + further)) := by
  intro size before w hw hroom
  rcases h size before w hw
    (Nat.le_trans (Nat.add_le_add_left (Nat.le_max_left _ _) _) hroom) with
    ⟨w', hwrite, hw'⟩
  have hmore : (before ++ cells).length + further <= size := by
    rw [List.length_append, Nat.add_assoc]
    exact Nat.le_trans (Nat.add_le_add_left (Nat.le_max_right _ _) _) hroom
  rcases h' size _ w' hw' hmore with ⟨w'', hnext, hw''⟩
  refine ⟨w'', ?_, ?_⟩
  · show (write w).bind next = some w''
    rw [hwrite, Option.bind_some]
    exact hnext
  · rw [← List.append_assoc]
    exact hw''

theorem Appends.optionally (wanted : Bool) (h : Appends write cells reach) :
    Appends (optionally wanted write) (if wanted then cells else [])
      (if wanted then reach else 0) := by
  cases wanted with
  | false =>
      exact appends_none
  | true =>
      exact h

theorem appends_fill (c : cell) (n : Nat) :
    Appends (fill c n) (List.replicate n c) n := by
  induction n with
  | zero =>
      exact appends_none
  | succ n ih =>
      have hboth := Appends.bind (appends_put c) ih
      have hreach : max 1 ([c].length + n) = n + 1 := by
        rw [List.length_singleton, Nat.add_comm,
          Nat.max_eq_right (Nat.le_add_left 1 n)]
      rw [hreach] at hboth
      exact hboth

theorem Appends.run (h : Appends write cells reach) {mem : List cell}
    (hroom : reach <= mem.length) :
    exists w, write (start mem) = some w ∧ Holds mem.length cells w :=
  h _ _ _ (holds_start mem) (by rw [List.length_nil, Nat.zero_add]; exact hroom)

end Writer
end Foundation
end Lepd
