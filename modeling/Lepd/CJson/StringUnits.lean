import Lepd.CJson.Parser

/-!
# The two passes over a string

`parse_string` reads a string twice: a counting pass that finds out how much to
allocate, and a copying pass that fills the allocation.  Each pass is a reading
of the same bytes as a sequence of units, and the two readings differ in the
units that begin with a backslash.
-/

namespace Lepd
namespace CJson

open Foundation
open Foundation.Scan

def AtDelimiter (stop : List UInt8) : Prop :=
  exists c rest, stop = c :: rest ∧ (c = quote ∨ c = nul)

def Plain (c : UInt8) : Prop :=
  c ≠ quote ∧ c ≠ nul ∧ c ≠ backslash

/-- A body read as units of the counting pass: a plain byte, or a backslash and
its successor. -/
inductive CountBody : List UInt8 -> Nat -> Prop where
  | nil : CountBody [] 0
  | plain {c : UInt8} {body : List UInt8} {n : Nat} :
      Plain c -> CountBody body n -> CountBody (c :: body) (n + 1)
  | escape {c : UInt8} {body : List UInt8} {n : Nat} :
      CountBody body n -> CountBody (backslash :: c :: body) (n + 1)

/--
A body read as units of the copying pass, with the memory after it and the bytes
it stores.  A `\u` escape takes four bytes, or ten when it is one half of a pair.
-/
inductive CopyBody : Cells -> List UInt8 -> List UInt8 -> List UInt8 -> Prop where
  | nil {cells : Cells} {after : List UInt8} : CopyBody cells [] after []
  | plain {cells : Cells} {c : UInt8} {body after out : List UInt8} :
      Plain c -> CopyBody cells body after out ->
      CopyBody cells (c :: body) after (c :: out)
  | escape {cells : Cells} {d : UInt8} {body after out : List UInt8} :
      d ≠ lowerU -> CopyBody cells body after out ->
      CopyBody cells (backslash :: d :: body) after (unescape d :: out)
  | unicode {cells : Cells} {done : Transcoded} {a b c d : UInt8}
      {body after out : List UInt8} :
      transcode cells (a :: b :: c :: d :: (body ++ after)) = .ok done ->
      done.pair = false ->
      CopyBody done.cells body after out ->
      CopyBody cells (backslash :: lowerU :: a :: b :: c :: d :: body) after
        (done.bytes ++ out)
  | surrogates {cells : Cells} {done : Transcoded} {a b c d e f g h i j : UInt8}
      {body after out : List UInt8} :
      transcode cells (a :: b :: c :: d :: e :: f :: g :: h :: i :: j ::
        (body ++ after)) =
        .ok done ->
      done.pair = true ->
      CopyBody done.cells body after out ->
      CopyBody cells
        (backslash :: lowerU :: a :: b :: c :: d :: e :: f :: g :: h :: i ::
          j :: body) after
        (done.bytes ++ out)

/-!
# The counting pass
-/

theorem countPass_stop {c : UInt8} (hc : c = quote ∨ c = nul) (len : Nat)
    (cur : List UInt8) :
    countPass len (c :: cur) = .ok len (c :: cur) := by
  rw [countPass.eq_def]
  simp only [if_pos hc]

theorem countPass_plain {c : UInt8} (hc : Plain c) (len : Nat) (cur : List UInt8) :
    countPass len (c :: cur) = countPass (len + 1) cur := by
  rw [countPass.eq_def]
  simp only [hc.left, hc.right.left, hc.right.right, or_self, if_false]

theorem countPass_escape (len : Nat) (c : UInt8) (cur : List UInt8) :
    countPass len (backslash :: c :: cur) = countPass (len + 1) cur := rfl

theorem countPass_sound {len n : Nat} {text stop : List UInt8}
    (h : countPass len text = .ok n stop) :
    exists body k, text = body ++ stop ∧ CountBody body k ∧ n = len + k ∧
      AtDelimiter stop := by
  fun_induction countPass len text with
  | case1 len =>
      cases h
  | case2 len c cur hc =>
      cases h
      exact ⟨[], 0, rfl, .nil, rfl, c, cur, rfl, hc⟩
  | case3 len hc =>
      cases h
  | case4 len d cur hc ih =>
      rcases ih h with ⟨body, k, hbody, hcount, hn, hstop⟩
      exact ⟨backslash :: d :: body, k + 1, by rw [hbody]; rfl, .escape hcount,
        by omega, hstop⟩
  | case5 len c cur hc hback ih =>
      rcases ih h with ⟨body, k, hbody, hcount, hn, hstop⟩
      have hplain : Plain c :=
        ⟨fun hquote => hc (Or.inl hquote), fun hnul => hc (Or.inr hnul), hback⟩
      exact ⟨c :: body,
        k + 1, by rw [hbody]; rfl, .plain hplain hcount, by omega, hstop⟩

theorem countPass_complete {body : List UInt8} {k : Nat} (h : CountBody body k)
    {stop : List UInt8} (hstop : AtDelimiter stop) (len : Nat) :
    countPass len (body ++ stop) = .ok (len + k) stop := by
  induction h generalizing len with
  | nil =>
      rcases hstop with ⟨c, rest, rfl, hc⟩
      exact countPass_stop hc len rest
  | plain hplain _ ih =>
      rw [List.cons_append, countPass_plain hplain, ih, Nat.add_right_comm,
        Nat.add_assoc]
  | escape _ ih =>
      rw [List.cons_append, List.cons_append, countPass_escape, ih,
        Nat.add_right_comm,
        Nat.add_assoc]

/-!
# The copying pass
-/

theorem copyPass_stop {c : UInt8} (hc : c = quote ∨ c = nul) (cells : Cells)
    (out cur : List UInt8) :
    copyPass cells out (c :: cur) = .ok out (c :: cur) := by
  rw [copyPass.eq_def]
  simp only [if_pos hc]

theorem copyPass_plain {c : UInt8} (hc : Plain c) (cells : Cells)
    (out cur : List UInt8) :
    copyPass cells out (c :: cur) = copyPass cells (out ++ [c]) cur := by
  rw [copyPass.eq_def]
  simp only [hc.left, hc.right.left, hc.right.right, or_self, if_false, ne_eq,
    not_false_eq_true, if_true]

theorem copyPass_escape {d : UInt8} (hd : d ≠ lowerU) (cells : Cells)
    (out cur : List UInt8) :
    copyPass cells out (backslash :: d :: cur) =
      copyPass cells (out ++ [unescape d]) cur := by
  rw [copyPass.eq_def]
  simp [hd]

theorem copyPass_unicode {cells : Cells} {done : Transcoded} {a b c d : UInt8}
    {cur : List UInt8}
    (h : transcode cells (a :: b :: c :: d :: cur) = .ok done)
    (hpair : done.pair = false) (out : List UInt8) :
    copyPass cells out (backslash :: lowerU :: a :: b :: c :: d :: cur) =
      copyPass done.cells (out ++ done.bytes) cur := by
  rw [copyPass.eq_def]
  simp [h, hpair]

theorem copyPass_surrogates {cells : Cells} {done : Transcoded}
    {a b c d e f g h i j : UInt8} {cur : List UInt8}
    (hdone : transcode cells (a :: b :: c :: d :: e :: f :: g :: h :: i :: j ::
    cur) = .ok done)
    (hpair : done.pair = true) (out : List UInt8) :
    copyPass cells out
        (backslash :: lowerU :: a :: b :: c :: d :: e :: f :: g :: h :: i ::
          j :: cur) =
      copyPass done.cells (out ++ done.bytes) cur := by
  rw [copyPass.eq_def]
  simp [hdone, hpair]

theorem copyPass_sound {cells : Cells} {out stored text stop : List UInt8}
    (h : copyPass cells out text = .ok stored stop) :
    exists body new, text = body ++ stop ∧ CopyBody cells body stop new ∧
      stored = out ++ new ∧ AtDelimiter stop := by
  fun_induction copyPass cells out text with
  | case1 => 
      cases h
  | case2 cells out c cur hc =>
      cases h
      exact ⟨[], [], rfl, .nil, by simp, c, cur, rfl, hc⟩
  | case3 cells out c cur hc hback ih =>
      rcases ih h with ⟨body, new, hbody, hcopy, hstored, hstop⟩
      have hplain : Plain c :=
        ⟨fun hquote => hc (Or.inl hquote), fun hnul => hc (Or.inr hnul), hback⟩
      exact ⟨c :: body, c :: new, by rw [hbody]; rfl, .plain hplain hcopy,
        by simp [hstored], hstop⟩
  | case4 =>
      cases h
  | case5 =>
      cases h
  | case6 cells out x hx hback done a b c d hpair e f g h' i j cur hdone ih =>
      rcases ih h with ⟨body, new, hbody, hcopy, hstored, hstop⟩
      have hx' : x = backslash := by simpa using hback
      rw [hbody] at hdone
      refine ⟨_, done.bytes ++ new, ?_, .surrogates hdone hpair hcopy, ?_, hstop⟩
      · rw [hx', hbody]
        rfl
      · simp [hstored]
  | case7 =>
      cases h
  | case8 cells out x hx hback done a b c d cur hpair hdone ih =>
      rcases ih h with ⟨body, new, hbody, hcopy, hstored, hstop⟩
      have hx' : x = backslash := by simpa using hback
      rw [hbody] at hdone
      refine ⟨_, done.bytes ++ new, ?_,
        .unicode hdone (by simpa using hpair) hcopy, ?_,
        hstop⟩
      · rw [hx', hbody]
        rfl
      · simp [hstored]
  | case9 =>
      cases h
  | case10 cells out x hx hback d text hd ih =>
      rcases ih h with ⟨body, new, hbody, hcopy, hstored, hstop⟩
      have hx' : x = backslash := by simpa using hback
      exact ⟨backslash :: d :: body, unescape d :: new, by rw [hx', hbody]; rfl,
        .escape hd hcopy, by simp [hstored], hstop⟩

theorem copyPass_complete {cells : Cells} {body stop new : List UInt8}
    (h : CopyBody cells body stop new) (hstop : AtDelimiter stop)
    (out : List UInt8) :
    copyPass cells out (body ++ stop) = .ok (out ++ new) stop := by
  induction h generalizing out with
  | nil =>
      rcases hstop with ⟨c, rest, rfl, hc⟩
      rw [List.nil_append, copyPass_stop hc, List.append_nil]
  | plain hplain _ ih =>
      rw [List.cons_append, copyPass_plain hplain, ih hstop]
      simp
  | escape hd _ ih =>
      rw [List.cons_append, List.cons_append, copyPass_escape hd, ih hstop]
      simp
  | unicode hdone hpair _ ih =>
      simp only [List.cons_append]
      rw [copyPass_unicode hdone hpair, ih hstop]
      simp
  | surrogates hdone hpair _ ih =>
      simp only [List.cons_append]
      rw [copyPass_surrogates hdone hpair, ih hstop]
      simp

end CJson
end Lepd
