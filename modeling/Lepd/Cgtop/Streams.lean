import Mathlib.Data.List.TakeWhile
import Lepd.CJson.Syntax
import Lepd.Ps.Globals

/-!
# Streams of cgtop

What is left to read of an open file, and how reading it ends.
-/

namespace Lepd
namespace Cgtop

open Ps (Text bytes byte isspace isdigit)
open CJson (cString)

inductive Ending where
  /-- The end of the file. -/
  | eof
  /-- Every further read fails. -/
  | error
deriving DecidableEq

structure Stream where
  rest : Text
  ending : Ending
  /-- The indicator that `feof` answers. -/
  eof : Bool
deriving DecidableEq

namespace Stream

/-- A file that has just been opened. -/
def opened (content : Text) (ending : Ending) : Stream :=
  ⟨content, ending, false⟩

def atEnd (f : Stream) : Stream :=
  { f with rest := [], eof := decide (f.ending = .eof) }

/-- The next byte to be read is the first of `rest`; to find none takes a read,
too. -/
def upTo (f : Stream) (rest : Text) : Stream :=
  if rest = [] then f.atEnd else { f with rest := rest }

def Coherent (f : Stream) : Prop :=
  f.eof = true -> f.rest = [] ∧ f.ending = .eof

theorem coherent_opened (content : Text) (ending : Ending) :
    (opened content ending).Coherent := by
  intro h
  cases h

theorem atEnd_eof (f : Stream) : f.atEnd.eof = true <-> f.ending = .eof :=
  decide_eq_true_iff

theorem coherent_atEnd (f : Stream) : f.atEnd.Coherent := by
  intro h
  exact ⟨rfl, f.atEnd_eof.mp h⟩

theorem Coherent.eof_eq_false {f : Stream} (h : f.Coherent)
    (hrest : f.rest ≠ []) : f.eof = false := by
  cases heof : f.eof with
  | false =>
      rfl
  | true =>
      exact absurd (h heof).left hrest

theorem upTo_nil (f : Stream) : f.upTo [] = f.atEnd := rfl

theorem upTo_of_ne {rest : Text} (f : Stream) (h : rest ≠ []) :
    f.upTo rest = { f with rest := rest } :=
  if_neg h

@[simp] theorem upTo_rest (f : Stream) (rest : Text) :
    (f.upTo rest).rest = rest := by
  by_cases h : rest = []
  · rw [h]
    rfl
  · rw [f.upTo_of_ne h]

@[simp] theorem upTo_ending (f : Stream) (rest : Text) :
    (f.upTo rest).ending = f.ending := by
  unfold upTo
  split
  · rfl
  · rfl

theorem Coherent.upTo {f : Stream} (h : f.Coherent) (hrest : f.rest ≠ [])
    (rest : Text) :
    (f.upTo rest).Coherent := by
  by_cases hempty : rest = []
  · rw [hempty, upTo_nil]
    exact f.coherent_atEnd
  · rw [f.upTo_of_ne hempty]
    intro heof
    exact absurd (h heof).left hrest

end Stream

theorem cString_of_plain {text : Text} (h : forall c, c ∈ text -> c ≠ 0) :
    cString text = text := by
  unfold cString
  rw [List.takeWhile_eq_self_iff]
  intro c hc
  simpa using h c hc

def newline : UInt8 := 10

def takeLine : Nat -> Text -> Text × Text
  | 0, content => ([], content)
  | _ + 1, [] => ([], [])
  | n + 1, c :: content =>
      if c = newline then ([c], content)
      else (c :: (takeLine n content).1, (takeLine n content).2)

def fgets (size : Nat) (f : Stream) : Option (Text × Stream) :=
  let (line, rest) := takeLine (size - 1) f.rest
  if line.getLast? = some newline ∨ line.length = size - 1 then
    some (line, { f with rest := rest })
  else if line = [] ∨ f.ending = .error then none
  else some (line, f.atEnd)

def fscanfLu (f : Stream) : Option Nat × Stream :=
  match f.rest.dropWhile isspace with
  | [] => (none, f.atEnd)
  | c :: cs =>
      let number := if c = byte '-' ∨ c = byte '+' then cs else c :: cs
      let digits := number.takeWhile isdigit
      let f := f.upTo (number.dropWhile isdigit)
      if digits = [] then (none, f)
      else
        let n := (Ps.scanDigits 10 0 digits).1
        (some (if Ps.ulongMax < n then Ps.ulongMax else if c = byte '-' then
          (2 ^ 64 - n) % 2 ^ 64 else n), f)

end Cgtop
end Lepd
