import Lepd.Foundation.Cursor

/-!
# JSON trees and the bytes of JSON text

The value tree that the parser builds, the arithmetic it needs for numbers, and
names for the bytes its tests compare against.
-/

namespace Lepd
namespace CJson

/-- The `double` operations that parsing a number uses. -/
class CDouble (double : Type) where
  ofInt : Int -> double
  add : double -> double -> double
  mul : double -> double -> double
  /-- `pow(10.0, k)`. -/
  powTen : Int -> double
  /-- The conversion `(int)`. -/
  toInt : double -> Int

/-- A number that is not an `int` is converted to the least one. -/
def ratToInt (x : Rat) : Int :=
  let i := Int.tdiv x.num x.den
  if -(2 ^ 31) <= i ∧ i < 2 ^ 31 then i else -(2 ^ 31)

/-- The exact rationals, which a `double` agrees with on small decimal numbers. -/
instance : CDouble Rat where
  ofInt n := n
  add x y := x + y
  mul x y := x * y
  powTen k := (10 : Rat) ^ k
  toInt := ratToInt

/-- A `cJSON` item: its type, the fields that the type uses, and its children. -/
inductive Item (double : Type) where
  | null
  | false
  | true
  | number (valuedouble : double) (valueint : Int)
  | string (valuestring : List UInt8)
  | array (child : List (Item double))
  | object (child : List (List UInt8 × Item double))

/-- Why an execution has no defined behaviour. -/
inductive Fault where
  /-- A byte outside the memory block was examined. -/
  | overread
  /-- A byte beyond the terminator of a string literal was examined. -/
  | literal
  /-- A variable was used before it was given a value. -/
  | indeterminate
  /-- The bound on the model's own recursion was reached. -/
  | depth
deriving DecidableEq

abbrev Parse (value : Type) : Type :=
  Foundation.Scan Fault UInt8 value

/-!
# Byte names
-/

@[simp] abbrev nul : UInt8 := 0
@[simp] abbrev quote : UInt8 := 34
@[simp] abbrev plus : UInt8 := 43
@[simp] abbrev comma : UInt8 := 44
@[simp] abbrev minus : UInt8 := 45
@[simp] abbrev dot : UInt8 := 46
@[simp] abbrev zeroDigit : UInt8 := 48
@[simp] abbrev colon : UInt8 := 58
@[simp] abbrev upperE : UInt8 := 69
@[simp] abbrev lbracket : UInt8 := 91
@[simp] abbrev backslash : UInt8 := 92
@[simp] abbrev rbracket : UInt8 := 93
@[simp] abbrev lowerE : UInt8 := 101
@[simp] abbrev lowerU : UInt8 := 117
@[simp] abbrev lbrace : UInt8 := 123
@[simp] abbrev rbrace : UInt8 := 125

abbrev nullText : List UInt8 := [110, 117, 108, 108]

abbrev falseText : List UInt8 := [102, 97, 108, 115, 101]

/-- The letters of `true`. -/
abbrev trueText : List UInt8 := [116, 114, 117, 101]

def isspace (c : UInt8) : Bool :=
  c == 32 || (9 <= c && c <= 13)

def isDigit (c : UInt8) : Bool :=
  48 <= c && c <= 57

/-- What an `int` holds of a number, also where its arithmetic leaves its range. -/
def toInt32 (x : Int) : Int :=
  x.bmod (2 ^ 32)

/-- The part of a stored byte string that C code sees: the bytes up to the first
NUL. -/
def cString (out : List UInt8) : List UInt8 :=
  out.takeWhile (fun c => c != nul)

end CJson
end Lepd
