import Mathlib.Data.Int.Log
import Mathlib.Data.Nat.Digits.Defs
import Mathlib.Data.Rat.Floor
import Lepd.CJson.Grammar

/-!
# The printer

The functions that render a tree as text, each under its name in the source.
Allocation is taken to succeed.
-/

namespace Lepd
namespace CJson

/-!
# Numbers
-/

inductive Conversion where
  /-- `%.0f` -/
  | whole
  /-- `%e` -/
  | exponent
  /-- `%f` -/
  | fixed
deriving DecidableEq

/-- The `double` operations that printing a number uses. -/
class CPrintf (double : Type) extends CDouble double where
  sub : double -> double -> double
  fabs : double -> double
  floor : double -> double
  le : double -> double -> Bool
  /-- `DBL_EPSILON` -/
  epsilon : double
  sprintf : Conversion -> double -> List UInt8

def digitsText (n : Nat) : List UInt8 :=
  if n = 0 then [zeroDigit]
  else (Nat.digits 10 n).reverse.map (fun d => zeroDigit + UInt8.ofNat d)

def decimalText (i : Int) : List UInt8 :=
  if i < 0 then minus :: digitsText i.natAbs else digitsText i.natAbs

def fixedText (places : Nat) (x : Rat) : List UInt8 :=
  let n := (|x| * 10 ^ places + 1 / 2).floor.toNat
  let sign := if x < 0 then [minus] else []
  let fraction := (digitsText (10 ^ places + n % 10 ^ places)).tail
  sign ++ (digitsText (n / 10 ^ places) ++ if places = 0 then []
    else dot :: fraction)

def exponentText (x : Rat) : List UInt8 :=
  let k : Int := if x = 0 then 0 else Int.log 10 |x|
  let digits := digitsText k.natAbs
  let padding := if digits.length < 2 then [zeroDigit] else []
  fixedText 6 (x / 10 ^ k) ++ (lowerE :: (if k < 0 then minus else plus) ::
    (padding ++ digits))

instance : CPrintf Rat where
  sub x y := x - y
  fabs x := |x|
  floor x := x.floor
  le x y := decide (x <= y)
  epsilon := 1 / 2 ^ 52
  sprintf
    | .whole, x => fixedText 0 x
    | .exponent, x => exponentText x
    | .fixed, x => fixedText 6 x

variable {double : Type} [CPrintf double]

def less (x y : double) : Bool :=
  !CPrintf.le y x

def printNumber (d : double) (valueint : Int) : List UInt8 :=
  if CPrintf.le (CPrintf.fabs (CPrintf.sub (CDouble.ofInt valueint) d))
    CPrintf.epsilon ∧
      CPrintf.le d (CDouble.ofInt (2 ^ 31 - 1)) ∧
        CPrintf.le (CDouble.ofInt (-2 ^ 31)) d then
    decimalText valueint
  else if CPrintf.le (CPrintf.fabs (CPrintf.sub (CPrintf.floor d) d))
    CPrintf.epsilon then
    CPrintf.sprintf .whole d
  else if less (CPrintf.fabs d) (CDouble.powTen (-6)) ∨
      less (CDouble.powTen 9) (CPrintf.fabs d) then
    CPrintf.sprintf .exponent d
  else CPrintf.sprintf .fixed d

/-!
# Strings
-/

def hexDigitText (n : Nat) : UInt8 :=
  if n < 10 then UInt8.ofNat (48 + n) else UInt8.ofNat (87 + n)

/-- What stands for a byte of a string. -/
def escape (c : UInt8) : List UInt8 :=
  if 31 < c ∧ c ≠ quote ∧ c ≠ backslash then [c]
  else if c = backslash then [backslash, backslash]
  else if c = quote then [backslash, quote]
  else if c = 8 then [backslash, 98]
  else if c = 12 then [backslash, 102]
  else if c = 10 then [backslash, 110]
  else if c = 13 then [backslash, 114]
  else if c = 9 then [backslash, 116]
  else [backslash, lowerU, zeroDigit, zeroDigit, hexDigitText (c.toNat / 16),
    hexDigitText (c.toNat % 16)]

def printStringPtr (str : List UInt8) : List UInt8 :=
  quote :: ((str.map escape).flatten ++ [quote])

/-!
# Values
-/

abbrev tab : UInt8 := 9
abbrev newline : UInt8 := 10

def composeArray (fmt : Bool) : List (List UInt8) -> List UInt8
  | [] => []
  | [entry] => entry
  | entry :: entries =>
      entry ++ (comma :: ((if fmt then [32] else []) ++ composeArray fmt entries))

def composeObject (depth : Nat) (fmt : Bool) : List (List UInt8 × List UInt8) ->
    List UInt8
  | [] => []
  | (name, entry) :: entries =>
      (if fmt then List.replicate depth tab else []) ++ name ++
        (colon :: ((if fmt then [tab] else []) ++ entry ++
          (if entries.isEmpty then [] else [comma]) ++
          (if fmt then [newline] else []) ++ composeObject depth fmt entries))

mutual

/-- Render a value to text. -/
def printValue (depth : Nat) (fmt : Bool) : Item double -> List UInt8
  | .null => nullText
  | .false => falseText
  | .true => trueText
  | .number d i => printNumber d i
  | .string s => printStringPtr s
  | .array items =>
      lbracket :: (composeArray fmt (printItems (depth + 1) fmt items) ++
      [rbracket])
  | .object members =>
      lbrace :: ((if fmt then [newline] else []) ++
        (composeObject (depth + 1) fmt (printMembers (depth + 1) fmt members) ++
          ((if fmt then List.replicate depth tab else []) ++ [rbrace])))

def printItems (depth : Nat) (fmt : Bool) : List (Item double) -> List (List UInt8)
  | [] => []
  | item :: items => printValue depth fmt item :: printItems depth fmt items

def printMembers (depth : Nat) (fmt : Bool) :
    List (List UInt8 × Item double) -> List (List UInt8 × List UInt8)
  | [] => []
  | (name, item) :: members =>
      (printStringPtr name, printValue depth fmt item) ::
        printMembers depth fmt members

end

def cJSONPrint (item : Item double) : List UInt8 :=
  printValue 0 true item

def cJSONPrintUnformatted (item : Item double) : List UInt8 :=
  printValue 0 false item

end CJson
end Lepd
