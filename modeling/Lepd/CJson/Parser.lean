import Lepd.CJson.Syntax

/-!
# The stream parser

The functions of the parser, each under its name in the source.  A cursor
`char **value` is the rest of the memory block from the place it points to.  A
function that returns `NULL` leaves the cursor where its last step had put it,
since that is what a caller of the stream parser goes on to compare.

Allocation is taken to succeed.
-/

namespace Lepd
namespace CJson

open Foundation
open Foundation.Scan

variable {double : Type} [CDouble double]

def peek : Parse UInt8 :=
  Scan.peek .overread

def skip : Parse Unit
  | [] => .fault .overread
  | c :: cur => if isspace c then skip cur else .ok () (c :: cur)

/-!
# Literals
-/

/--
Compare the stream with a string literal, advancing while the bytes agree.  The
second list is the literal with its terminating NUL.
-/
def streamCmp : List UInt8 -> Parse Int
  | [], _ => .fault .literal
  | _ :: _, [] => .fault .overread
  | s :: str, c :: stream =>
      if c = s then streamCmp str stream
      else if s = nul then .ok 0 (c :: stream)
      else .ok ((c.toNat : Int) - s.toNat) (c :: stream)

/-!
# Numbers
-/

def numberDigits (n : double) (count : Nat) : Parse (double × Nat)
  | [] => .fault .overread
  | c :: cur =>
      if isDigit c then
        numberDigits
          (CDouble.add (CDouble.mul n (CDouble.ofInt 10))
            (CDouble.ofInt (c.toNat - 48)))
          (count + 1) cur
      else .ok (n, count) (c :: cur)

/-- Accumulate the digits of an exponent in an `int`. -/
def exponentDigits (subscale : Int) : Parse Int
  | [] => .fault .overread
  | c :: cur =>
      if isDigit c then exponentDigits
        (toInt32 (subscale * 10 + (c.toNat - 48))) cur
      else .ok subscale (c :: cur)

def accept (byte : UInt8) : Parse Bool := do
  let c <- peek
  if c = byte then do
    advance
    return true
  else return false

def integerPart : Parse double := do
  let _ <- accept zeroDigit
  let c <- peek
  if isDigit c ∧ c ≠ zeroDigit then do
    let (n, _) <- numberDigits (CDouble.ofInt 0) 0
    return n
  else return CDouble.ofInt 0

/-- The fractional part of a number: the value with its digits, and their count. -/
def fractionPart (n : double) : Parse (double × Nat) := do
  let c <- peek
  if c = dot then do
    let d <- Scan.peekNext .overread
    if isDigit d then do
      advance
      numberDigits n 0
    else return (n, 0)
  else return (n, 0)

def exponentSign : Parse Int := do
  let c <- peek
  if c = plus then do
    advance
    return 1
  else if c = minus then do
    advance
    return -1
  else return 1

def exponentPart : Parse Int := do
  let c <- peek
  if c = lowerE ∨ c = upperE then do
    advance
    let signsubscale <- exponentSign
    let subscale <- exponentDigits 0
    return toInt32 (subscale * signsubscale)
  else return 0

def parseNumber : Parse (Item double) := do
  let negative <- accept minus
  let n <- integerPart
  let (n, digits) <- fractionPart n
  let exponent <- exponentPart
  let sign : double := CDouble.ofInt (if negative then -1 else 1)
  let valuedouble :=
    CDouble.mul (CDouble.mul sign n) (CDouble.powTen (exponent - (digits : Int)))
  return .number valuedouble (CDouble.toInt valuedouble)

/-!
# Strings
-/

def hexValue (c : UInt8) : Option Nat :=
  if 48 <= c ∧ c <= 57 then some (c.toNat - 48)
  else if 97 <= c ∧ c <= 102 then some (c.toNat - 87)
  else if 65 <= c ∧ c <= 70 then some (c.toNat - 55)
  else none

def hexDigits : Nat -> List UInt8 -> List Nat
  | 0, _ => []
  | _, [] => []
  | width + 1, c :: text =>
      match hexValue c with
      | some d => d :: hexDigits width text
      | none => []

def hexNumber : List Nat -> Option Nat
  | [] => none
  | digits => some (digits.foldl (fun n d => 16 * n + d) 0)

def scanHex (width : Nat) (text : List UInt8) : Option Nat :=
  match text with
  | 48 :: x :: rest =>
      if x = 120 ∨ x = 88 then hexNumber (hexDigits (width - 2) rest)
      else hexNumber (hexDigits width text)
  | _ => hexNumber (hexDigits width text)

/--
The conversion `sscanf(text, "%4x", ..)`: white space, then an optional sign and
a hexadecimal number in at most four characters.  Without a number nothing is
stored.
-/
def sscanf4x (text : List UInt8) : Option UInt32 :=
  match text.dropWhile isspace with
  | 45 :: rest => (scanHex 3 rest).map (fun n => 0 - UInt32.ofNat n)
  | 43 :: rest => (scanHex 3 rest).map UInt32.ofNat
  | text => (scanHex 4 text).map UInt32.ofNat

def firstByteMark : Nat -> UInt32
  | 2 => 0xC0
  | 3 => 0xE0
  | 4 => 0xF0
  | 5 => 0xF8
  | 6 => 0xFC
  | _ => 0x00

def utf8Length (uc : UInt32) : Nat :=
  if uc < 0x80 then 1
  else if uc < 0x800 then 2
  else if uc < 0x10000 then 3
  else 4

/--
The fall-through switch of the transcoder: store the last bytes of a code in
front of those already stored.  The code is shifted as its bytes leave it.
-/
def storeUtf8 (len : Nat) : Nat -> UInt32 -> List UInt8 -> List UInt8 × UInt32
  | 0, uc, stored => (stored, uc)
  | 1, uc, stored => ((uc ||| firstByteMark len).toUInt8 :: stored, uc)
  | n + 2, uc, stored =>
      storeUtf8 len (n + 1) (uc >>> 6) (((uc ||| 0x80) &&& 0xBF).toUInt8 :: stored)

/-- The variables `uc` and `uc2`; a variable that was never given a value has
none. -/
structure Cells where
  uc : Option UInt32
  uc2 : Option UInt32

structure Transcoded where
  cells : Cells
  /-- The bytes it stores. -/
  bytes : List UInt8
  /-- It reads a second escape as the other half of a surrogate pair. -/
  pair : Bool

/-- Run `sscanf` on a string, into a variable that keeps its value on failure. -/
def scanInto (cell : Option UInt32) (text : List UInt8) : Except Fault UInt32 :=
  if nul ∉ text then .error .overread
  else
    match (sscanf4x text).or cell with
    | none => .error .indeterminate
    | some v => .ok v

def storeCode (uc : UInt32) (uc2 : Option UInt32) (pair : Bool) : Transcoded :=
  let stored := storeUtf8 (utf8Length uc) (utf8Length uc) uc []
  { cells := { uc := some stored.2, uc2 := uc2 }, bytes := stored.1, pair := pair }

def transcode (cells : Cells) (text : List UInt8) : Except Fault Transcoded := do
  let uc <- scanInto cells.uc text
  let invalid : Transcoded :=
    { cells := { uc := some uc, uc2 := cells.uc2 }, bytes := [], pair := false }
  if (0xDC00 <= uc ∧ uc <= 0xDFFF) ∨ uc = 0 then return invalid
  else if 0xD800 <= uc ∧ uc <= 0xDBFF then
    match text.drop 4 with
    | [] => .error .overread
    | b :: second =>
        if b ≠ backslash then return invalid
        else
          match second with
          | [] => .error .overread
          | u :: second =>
              if u ≠ lowerU then return invalid
              else do
                let uc2 <- scanInto cells.uc2 second
                if uc2 < 0xDC00 ∨ uc2 > 0xDFFF then
                  return { cells := { uc := some uc, uc2 := some uc2 },
                           bytes := [], pair := true }
                else
                  return storeCode
                    ((0x10000 : UInt32) ||| ((uc &&& 0x3FF) <<< 10) |||
                      (uc2 &&& 0x3FF))
                    (some uc2) true
  else return storeCode uc cells.uc2 false

/-- The byte that a one-letter escape stands for. -/
def unescape (c : UInt8) : UInt8 :=
  if c = 98 then 8
  else if c = 102 then 12
  else if c = 110 then 10
  else if c = 114 then 13
  else if c = 116 then 9
  else c

/-- The counting pass over a string: the length to allocate for it. -/
def countPass (len : Nat) : Parse Nat
  | [] => .fault .overread
  | c :: cur =>
      if c = quote ∨ c = nul then .ok len (c :: cur)
      else if c = backslash then
        match cur with
        | [] => .fault .overread
        | _ :: cur => countPass (len + 1) cur
      else countPass (len + 1) cur

/-- The copying pass over a string: the bytes it stores. -/
def copyPass (cells : Cells) (out : List UInt8) : Parse (List UInt8)
  | [] => .fault .overread
  | c :: cur =>
      if c = quote ∨ c = nul then .ok out (c :: cur)
      else if c ≠ backslash then copyPass cells (out ++ [c]) cur
      else
        match cur with
        | [] => .fault .overread
        | d :: text =>
            if d = lowerU then
              match transcode cells text with
              | .error reason => .fault reason
              | .ok done =>
                  match text with
                  | _ :: _ :: _ :: _ :: cur4 =>
                      if done.pair then
                        match cur4 with
                        | _ :: _ :: _ :: _ :: _ :: _ :: cur10 =>
                            copyPass done.cells (out ++ done.bytes) cur10
                        | _ => .fault .overread
                      else copyPass done.cells (out ++ done.bytes) cur4
                  | _ => .fault .overread
            else copyPass cells (out ++ [unescape d]) text

def lookahead {value : Type} (m : Parse value) : Parse value :=
  fun cur =>
    match m cur with
    | .ok a _ => .ok a cur
    | .null _ => .null cur
    | .fault reason => .fault reason

/-- Parse the input text into an unescaped string. -/
def parseString (cells : Cells) : Parse (List UInt8) := do
  let c <- peek
  if c ≠ quote then fail
  else do
    advance
    let _len <- lookahead (countPass 0)
    let out <- copyPass cells []
    let _ <- accept quote
    return cString out

/-!
# Values
-/

/--
What the stack slots of `uc` and `uc2` hold on entry to `parse_string`, for each
place that the cursor can have then.
-/
abbrev Stack : Type :=
  Nat -> UInt32 × UInt32

/-- Parse a string with whatever its unset variables hold. -/
def parseStringAt (stack : Stack) : Parse (List UInt8) :=
  fun cur =>
    parseString
      { uc := some (stack cur.length).1, uc2 := some (stack cur.length).2 } cur

def closeItems {item : Type} (closing : UInt8) (items : List item) :
    Parse (List item) := do
  let c <- peek
  if c ≠ closing then fail
  else do
    advance
    return items

def itemsLoop {item : Type} (closing : UInt8) (parseItem : Parse item) :
    Nat -> List item -> Parse (List item)
  | 0, _ => undefined .depth
  | fuel + 1, items => do
      let c <- peek
      if c = comma then do
        advance
        skip
        let c <- peek
        if c = closing then do
          advance
          closeItems closing items
        else do
          let child <- parseItem
          itemsLoop closing parseItem fuel (items ++ [child])
      else closeItems closing items

def parseItems {item : Type} (opening closing : UInt8) (parseItem : Parse item) :
    Parse (List item) := do
  let c <- peek
  if c ≠ opening then fail
  else do
    advance
    skip
    let c <- peek
    if c = closing then do
      advance
      return []
    else do
      let child <- parseItem
      fun cur => itemsLoop closing parseItem (cur.length + 1) [child] cur

def parseElement (parseValue : Parse (Item double)) : Parse (Item double) := do
  let child <- parseValue
  skip
  return child

def parseMember (stack : Stack) (parseValue : Parse (Item double)) :
    Parse (List UInt8 × Item double) := do
  let name <- parseStringAt stack
  skip
  let c <- peek
  if c ≠ colon then fail
  else do
    advance
    skip
    let child <- parseValue
    skip
    return (name, child)

def parseArray (parseValue : Parse (Item double)) : Parse (Item double) := do
  let items <- parseItems lbracket rbracket (parseElement parseValue)
  return .array items

def parseObject (stack : Stack) (parseValue : Parse (Item double)) :
    Parse (Item double) := do
  let members <- parseItems lbrace rbrace (parseMember stack parseValue)
  return .object members

def parseValue (stack : Stack) : Nat -> Parse (Item double)
  | 0 => undefined .depth
  | depth + 1 => do
      let cmp <- streamCmp (nullText ++ [nul])
      if cmp = 0 then return .null
      else do
        let cmp <- streamCmp (falseText ++ [nul])
        if cmp = 0 then return .false
        else do
          let cmp <- streamCmp (trueText ++ [nul])
          if cmp = 0 then return .true
          else do
            let c <- peek
            if c = quote then do
              let valuestring <- parseStringAt stack
              return .string valuestring
            else if c = minus ∨ isDigit c then parseNumber
            else if c = lbracket then parseArray (parseValue stack depth)
            else if c = lbrace then parseObject stack (parseValue stack depth)
            else fail

/-- Parse one value from a stream; the rest of the outcome is where `end_ptr`
points. -/
def cJSONParseStream (stack : Stack) : Parse (Item double) := do
  skip
  fun cur => parseValue stack (cur.length + 1) cur

end CJson
end Lepd
