import Mathlib.Algebra.Order.Ring.Nat
import Mathlib.Data.List.Basic
import Lepd.CJson.Parser

/-!
# The JSON grammar

The grammar of RFC 8259 over bytes, together with the tree that a text denotes.
A string may hold any byte from 0x20 on other than a quote and a backslash, so
every well-formed JSON text in UTF-8 belongs to the grammar.

The two containers are one production with a parameter, the kind of container.
-/

namespace Lepd
namespace CJson

open Foundation

variable {double : Type} [CDouble double]

/-!
# Tokens
-/

def IsWs (c : UInt8) : Prop :=
  c = 32 ∨ c = 9 ∨ c = 10 ∨ c = 13

def Ws (w : List UInt8) : Prop :=
  forall c, c ∈ w -> IsWs c

theorem ws_nil : Ws [] := by
  intro c hc
  cases hc

def Digits (ds : List UInt8) : Prop :=
  forall c, c ∈ ds -> isDigit c = true

theorem digits_nil : Digits [] := by
  intro c hc
  cases hc

structure ExponentText where
  letter : UInt8
  sign : List UInt8
  digits : List UInt8
  letter_eq : letter = lowerE ∨ letter = upperE
  sign_eq : sign = [] ∨ sign = [plus] ∨ sign = [minus]
  digits_digits : Digits digits

/--
A text that `parse_number` reads as one number.  An absent fraction has no
digits.  The digits before it and those of the exponent may still be missing.
-/
structure NumberText where
  negative : Bool
  int : List UInt8
  frac : List UInt8
  exp : Option ExponentText
  int_digits : Digits int
  int_leading : int = [] ∨ int = [zeroDigit] ∨ exists c rest, int = c :: rest ∧
    c ≠ zeroDigit
  frac_digits : Digits frac

/-- The number has all the digits that the grammar asks for. -/
def NumberText.Complete (n : NumberText) : Prop :=
  n.int ≠ [] ∧ forall e, n.exp = some e -> e.digits ≠ []

def ExponentText.text (e : ExponentText) : List UInt8 :=
  e.letter :: (e.sign ++ e.digits)

namespace NumberText

def signText (n : NumberText) : List UInt8 :=
  if n.negative then [minus] else []

def fracText (n : NumberText) : List UInt8 :=
  if n.frac = [] then [] else dot :: n.frac

def expText (n : NumberText) : List UInt8 :=
  match n.exp with
  | none => []
  | some e => e.text

def text (n : NumberText) : List UInt8 :=
  n.signText ++ (n.int ++ (n.fracText ++ n.expText))

def accumulate (x : double) (ds : List UInt8) : double :=
  ds.foldl
    (fun x c => CDouble.add (CDouble.mul x (CDouble.ofInt 10))
    (CDouble.ofInt (c.toNat - 48)))
    x

def intValue (n : NumberText) : double :=
  if n.int = [zeroDigit] then CDouble.ofInt 0
  else accumulate (CDouble.ofInt 0) n.int

def expValue (n : NumberText) : Int :=
  match n.exp with
  | none => 0
  | some e =>
      e.digits.foldl (fun k c => k * 10 + ((c.toNat : Int) - 48)) 0 *
        (if e.sign = [minus] then -1 else 1)

def subscale (n : NumberText) : Int :=
  match n.exp with
  | none => 0
  | some e =>
      toInt32 (e.digits.foldl (fun k c =>
        toInt32 (k * 10 + ((c.toNat : Int) - 48))) 0 *
        (if e.sign = [minus] then -1 else 1))

def value (n : NumberText) : double :=
  CDouble.mul
    (CDouble.mul (CDouble.ofInt (if n.negative then -1 else 1))
    (accumulate n.intValue n.frac))
    (CDouble.powTen (n.subscale - (n.frac.length : Int)))

def item (n : NumberText) : Item double :=
  .number n.value (CDouble.toInt (n.value : double))

end NumberText

def escapeLetters : List UInt8 :=
  [34, 92, 47, 98, 102, 110, 114, 116]

inductive StringChar where
  | raw (c : UInt8) (h : 32 <= c ∧ c ≠ quote ∧ c ≠ backslash)
  | short (d : UInt8) (h : d ∈ escapeLetters)
  | unicode (a b c d : UInt8)
      (h : (hexValue a).isSome ∧ (hexValue b).isSome ∧ (hexValue c).isSome ∧
        (hexValue d).isSome)

def StringChar.text : StringChar -> List UInt8
  | .raw c _ => [c]
  | .short d _ => [backslash, d]
  | .unicode a b c d _ => [backslash, lowerU, a, b, c, d]

def charsText (s : List StringChar) : List UInt8 :=
  (s.map StringChar.text).flatten

def stringText (s : List StringChar) : List UInt8 :=
  quote :: (charsText s ++ [quote])

def hexCode (a b c d : UInt8) : UInt32 :=
  UInt32.ofNat ([a, b, c, d].foldl (fun n x => 16 * n + (hexValue x).getD 0) 0)

def utf8Bytes (uc : UInt32) : List UInt8 :=
  (storeUtf8 (utf8Length uc) (utf8Length uc) uc []).1

def pairCode (uc uc2 : UInt32) : UInt32 :=
  (0x10000 : UInt32) ||| ((uc &&& 0x3FF) <<< 10) ||| (uc2 &&& 0x3FF)

def decodeChars : List StringChar -> List UInt8
  | [] => []
  | .raw c _ :: s => c :: decodeChars s
  | .short d _ :: s => unescape d :: decodeChars s
  | .unicode a b c d _ :: s =>
      if (0xDC00 <= hexCode a b c d ∧ hexCode a b c d <= 0xDFFF) ∨
        hexCode a b c d = 0 then
        decodeChars s
      else if 0xD800 <= hexCode a b c d ∧ hexCode a b c d <= 0xDBFF then
        match s with
        | .unicode e f g h _ :: s =>
            if hexCode e f g h < 0xDC00 ∨ hexCode e f g h > 0xDFFF then
              decodeChars s
            else utf8Bytes (pairCode (hexCode a b c d) (hexCode e f g h)) ++
              decodeChars s
        | s => decodeChars s
      else utf8Bytes (hexCode a b c d) ++ decodeChars s

def stringValue (s : List StringChar) : List UInt8 :=
  cString (decodeChars s)

/-!
# Texts and trees
-/

inductive Kind where
  | array
  | object
deriving DecidableEq

namespace Kind

def opening : Kind -> UInt8
  | .array => lbracket
  | .object => lbrace

def closing : Kind -> UInt8
  | .array => rbracket
  | .object => rbrace

abbrev Entry (double : Type) : Kind -> Type
  | .array => Item double
  | .object => List UInt8 × Item double

def wrap : (kind : Kind) -> List (kind.Entry double) -> Item double
  | .array, items => .array items
  | .object, items => .object items

end Kind

/-- What a text can denote: a value, an entry of a container, or several entries. -/
inductive Node (double : Type) where
  | value (v : Item double)
  | entry (kind : Kind) (e : kind.Entry double)
  | entries (kind : Kind) (es : List (kind.Entry double))

/-- The texts of the grammar, each with what it denotes. -/
inductive Denotes : Node double -> List UInt8 -> Prop where
  | null : Denotes (.value .null) nullText
  | false : Denotes (.value .false) falseText
  | true : Denotes (.value .true) trueText
  | number (n : NumberText) : n.Complete -> Denotes (.value n.item) n.text
  | string (s : List StringChar) : Denotes (.value (.string (stringValue s)))
      (stringText s)
  | empty (kind : Kind) {w : List UInt8} :
      Ws w -> Denotes (.value (kind.wrap []))
        (kind.opening :: (w ++ [kind.closing]))
  | container (kind : Kind) {w text : List UInt8} {es : List (kind.Entry double)} :
      Ws w -> Denotes (.entries kind es) text ->
      Denotes (.value (kind.wrap es))
        (kind.opening :: (w ++ (text ++ [kind.closing])))
  | element {v : Item double} {text w : List UInt8} :
      Denotes (.value v) text -> Ws w -> Denotes (.entry .array v) (text ++ w)
  | member {v : Item double} {text w w' w'' : List UInt8} (s : List StringChar) :
      Ws w -> Ws w' -> Denotes (.value v) text -> Ws w'' ->
      Denotes (.entry .object (stringValue s, v))
        (stringText s ++ (w ++ (colon :: (w' ++ (text ++ w'')))))
  | last {kind : Kind} {e : kind.Entry double} {text : List UInt8} :
      Denotes (.entry kind e) text -> Denotes (.entries kind [e]) text
  | more {kind : Kind} {e : kind.Entry double} {es : List (kind.Entry double)}
      {text w rest : List UInt8} :
      Denotes (.entry kind e) text -> Ws w -> Denotes (.entries kind es) rest ->
      Denotes (.entries kind (e :: es)) (text ++ (comma :: (w ++ rest)))

end CJson
end Lepd
