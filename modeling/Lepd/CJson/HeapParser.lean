import Lepd.CJson.HeapTrees
import Lepd.Foundation.Builders

/-!
# Parsing into memory

The parser creates the items as it goes, and links each of them before it parses
what belongs to it. Where it fails, `cJSON_Delete` finds all of them below the
root.
-/

namespace Lepd
namespace CJson
namespace Heap

open Foundation

abbrev Build (double value : Type) : Type :=
  Builder (Memory double) UInt8 value

variable {double : Type}

abbrev scan {value : Type} (m : Parse value) : Build double value :=
  Builder.scan m

open Builder (act)
open Foundation.Scan (advance)

section Parse

variable [CDouble double] (alloc : Allocator double)

def Allocator.cJSONNewItem : Routine double (Option Nat) := do
  let answer <- alloc.after (pure ())
  newItem 0 answer

/-!
# Leaves
-/

def storeNumber (c : Nat) : Item double -> Routine double Unit
  | .number valuedouble valueint =>
      storeItem c (fun r =>
        { r with valuedouble := valuedouble, valueint := valueint,
                 type := cJSONNumber })
  | _ => pure ()

def parseNumber (c : Nat) : Build double Unit := do
  let item <- scan (CJson.parseNumber : Parse (Item double))
  act (storeNumber c item)

/-- The first pass over a string: how much is allocated for it. -/
def stringLength : Parse Nat := do
  let c <- peek
  if c ≠ quote then Scan.fail
  else lookahead (do
    advance
    countPass 0)

def storeString (c q : Nat) (text : List UInt8) : Routine double Unit := do
  let copy <- malloc (some q) (.text text)
  storeItem c (fun r => { r with valuestring := copy, type := cJSONString })

/-- The second pass over a string; the cursor is only moved at its end. -/
def copyString (stack : Stack) (c : Nat) (answer : Option Nat) :
    Build double Unit :=
  match answer with
  | none => Builder.fail
  | some q => do
      let text <- scan (parseStringAt stack)
      act (storeString c q text)

def parseString (stack : Stack) (c : Nat) : Build double Unit := do
  let _len <- scan stringLength
  let answer <- act (alloc.after (pure ()))
  copyString stack c answer

/-!
# Containers
-/

def closeItems (closing : UInt8) : Build double Unit := do
  let c <- scan peek
  if c ≠ closing then Builder.fail else scan advance

/-- Link a new item behind the last one and parse it, or fail if there is none. -/
def nextItem (parseItem : Nat -> Build double Unit) (child : Nat)
    (new : Option Nat) : Build double Nat :=
  match new with
  | none => Builder.fail
  | some x => do
      act (suffixObject child x)
      parseItem x
      return x

def itemsLoop (closing : UInt8) (parseItem : Nat -> Build double Unit) :
    Nat -> Nat -> Build double Unit
  | 0, _ => scan (Scan.undefined .depth)
  | fuel + 1, child => do
      let c <- scan peek
      if c = comma then do
        scan advance
        scan skip
        let c <- scan peek
        if c = closing then do
          scan advance
          closeItems closing
        else do
          let new <- act alloc.cJSONNewItem
          let child <- nextItem parseItem child new
          itemsLoop closing parseItem fuel child
      else closeItems closing

/-- The first item has been stored as the child; it is parsed, and then those
that follow. -/
def firstItem (closing : UInt8) (parseItem : Nat -> Build double Unit)
    (new : Option Nat) : Build double Unit :=
  match new with
  | none => Builder.fail
  | some x => do
      parseItem x
      fun cur => itemsLoop alloc closing parseItem (cur.length + 1) x cur

def parseItems (opening closing : UInt8) (type : Nat)
    (parseItem : Nat -> Build double Unit) (c : Nat) : Build double Unit := do
  let first <- scan peek
  if first ≠ opening then Builder.fail
  else do
    act (storeItem c (fun r => { r with type := type }))
    scan advance
    scan skip
    let next <- scan peek
    if next = closing then scan advance
    else do
      let new <- act alloc.cJSONNewItem
      act (storeItem c (fun r => { r with child := new }))
      firstItem alloc closing parseItem new

def parseElement (parseValue : Nat -> Build double Unit) (child : Nat) :
    Build double Unit := do
  parseValue child
  scan skip

def parseMember (stack : Stack) (parseValue : Nat -> Build double Unit)
    (child : Nat) : Build double Unit := do
  parseString alloc stack child
  scan skip
  act (storeItem child (fun r =>
    { r with string := r.valuestring, valuestring := none }))
  let c <- scan peek
  if c ≠ colon then Builder.fail
  else do
    scan advance
    scan skip
    parseValue child
    scan skip

def parseArray (parseValue : Nat -> Build double Unit) (c : Nat) :
    Build double Unit :=
  parseItems alloc lbracket rbracket cJSONArray (parseElement parseValue) c

def parseObject (stack : Stack) (parseValue : Nat -> Build double Unit)
    (c : Nat) : Build double Unit :=
  parseItems alloc lbrace rbrace cJSONObject (parseMember alloc stack parseValue) c

/-!
# Values
-/

def storeType (c type : Nat) : Build double Unit :=
  act (storeItem c (fun r => { r with type := type }))

def parseValue (stack : Stack) : Nat -> Nat -> Build double Unit
  | 0, _ => scan (Scan.undefined .depth)
  | depth + 1, c => do
      let cmp <- scan (streamCmp (nullText ++ [nul]))
      if cmp = 0 then storeType c cJSONNULL
      else do
        let cmp <- scan (streamCmp (falseText ++ [nul]))
        if cmp = 0 then storeType c cJSONFalse
        else do
          let cmp <- scan (streamCmp (trueText ++ [nul]))
          if cmp = 0 then
            act (storeItem c (fun r => { r with type := cJSONTrue, valueint := 1 }))
          else do
            let first <- scan peek
            if first = quote then parseString alloc stack c
            else if first = minus ∨ isDigit first then parseNumber c
            else if first = lbracket then
              parseArray alloc (parseValue stack depth) c
            else if first = lbrace then
              parseObject alloc stack (parseValue stack depth) c
            else Builder.fail

def parseText (stack : Stack) (c : Nat) : Build double Unit := do
  scan skip
  fun cur => parseValue alloc stack (cur.length + 1) c cur

def parseRoot (fuel : Nat) (stack : Stack) (root : Option Nat) (text : List UInt8) :
    Routine double (Option Nat × List UInt8) :=
  match root with
  | none => pure (none, text)
  | some c => do
      let r <- parseText alloc stack c text
      if r.1.isSome then pure (some c, r.2)
      else do
        cJSONDelete fuel (some c)
        return (none, r.2)

/-- The root, and where `end_ptr` points. -/
def cJSONParseStream (fuel : Nat) (stack : Stack) (text : List UInt8) :
    Routine double (Option Nat × List UInt8) := do
  let root <- alloc.cJSONNewItem
  parseRoot alloc fuel stack root text

end Parse

end Heap
end CJson
end Lepd
