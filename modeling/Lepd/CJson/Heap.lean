import Lepd.Foundation.Linked
import Lepd.Foundation.Programs
import Lepd.JsonRpc.EvalRequest

/-!
# Items in memory

An item is a record with pointers to its neighbours, its first child and its
texts. Here the functions that build trees of them, take them apart and give
them back work on memory, and have no answer where they would use memory that is
not in use.
-/

namespace Lepd
namespace CJson
namespace Heap

open Foundation
open JsonRpc (cJSONStrcasecmp)

variable {double : Type}

/-- `cJSON`; a null pointer is none. -/
structure Record (double : Type) where
  next : Option Nat
  prev : Option Nat
  child : Option Nat
  type : Nat
  valuestring : Option Nat
  valueint : Int
  valuedouble : double
  string : Option Nat

inductive Cell (double : Type) where
  | item (r : Record double)
  /-- A string without its null byte. -/
  | text (chars : List UInt8)

/-- The blocks in use, by their addresses. -/
abbrev Memory (double : Type) : Type :=
  Nat -> Option (Cell double)

abbrev Routine (double value : Type) : Type :=
  Program (Memory double) value

def cJSONFalse : Nat := 0
def cJSONTrue : Nat := 1
def cJSONNULL : Nat := 2
def cJSONNumber : Nat := 3
def cJSONString : Nat := 4
def cJSONArray : Nat := 5
def cJSONObject : Nat := 6
def cJSONIsReference : Nat := 256

/-!
# Blocks
-/

def recordAt (mem : Memory double) (p : Nat) : Option (Record double) :=
  match mem p with
  | some (.item r) => some r
  | _ => none

def textAt (mem : Memory double) (p : Nat) : Option (List UInt8) :=
  match mem p with
  | some (.text chars) => some chars
  | _ => none

def readItem (c : Nat) : Routine double (Record double) :=
  fun mem => (recordAt mem c).map (fun r => (r, mem))

def readText (p : Nat) : Routine double (List UInt8) :=
  fun mem => (textAt mem p).map (fun chars => (chars, mem))

/-- A string that is passed: one of the client's own, or a block. -/
inductive CString where
  | own (chars : List UInt8)
  | block (p : Nat)

def CString.text (mem : Memory double) : CString -> Option (List UInt8)
  | .own chars => some chars
  | .block p => textAt mem p

def readName (string : CString) : Routine double (List UInt8) :=
  fun mem => (string.text mem).map (fun chars => (chars, mem))

def storeItem (c : Nat) (f : Record double -> Record double) :
    Routine double Unit :=
  fun mem => (recordAt mem c).map (fun r =>
    ((), Function.update mem c (some (.item (f r)))))

/-- The answer of `malloc` is a null pointer or a block that is not in use. -/
def malloc (answer : Option Nat) (cell : Cell double) :
    Routine double (Option Nat) :=
  fun mem =>
    match answer with
    | none => some (none, mem)
    | some p =>
        if (mem p).isSome then none
        else some (some p, Function.update mem p (some cell))

def free (p : Nat) : Routine double Unit :=
  fun mem => if (mem p).isSome then some ((), Function.update mem p none) else none

def cJSONStrdup (answer : Option Nat) (chars : List UInt8) :
    Routine double (Option Nat) :=
  malloc answer (.text chars)

def freeAll : Option Nat -> Routine double Unit
  | none => pure ()
  | some p => free p

/-!
# Lists
-/

def sizeFrom : Nat -> Option Nat -> Nat -> Routine double Nat
  | _, none, i => pure i
  | 0, some _, _ => StateT.lift none
  | fuel + 1, some c, i => do
      let r <- readItem c
      sizeFrom fuel r.next (i + 1)

def cJSONGetArraySize (fuel array : Nat) : Routine double Nat := do
  let a <- readItem array
  sizeFrom fuel a.child 0

def itemFrom : Nat -> Option Nat -> Nat -> Routine double (Option Nat)
  | _, none, _ => pure none
  | _, some c, 0 => pure (some c)
  | 0, some _, _ + 1 => StateT.lift none
  | fuel + 1, some c, which + 1 => do
      let r <- readItem c
      itemFrom fuel r.next which

def cJSONGetArrayItem (fuel array : Nat) (item : Int) :
    Routine double (Option Nat) := do
  let a <- readItem array
  itemFrom fuel a.child item.toNat

/-- The name of an item is a string; a null pointer is no string. -/
def hasName (string : List UInt8) (r : Record double) : Routine double Bool :=
  match r.string with
  | none => pure false
  | some p => do
      let name <- readText p
      return decide (cJSONStrcasecmp name string = 0)

def namedFrom (string : List UInt8) : Nat -> Option Nat -> Nat -> Routine double
    (Option Nat × Nat)
  | _, none, i => pure (none, i)
  | 0, some _, _ => StateT.lift none
  | fuel + 1, some c, i => do
      let r <- readItem c
      let named <- hasName string r
      if named then pure (some c, i) else namedFrom string fuel r.next (i + 1)

def cJSONGetObjectItem (fuel object : Nat) (string : List UInt8) :
    Routine double (Option Nat) := do
  let o <- readItem object
  let found <- namedFrom string fuel o.child 0
  return found.1

def lastFrom : Nat -> Nat -> Routine double Nat
  | 0, _ => StateT.lift none
  | fuel + 1, c => do
      let r <- readItem c
      match r.next with
      | none => pure c
      | some n => lastFrom fuel n

def suffixObject (prev item : Nat) : Routine double Unit := do
  storeItem prev (fun r => { r with next := some item })
  storeItem item (fun r => { r with prev := some prev })

def cJSONAddItemToArray (fuel array : Nat) (item : Option Nat) :
    Routine double Unit := do
  let a <- readItem array
  match item with
  | none => pure ()
  | some x =>
      match a.child with
      | none => storeItem array (fun r => { r with child := some x })
      | some c => do
          let last <- lastFrom fuel c
          suffixObject last x

/--
`answer` is that of `malloc` for the copy of the name. The old name is given
back before the new one is read.
-/
def cJSONAddItemToObject (fuel object : Nat) (string : CString)
    (item answer : Option Nat) :
    Routine double Unit :=
  match item with
  | none => pure ()
  | some x => do
      let r <- readItem x
      freeAll r.string
      let chars <- readName string
      let copy <- cJSONStrdup answer chars
      storeItem x (fun r => { r with string := copy })
      cJSONAddItemToArray fuel object (some x)

def linkNext (p v : Option Nat) : Routine double Unit :=
  match p with
  | none => pure ()
  | some p => storeItem p (fun r => { r with next := v })

def linkPrev (p v : Option Nat) : Routine double Unit :=
  match p with
  | none => pure ()
  | some p => storeItem p (fun r => { r with prev := v })

/-- Whether an item is the first child; if so, there is another first child then. -/
def linkFirst (array c : Nat) (v : Option Nat) : Routine double Bool := do
  let a <- readItem array
  if a.child = some c then do
    storeItem array (fun s => { s with child := v })
    return true
  else return false

def isolate (c : Nat) : Routine double Unit := do
  storeItem c (fun r => { r with next := none })
  storeItem c (fun r => { r with prev := none })

def unlink (array c : Nat) : Routine double Unit := do
  let r <- readItem c
  linkNext r.prev r.next
  let r <- readItem c
  linkPrev r.next r.prev
  let r <- readItem c
  let _ <- linkFirst array c r.next
  isolate c

def cJSONDetachItemFromArray (fuel array : Nat) (which : Int) :
    Routine double (Option Nat) := do
  let a <- readItem array
  let c <- itemFrom fuel a.child which.toNat
  match c with
  | none => pure none
  | some c => do
      unlink array c
      return some c

def cJSONDetachItemFromObject (fuel object : Nat) (string : List UInt8) :
    Routine double (Option Nat) := do
  let o <- readItem object
  let found <- namedFrom string fuel o.child 0
  match found.1 with
  | none => pure none
  | some _ => cJSONDetachItemFromArray fuel object found.2

/-!
# Giving back
-/

def deleteFrom : Nat -> Option Nat -> Routine double Unit
  | _, none => pure ()
  | 0, some _ => StateT.lift none
  | fuel + 1, some c => do
      let r <- readItem c
      if r.type &&& cJSONIsReference = 0 then deleteFrom fuel r.child
      if r.type &&& cJSONIsReference = 0 then freeAll r.valuestring
      freeAll r.string
      free c
      deleteFrom fuel r.next

/-- `cJSON_Delete` -/
def cJSONDelete (fuel : Nat) (c : Option Nat) : Routine double Unit :=
  deleteFrom fuel c

def cJSONDeleteItemFromArray (fuel array : Nat) (which : Int) :
    Routine double Unit := do
  let c <- cJSONDetachItemFromArray fuel array which
  cJSONDelete fuel c

def cJSONDeleteItemFromObject (fuel object : Nat) (string : List UInt8) :
    Routine double Unit := do
  let c <- cJSONDetachItemFromObject fuel object string
  cJSONDelete fuel c

def linkBehind (newitem : Nat) : Routine double Unit := do
  let n <- readItem newitem
  match n.prev with
  | none => StateT.lift none
  | some p => storeItem p (fun s => { s with next := some newitem })

def exchange (array c newitem : Nat) : Routine double Unit := do
  let r <- readItem c
  storeItem newitem (fun s => { s with next := r.next })
  storeItem newitem (fun s => { s with prev := r.prev })
  let n <- readItem newitem
  linkPrev n.next (some newitem)
  let first <- linkFirst array c (some newitem)
  if first = false then linkBehind newitem
  isolate c

def cJSONReplaceItemInArray (fuel array : Nat) (which : Int) (newitem : Nat) :
    Routine double Unit := do
  let a <- readItem array
  let c <- itemFrom fuel a.child which.toNat
  match c with
  | none => pure ()
  | some c => do
      exchange array c newitem
      cJSONDelete fuel (some c)

/-- The name that the new item has had is not given back. -/
def cJSONReplaceItemInObject (fuel object : Nat) (string : CString)
    (newitem : Nat) (answer : Option Nat) :
    Routine double Unit := do
  let chars <- readName string
  let o <- readItem object
  let found <- namedFrom chars fuel o.child 0
  match found.1 with
  | none => pure ()
  | some _ => do
      let copy <- cJSONStrdup answer chars
      storeItem newitem (fun r => { r with string := copy })
      cJSONReplaceItemInArray fuel object found.2 newitem

/-!
# Creating
-/

section Create

variable [CDouble double]

def newItem (type : Nat) (answer : Option Nat) : Routine double (Option Nat) :=
  malloc answer (.item {
    next := none
    prev := none
    child := none
    type := type
    valuestring := none
    valueint := 0
    valuedouble := CDouble.ofInt 0
    string := none })

def cJSONCreateNull : Option Nat -> Routine double (Option Nat) := newItem cJSONNULL

def cJSONCreateTrue : Option Nat -> Routine double (Option Nat) := newItem cJSONTrue

def cJSONCreateFalse : Option Nat -> Routine double (Option Nat) :=
    newItem cJSONFalse

def cJSONCreateBool (b : Bool) : Option Nat -> Routine double (Option Nat) :=
  newItem (if b then cJSONTrue else cJSONFalse)

def cJSONCreateArray : Option Nat -> Routine double (Option Nat) :=
    newItem cJSONArray

def cJSONCreateObject : Option Nat -> Routine double (Option Nat) :=
    newItem cJSONObject

def cJSONCreateNumber (num : double) (answer : Option Nat) :
    Routine double (Option Nat) := do
  let item <- newItem cJSONNumber answer
  match item with
  | none => pure none
  | some p => do
      storeItem p (fun r =>
        { r with valuedouble := num, valueint := CDouble.toInt num })
      return some p

def cJSONCreateString (string : List UInt8) (answer answer' : Option Nat) :
    Routine double (Option Nat) := do
  let item <- newItem cJSONString answer
  match item with
  | none => pure none
  | some p => do
      let copy <- cJSONStrdup answer' string
      storeItem p (fun r => { r with valuestring := copy })
      return some p

end Create

end Heap
end CJson
end Lepd
