import Lepd.CJson.Parser
import Lepd.Foundation.Block
import Lepd.Foundation.Runs

/-!
# Connections

The buffer of a connection, and the callback that runs when its socket can be
read.  A pointer into the buffer is an index into the block that was allocated
for it, so an access outside of the block is seen.
-/

namespace Lepd
namespace JsonRpc

open Foundation
open CJson

/-!
# Machine integers
-/

def toUInt32 (x : Int) : Nat :=
  (x % 2 ^ 32).toNat

/-- Conversion to `size_t`. -/
def toSize (x : Int) : Nat :=
  (x % 2 ^ 64).toNat

/-!
# The buffer
-/

/-- The fields of `struct jrpc_connection` that concern the buffer. -/
structure Connection where
  pos : Int
  bufferSize : Nat
  /-- The block that `buffer` points to. -/
  buffer : List UInt8

def freshConnection : Connection where
  pos := 0
  bufferSize := 1500
  buffer := List.replicate 1500 0

/-- Why `connection_cb` left the connection without its buffer. -/
inductive Stop where
  /-- `close_connection` was called. -/
  | closed
  /-- A byte outside of the buffer was accessed. -/
  | undefined
deriving DecidableEq

def index (i : Int) : Except Stop Nat :=
  if 0 <= i then .ok i.toNat else .error .undefined

def access {value : Type} : Option value -> Except Stop value
  | some a => .ok a
  | none => .error .undefined

/-- `realloc`, where the bytes that it adds can hold anything. -/
def realloc (mem : List UInt8) (size : Nat) (added : Nat -> UInt8) : List UInt8 :=
  mem.take size ++ (List.range (size - mem.length)).map added

/-- Double a buffer that is full; there may be no memory for it. -/
def grow (conn : Connection) (added : Option (Nat -> UInt8)) :
    Except Stop Connection :=
  if toUInt32 conn.pos = toUInt32 ((conn.bufferSize : Int) - 1) then
    match added with
    | none => .error .closed
    | some added => do
        let bufferSize := conn.bufferSize * 2 % 2 ^ 32
        let i <- index conn.pos
        let buffer <- access
            (Block.memset (realloc conn.buffer bufferSize added) i 0
          (toUInt32 ((bufferSize : Int) - conn.pos)))
        return { pos := conn.pos, bufferSize := bufferSize, buffer := buffer }
  else .ok conn

/-- The length to read; the buffer can not be filled, it must be NUL terminated. -/
def maxReadSize (conn : Connection) : Int :=
  toInt32 ((conn.bufferSize : Int) - conn.pos - 1)

/-- Put the bytes that were read behind those that are there. -/
def receive (conn : Connection) (bytes : List UInt8) : Except Stop Connection := do
  let i <- index conn.pos
  let buffer <- access (Block.write conn.buffer i bytes)
  return { pos := toInt32 (conn.pos +
    bytes.length), bufferSize := conn.bufferSize, buffer := buffer }

def discard (conn : Connection) (endPtr : Nat) : Except Stop Connection := do
  let len <- access (Block.strlen 0 conn.buffer endPtr)
  let buffer <- access (Block.memmove conn.buffer 0 endPtr (len + 2))
  let len <- access (Block.strlen 0 buffer endPtr)
  let pos := toInt32 len
  let i <- index pos
  let buffer <- access (Block.memset buffer i 0
    (toUInt32 ((conn.bufferSize : Int) - pos - 1)))
  return { pos := pos, bufferSize := conn.bufferSize, buffer := buffer }

/-!
# The callback
-/

/-- What the callback does to the outside. -/
inductive Action (double : Type) where
  | evalRequest (root : Item double)
  | sendError (code : Int) (message : String)

def parseError (double : Type) : Action double :=
  .sendError (-32700) "Parse error. Invalid JSON was received by the server."

/-- A readable socket, and what the system calls of the callback meet. -/
structure Event where
  /-- What is in the bytes that `realloc` adds, if it finds memory. -/
  added : Option (Nat -> UInt8)
  /-- The bytes that `read` hands over, none at the end of the stream, or an
  error. -/
  read : Option (List UInt8)
  /-- What the stack holds when the parser is called. -/
  stack : Stack

/-- The parser that the callback calls, with what the stack holds. -/
abbrev Parser (double : Type) : Type :=
  Stack -> Parse (Item double)

variable {double : Type}

/-- The index that a cursor into the buffer has. -/
def endPtr (conn : Connection) (rest : List UInt8) : Nat :=
  conn.buffer.length - rest.length

def evalObject : Item double -> List (Action double)
  | .object child => [.evalRequest (.object child)]
  | _ => []

def parseBuffer (parse : Parser double) (stack : Stack) (conn : Connection) :
    List (Action double) × Except Stop Connection :=
  match parse stack conn.buffer with
  | .ok root rest => (evalObject root, discard conn (endPtr conn rest))
  | .null rest =>
      if (endPtr conn rest : Int) ≠ conn.pos then
        ([parseError double], .error .closed)
      else ([], .ok conn)
  | .fault _ => ([], .error .undefined)

/-- Grow the buffer and read into it. -/
def readBuffer (conn : Connection) (event : Event) : Except Stop Connection := do
  let conn <- grow conn event.added
  match event.read with
  | none => .error .closed
  | some [] => .error .closed
  | some (c :: bytes) => receive conn (c :: bytes)

def connectionCb (parse : Parser double) (conn : Connection) (event : Event) :
    List (Action double) × Except Stop Connection :=
  match readBuffer conn event with
  | .error stop => ([], .error stop)
  | .ok conn => parseBuffer parse event.stack conn

/-- `read` hands over at most the bytes it is asked for, and at most what one
call transfers. -/
def Delivers (conn : Connection) (event : Event) : Prop :=
  forall grown bytes, grow conn event.added = .ok grown ->
    event.read = some bytes ->
    bytes.length <= toSize (maxReadSize grown) ∧ bytes.length <= 0x7ffff000

/-- A connection over time, with what the callback has done so far. -/
structure Session (double : Type) where
  conn : Except Stop Connection
  log : List (Action double)

/-- An accepted connection. -/
def accepted (double : Type) : Session double where
  conn := .ok freshConnection
  log := []

/-- The callback runs while the connection is open. -/
def Step (parse : Parser double) (s : Session double) (event : Event)
    (t : Session double) : Prop :=
  exists conn, s.conn = .ok conn ∧ Delivers conn event ∧
    t = { conn := (connectionCb parse conn event).2,
          log := s.log ++ (connectionCb parse conn event).1 }

end JsonRpc
end Lepd
