import Lepd.Ps.Options

/-!
# The parser of ps

The arguments are read as SysV options first, and when that fails as BSD options.
Besides the globals, the parser keeps what it counted and which of the two ways it
took in variables of its own.
-/

namespace Lepd
namespace Ps

/-!
# All arguments
-/

inductive ArgType where
  | gnu
  | finish
  | pgrp
  | sysv
  | pid
  | bsd
  | fail
  | sess
deriving DecidableEq

def isLetter (c : UInt8) : Bool :=
  (97 <= c && c <= 122) || (65 <= c && c <= 90)

def argType (str : Text) : ArgType :=
  match str with
  | [] => .fail
  | c :: rest =>
      if isLetter c then .bsd
      else if isdigit c then .pid
      else if c = byte '+' then .sess
      else if c ≠ byte '-' then .fail
      else
        match rest with
        | [] => .fail
        | d :: rest =>
            if isLetter d then .sysv
            else if isdigit d then .pgrp
            else if d ≠ byte '-' then .fail
            else
              match rest with
              | [] => .finish
              | e :: _ => if isLetter e then .gnu else .fail

def setPreferBsd : Run Unit :=
  modifyGlobals (fun g => { g with preferBsdDefaults := true })

def refused (message : String) : Parsed :=
  { err := some (.text message), used := 0, wide := 0 }

def parseBsd (ctx : Context) (forceBsd : Bool) (arg : Text) (next : List Text) :
    Run Parsed := do
  setPreferBsd
  parseBsdOption ctx forceBsd arg next

def parseSysv (ctx : Context) (forceBsd : Bool) (arg : Text)
    (next : List Text) : Run Parsed :=
  if forceBsd then parseBsd ctx forceBsd arg next else parseSysvOption ctx arg next

/-- Options without a `-` are refused once `force_bsd` is set, unless the
personality sets it. -/
def parsePlain (ctx : Context) (forceBsd : Bool) (arg : Text)
    (next : List Text) : Run Parsed := do
  let g <- globals
  if forceBsd && !has g.personality perForceBSD then return refused "way bad"
  else parseBsd ctx forceBsd arg next

def parseNumbers (ctx : Context) (arg : Text) (next : List Text) : Run Parsed := do
  setPreferBsd
  parseTrailingPids ctx arg next

def parseArgument (ctx : Context) (forceBsd : Bool) (arg : Text)
    (next : List Text) : Run Parsed :=
  match argType arg with
  | .gnu => parseGnuOption ctx arg next
  | .sysv => parseSysv ctx forceBsd arg next
  | .bsd => parsePlain ctx forceBsd arg next
  | .pgrp => parseNumbers ctx arg next
  | .sess => parseNumbers ctx arg next
  | .pid => parseNumbers ctx arg next
  | .finish => return refused "garbage option"
  | .fail => return refused "garbage option"

/--
First assume sysv, because that is the POSIX and Unix98 standard. The first
number tells how many arguments still belong to an earlier one, the second what
was added to `w_count`.
-/
def parseAllOptions (ctx : Context) (forceBsd : Bool) :
    Nat -> Nat -> List Text -> Run (Option Err × Nat)
  | _, wide, [] => return (none, wide)
  | used + 1, wide, _ :: args => parseAllOptions ctx forceBsd used wide args
  | 0, wide, arg :: args => do
      let parsed <- parseArgument ctx forceBsd arg args
      if parsed.err.isSome then return (parsed.err, wide + parsed.wide)
      else parseAllOptions ctx forceBsd parsed.used (wide + parsed.wide) args

/-!
# Checks behind the arguments
-/

def threadFlagsFor (flags : UInt32) : UInt32 :=
  let flags := if has flags tfBH then flags ||| tfShowProc ||| tfLooseTasks
    else flags
  let flags :=
    if has flags (tfBm ||| tfUm) then
      flags ||| tfShowProc ||| tfShowTask ||| tfShowBoth else flags
  if has flags (tfUT ||| tfUL) then
    if has flags (tfBm ||| tfUm ||| tfBH) then flags ||| tfMustUse
    else flags ||| tfShowTask
  else flags

def threadOptions (g : Globals) : Except Err UInt32 :=
  if g.threadFlags = 0 then .ok tfShowProc
  else if g.forestType ≠ 0 then
    .error (.text "thread display conflicts with forest display")
  else if has g.threadFlags tfBH && has g.threadFlags (tfBm ||| tfUm) then
    .error (.text "thread flags conflict; can't use H with m or -m")
  else if has g.threadFlags tfBm && has g.threadFlags tfUm then
    .error (.text "thread flags conflict; can't use both m and -m")
  else if has g.threadFlags tfUL && has g.threadFlags tfUT then
    .error (.text "thread flags conflict; can't use both -L and -T")
  else .ok (threadFlagsFor g.threadFlags)

def threadOptionCheck : Run (Option Err) := do
  let g <- globals
  match threadOptions g with
  | .error err => return some err
  | .ok flags => do
      modifyGlobals (fun g => { g with threadFlags := flags })
      return none

/-- What the selection comes to; without bits, all processes are selected. -/
def selectBits (g : Globals) : Except Err (Option Nat) :=
  let switchVal :=
    if has g.personality perNoDefaultg || has g.simpleSelect
      (ssUa ||| ssUd) then g.simpleSelect
    else g.simpleSelect ||| ssBg
  if g.simpleSelect = 0 ∧ !g.preferBsdDefaults then .ok (some 0xaa00)
  else if switchVal = ssUa ||| ssUd then .ok (some 0x3f3f)
  else if switchVal = ssUa then .ok (some 0x0303)
  else if switchVal = ssUd then .ok (some 0x3333)
  else if switchVal = 0 then .ok (some 0x0202)
  else if switchVal = ssBa then .ok (some 0x0303)
  else if switchVal = ssBx then .ok (some 0x2222)
  else if switchVal = ssBx ||| ssBa then .ok (some 0x3333)
  else if switchVal = ssBg then .ok (some 0x0a0a)
  else if switchVal = ssBg ||| ssBa then .ok (some 0x0f0f)
  else if switchVal = ssBg ||| ssBx then .ok (some 0xaaaa)
  else if switchVal = ssBg ||| ssBx ||| ssBa then .ok none
  else .error (.text "process selection options conflict")

/-- Prepare `select_bits`, which stay as they are when all processes are
selected. -/
def selectBitsSetup : Run (Except Err (Option Nat)) := do
  let g <- globals
  match selectBits g with
  | .ok none => do
      modifyGlobals (fun g => { g with allProcesses := true, simpleSelect := 0 })
      return .ok none
  | result => return result

def chooseDimensions (wCount : Nat) (g : Globals) : Globals :=
  { g with
    screenCols :=
      if 1 < wCount then outbufSize
      else if wCount ≠ 0 ∧ g.screenCols < 132 then 132
      else g.screenCols }

/-!
# Both ways of reading
-/

/-- What a way of reading the arguments adds to `w_count`, and what it sets
`select_bits` to. -/
structure Reading where
  wide : Nat
  bits : Option Nat

def readArguments (ctx : Context) (forceBsd : Bool) : Run (Except Err Reading) := do
  let (err, wide) <- parseAllOptions ctx forceBsd 0 0 (ctx.argv.drop 1)
  match err with
  | some err => return .error err
  | none => do
      match (<- threadOptionCheck) with
      | some err => return .error err
      | none => do
          match (<- processSfOptions ctx) with
          | some err => return .error err
          | none => do
              match (<- selectBitsSetup) with
              | .error err => return .error err
              | .ok bits => return .ok { wide := wide, bits := bits }

/-- The first way, unless the personality forces the second one. -/
def firstReading (ctx : Context) (forceBsd : Bool) : Run (Option Reading) := do
  let g <- globals
  if has g.personality perForceBSD then return none
  else do
    match (<- readArguments ctx forceBsd) with
    | .error _ => return none
    | .ok reading => return some reading

/-- What is set for the second way; the option `m` is that of old Linux by
default. -/
def preferBsd (g : Globals) : Globals :=
  { g with
    formatFlags := 0
    preferBsdDefaults := true
    personality :=
      if has g.personality (perOldm ||| perBSDm) then g.personality
      else g.personality ||| perOldm }

/-- The second way: everything is set back, and the arguments are read as BSD
options. -/
def secondReading (ctx : Context) : Run (Except Err Reading) := do
  modifyGlobals (resetGlobal ctx.env ctx.sys)
  resetSortformat
  modifyGlobals preferBsd
  readArguments ctx true

/-- What a call of the parser leaves in the variables that no call sets back at
its start. -/
structure Parse where
  wCount : Nat
  forceBsd : Bool
  bits : Option Nat

def accept (wCount : Nat) (forceBsd : Bool) (bits : Option Nat) : Run Parse := do
  modifyGlobals (chooseDimensions wCount)
  return { wCount := wCount, forceBsd := forceBsd, bits := bits }

/-- If both ways fail, help is printed and the process exits. -/
def argParse (ctx : Context) (wCount : Nat) (forceBsd : Bool) : Run Parse := do
  match (<- firstReading ctx forceBsd) with
  | some reading => accept (wCount + reading.wide) forceBsd reading.bits
  | none => do
      match (<- secondReading ctx) with
      | .error _ => stop .exit
      | .ok reading => accept reading.wide true reading.bits

/-- Quick selection goes with no other selection, no forest, no sorting and no
negation. -/
def quickPidConflict (g : Globals) : Bool :=
  let quick := g.selectionList.countP (fun node => node.typecode = .pidQuick)
  1 < quick ||
    (quick ≠ 0 && (quick < g.selectionList.length || g.forestType != 0 ||
    g.sortList != [] ||
      g.negateSelection))

def argCheckConflicts : Run Unit := do
  let g <- globals
  if quickPidConflict g then stop .exit else return ()

/-!
# Calls
-/

structure Statics where
  state : State
  selectBits : Nat
  wCount : Nat
  forceBsd : Bool
  /-- What `get_pid_digits` keeps, or 0. -/
  pidDigits : Nat

def digitsOf (pidMax : Nat) : Nat :=
  (Nat.toDigits 10 (pidMax - 1)).length

/-- What `get_pid_digits` finds out when it has no answer yet. -/
def readPidDigits (sys : System) : Nat :=
  match sys.pidMax with
  | none => 5
  | some pidbuf =>
      let trimmed := (pidbuf.take 24).dropWhile isspace
      let unsigned := if trimmed.head? = some (byte '+') then trimmed.drop 1
        else trimmed
      let (n, rest) := scanDigits 10 0 unsigned
      if pidbuf.length < 3 ∨ n < 42 ∨ ¬ (rest = [] ∨ rest.head? = some 10) then 5
      else digitsOf (min n (2 ^ 63 - 1))

def pidDigitsFor (pidDigits : Nat) (sys : System) : Nat :=
  if pidDigits = 0 then readPidDigits sys else pidDigits

/-- What a process has before its first call; `reset_global` sets the globals. -/
def initial : Statics :=
  { state := {
      globals := default
      sfList := []
      haveGnuSort := false
      alreadyParsedSort := false
      alreadyParsedFormat := false
      pidDigitsRead := false
      nodes := 0
      freed := [] }
    selectBits := 0
    wCount := 0
    forceBsd := false
    pidDigits := 0 }

/-- A call: what it finds, and its arguments. -/
structure Call where
  sys : System
  env : Environment
  argv : List Text

/-- The options of a call. Bits are not looked at when all processes are
selected. -/
structure Options where
  globals : Globals
  selectBits : Option Nat
deriving DecidableEq

def optionsOf (g : Globals) (bits : Nat) : Options :=
  { globals := g
    selectBits := if g.allProcesses then none else some bits }

def Call.context (tables : Tables) (call : Call) (pidDigits : Nat) : Context :=
  { tables := tables
    sys := call.sys
    env := call.env
    pidDigits := pidDigitsFor pidDigits call.sys
    argv := call.argv }

/-- The state behind `reset_global`; the nodes of the call are counted from here. -/
def begin (call : Call) (state : State) : State :=
  { state with
    globals := resetGlobal call.env call.sys state.globals
    pidDigitsRead := false
    nodes := 0
    freed := [] }

def parseCall (ctx : Context) (wCount : Nat) (forceBsd : Bool) : Run Parse := do
  let parse <- argParse ctx wCount forceBsd
  argCheckConflicts
  return parse

def leave (ctx : Context) (s : Statics) (parse : Parse) (state : State) :
    Except Stop (Options × Statics) := do
  let bits := parse.bits.getD s.selectBits
  let (_, after) <- resetSortformat state
  return (optionsOf state.globals bits,
    { state := after
      selectBits := bits
      wCount := parse.wCount
      forceBsd := parse.forceBsd
      pidDigits := if state.pidDigitsRead then ctx.pidDigits else s.pidDigits })

/-- A call: the options that its output is made by, and the variables behind it. -/
def psMain (tables : Tables) (call : Call) (s : Statics) :
    Except Stop (Options × Statics) := do
  let ctx := call.context tables s.pidDigits
  let (parse, state) <- parseCall ctx s.wCount s.forceBsd (begin call s.state)
  leave ctx s parse state

end Ps
end Lepd
