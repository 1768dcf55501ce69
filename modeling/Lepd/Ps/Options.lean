import Lepd.Ps.SortFormat

/-!
# The options of ps

An argument is a group of SysV letters, a group of BSD letters, a long option or
a process number. What a letter is good for is told apart from going through the
letters.
-/

namespace Lepd
namespace Ps

/-!
# Lists of values
-/

abbrev ParseFn : Type :=
  System -> Bool -> Text -> Except Err SelUnion

def parsePid : ParseFn := fun _ _ str =>
  let (num, rest) := strtoul str
  if rest ≠ [] then .error (.text "process ID list syntax error")
  else if num < 1 then .error (.text "process ID out of range")
  else if 0x7fffffff < num then .error (.text "process ID out of range")
  else .ok (.number num)

def parseId (lookup : System -> Text -> Option Nat) (what : String) :
    ParseFn := fun sys negate str =>
  let (num, rest) := strtoul str
  let found := if rest ≠ [] then lookup sys str else some num
  if found = none ∧ !negate then .error (.text (what ++ " name does not exist"))
  else if !negate ∧ 0xfffffffe < found.getD ulongMax then
    .error (.text (what ++ " ID out of range"))
  else .ok (.number (found.getD ulongMax % 2 ^ 32))

def parseUid : ParseFn :=
  parseId System.getpwnam "user"

def parseGid : ParseFn :=
  parseId System.getgrnam "group"

def parseCmd : ParseFn := fun _ _ str =>
  .ok (.cmd (str.take 15))

def ttyPaths (str : Text) : List Text :=
  if str.head? = some (byte '/') then [str]
  else
    [bytes "/dev/pts/" ++ str, bytes "/dev/" ++ str, bytes "/dev/tty" ++ str,
      bytes "/dev/pty" ++ str, bytes "/dev/" ++ str ++ bytes "nsole"].map
        (List.take 4095)

/-- The words that stand for no terminal; a shell may have put a file in the
place of `?`. -/
def meansNoTty (sys : System) (str : Text) : Bool :=
  str.head? != some (byte '/') &&
    (str == bytes "-" || str == bytes "?" ||
    (str.length == 1 && (sys.stat str).isSome))

def parseTty : ParseFn := fun sys _ str =>
  match (ttyPaths str).findSome? sys.stat with
  | some (true, rdev) => .ok (.number rdev)
  | some (false, _) => .error (.text "list member was not a TTY")
  | none =>
      if meansNoTty sys str then .ok (.number 0)
      else .error (.text "TTY could not be found")

def isListSep (c : UInt8) : Bool :=
  c == byte ' ' || c == byte ',' || c == 9

def listValues (parseFn : Text -> Except Err SelUnion) (arg : Text) :
    Except Err (List SelUnion) :=
  match countItems isListSep true 0 arg with
  | some (_, false) => ((splitItems isListSep arg).mapM parseFn).map List.reverse
  | _ => .error (.text "improper list")

def pushSelection (node : SelectionNode) (g : Globals) : Globals :=
  { g with selectionList := node :: g.selectionList }

def parseList (ctx : Context) (parseFn : ParseFn) (typecode : Sel)
    (arg : Text) : Run (Option Err) := do
  let g <- globals
  match listValues (parseFn ctx.sys g.negateSelection) arg with
  | .error err => return some err
  | .ok u => do
      modifyGlobals (pushSelection { typecode := typecode, u := u })
      return none

def parseSessionOrGroup (ctx : Context) (arg : Text) : Run (Option Err) := do
  let err <- parseList ctx parsePid .sess arg
  if err.isNone then return none
  else do
    let err <- parseList ctx parseGid .egid arg
    if err.isNone then return none
    else
      return some (.text
        "list of session leaders OR effective group IDs was invalid")

def defer (source : SfCode) (arg : Text) : Run (Option Err) := do
  deferSfOption arg source
  return none

def selectOwnTty (g : Globals) : Globals :=
  pushSelection { typecode := .tty, u := [.number g.cachedTty] } g

/-!
# Letters
-/

/--
How an argument was read: the error, the number of further arguments that were
used, and what is added to `w_count`.
-/
structure Parsed where
  err : Option Err
  used : Nat
  wide : Nat

inductive Letter where
  /-- The next letter follows. -/
  | more (wide : Nat) (action : Run Unit)
  /-- It can't have any more options. -/
  | last (action : Run (Option Err × Nat))

def parseLetters (option : Globals -> UInt8 -> Text -> Letter) :
    Nat -> Text -> Run Parsed
  | wide, [] => return { err := none, used := 0, wide := wide }
  | wide, c :: rest => do
      let g <- globals
      match option g c rest with
      | .more count action => do
          action
          parseLetters option (wide + count) rest
      | .last action => do
          let (err, used) <- action
          return { err := err, used := used, wide := wide }

/-- The argument of an option, and the number of arguments that it is taken from. -/
def nextArg : List Text -> Option (Text × Nat)
  | [] => none
  | arg :: _ => if arg = [] then none else some (arg, 1)

def getOptArg (rest : Text) (next : List Text) : Option (Text × Nat) :=
  if rest ≠ [] then some (rest, 0) else nextArg next

def withArgument (found : Option (Text × Nat)) (missing : String)
    (action : Text -> Run (Option Err)) :
    Run (Option Err × Nat) :=
  match found with
  | none => return (some (.text missing), 0)
  | some (arg, used) => do
      let err <- action arg
      return (err, used)

def set (change : Globals -> Globals) : Letter :=
  .more 0 (modifyGlobals change)

def setFormat (flag : UInt32) : Letter :=
  set (fun g => { g with formatFlags := g.formatFlags ||| flag })

def setModifier (flag : UInt32) : Letter :=
  set (fun g => { g with formatModifiers := g.formatModifiers ||| flag })

def setThread (flag : UInt32) : Letter :=
  set (fun g => { g with threadFlags := g.threadFlags ||| flag })

def setSelect (flag : UInt32) : Letter :=
  set (fun g => { g with simpleSelect := g.simpleSelect ||| flag })

def reject (message : String) : Letter :=
  .last (return (some (.text message), 0))

/-- An option that must be the only argument; it prints something and the
process exits. -/
def exclusive (ctx : Context) (x : String) : Run (Option Err × Nat) :=
  if ctx.argv.drop 1 = [bytes x] then stop .exit
  else return (some (.text ("the option is exclusive: " ++ x)), 0)

def asChar (c : UInt8) : Char :=
  Char.ofNat c.toNat

def sysvOption (ctx : Context) (next : List Text) (g : Globals) (c : UInt8)
    (rest : Text) : Letter :=
  let takes (missing : String) (action : Text -> Run (Option Err)) : Letter :=
    .last (withArgument (getOptArg rest next) missing action)
  match asChar c with
  | 'A' => set (fun g => { g with allProcesses := true })
  | 'C' => takes "list of command names must follow -C"
      (parseList ctx parseCmd .comm)
  | 'F' =>
      set (fun g => { g with
        formatModifiers := g.formatModifiers ||| fmF
        formatFlags := g.formatFlags ||| ffUf
        unixFOption := true })
  | 'G' => takes "list of real groups must follow -G" (parseList ctx parseGid .rgid)
  | 'H' => set (fun g => { g with forestType := byte 'u' })
  | 'L' => setThread tfUL
  | 'M' => setModifier fmM
  | 'N' => set (fun g => { g with negateSelection := true })
  | 'O' => takes "format or sort specification must follow -O" (defer .sysvO)
  | 'P' => setModifier fmP
  | 'T' => setThread tfUT
  | 'U' => takes "list of real users must follow -U" (parseList ctx parseUid .ruid)
  | 'V' => .last (exclusive ctx "-V")
  | 'Z' => setModifier fmM
  | 'a' => setSelect ssUa
  | 'c' => setModifier fmc
  | 'd' => setSelect ssUd
  | 'e' => set (fun g => { g with allProcesses := true })
  | 'f' => set (fun g =>
      { g with formatFlags := g.formatFlags ||| ffUf, unixFOption := true })
  | 'g' =>
      takes "list of session leaders OR effective group names must follow -g"
        (parseSessionOrGroup ctx)
  | 'j' => if g.sysvJFormat.isSome then setFormat ffUj else setModifier fmj
  | 'l' => setFormat ffUl
  | 'm' => setThread tfUm
  | 'o' => takes "format specification must follow -o" (defer .sysvo)
  | 'p' => takes "list of process IDs must follow -p" (parseList ctx parsePid .pid)
  | 'q' => takes "List of process IDs must follow -q."
      (parseList ctx parsePid .pidQuick)
  | 's' => takes "list of session IDs must follow -s" (parseList ctx parsePid .sess)
  | 't' => takes "list of terminals (pty, tty...) must follow -t"
      (parseList ctx parseTty .tty)
  | 'u' => takes "list of users must follow -u" (parseList ctx parseUid .euid)
  | 'w' => .more 1 (return ())
  | 'x' =>
      if has g.personality perSVR4x then setModifier fmy
      else if has g.personality perHPUXx then
        .more 2 (modifyGlobals (fun g => { g with unixFOption := true }))
      else reject "must set personality to get -x option"
  | 'y' => setModifier fmy
  | '-' => reject "embedded '-' among SysV options makes no sense"
  | _ => reject "unsupported SysV option"

def parseSysvOption (ctx : Context) (arg : Text) (next : List Text) : Run Parsed :=
  parseLetters (sysvOption ctx next) 0 (arg.drop 1)

def bsdHeader (g : Globals) : Letter :=
  if g.headerType ≠ .single then reject "only one heading option may be specified"
  else set (fun g =>
    { g with headerType := if has g.personality perBSDh then .multi else .none })

def bsdM (g : Globals) : Letter :=
  if has g.personality perOldm then setFormat ffLm
  else if has g.personality perBSDm then
    .more 0 (deferSfOption (bytes "pmem") .bsdm)
  else setThread tfBm

/-- The option `t`; without a list it stands for our tty. -/
def bsdTty (ctx : Context) (rest : Text) (next : List Text) :
    Run (Option Err × Nat) :=
  match getOptArg rest next with
  | none => do
      modifyGlobals selectOwnTty
      return (none, 0)
  | some (arg, used) => do
      let err <- parseList ctx parseTty .tty arg
      return (err, used)

def bsdPids (ctx : Context) (arg : Text) : Run (Option Err × Nat) := do
  let err <- parseList ctx parsePid .pid arg
  return (err, 0)

def bsdLetter (ctx : Context) (next : List Text) (g : Globals) (c : UInt8)
    (rest : Text) : Letter :=
  let takes (missing : String) (action : Text -> Run (Option Err)) : Letter :=
    .last (withArgument (getOptArg rest next) missing action)
  match asChar c with
  | 'H' => setThread tfBH
  | 'L' => .last (exclusive ctx "L")
  | 'M' => setThread tfBm
  | 'O' => takes "format or sort specification must follow O" (defer .bsdO)
  | 'S' => set (fun g => { g with includeDeadChildren := true })
  | 'T' => set selectOwnTty
  | 'U' => takes "list of users must follow U" (parseList ctx parseUid .euid)
  | 'V' => .last (exclusive ctx "V")
  | 'W' => reject "obsolete W option not supported (you have a /dev/drum?)"
  | 'X' => setFormat ffLX
  | 'Z' => setModifier fmM
  | 'a' => setSelect ssBa
  | 'c' => set (fun g => { g with bsdCOption := true })
  | 'e' => set (fun g => { g with bsdEOption := true })
  | 'f' => set (fun g => { g with forestType := byte 'b' })
  | 'g' => setSelect ssBg
  | 'h' => bsdHeader g
  | 'j' => setFormat ffBj
  | 'k' => takes "long sort specification must follow 'k'" (defer .gnuSort)
  | 'l' => setFormat ffBl
  | 'm' => bsdM g
  | 'n' => set (fun g => { g with wchanIsNumber := true, userIsNumber := true })
  | 'o' => takes "format specification must follow o" (defer .bsdo)
  | 'p' => takes "list of process IDs must follow p" (parseList ctx parsePid .pid)
  | 'q' => takes "List of process IDs must follow q."
      (parseList ctx parsePid .pidQuick)
  | 'r' => set (fun g => { g with runningOnly := true })
  | 's' => setFormat ffBs
  | 't' => .last (bsdTty ctx rest next)
  | 'u' => setFormat ffBu
  | 'v' => setFormat ffBv
  | 'w' => .more 1 (return ())
  | 'x' => setSelect ssBx
  | '-' => reject "embedded '-' among BSD options makes no sense"
  | _ => reject "unsupported option (BSD syntax)"

def bsdOption (ctx : Context) (next : List Text) (g : Globals) (c : UInt8)
    (rest : Text) : Letter :=
  if isdigit c then .last (bsdPids ctx (c :: rest)) else bsdLetter ctx next g c rest

def bsdRefusal (personality : UInt32) (forceBsd : Bool) (arg : Text) :
    Option String :=
  if arg.head? = some (byte '-') then
    if forceBsd then none else some "cannot happen - problem #1"
  else if has personality perForceBSD then
    if forceBsd then none else some "cannot happen - problem #2"
  else if forceBsd then some "second chance parse failed, not BSD or SysV"
  else none

def bsdLetters (arg : Text) : Text :=
  if arg.head? = some (byte '-') then arg.drop 1 else arg

def parseBsdOption (ctx : Context) (forceBsd : Bool) (arg : Text)
    (next : List Text) : Run Parsed := do
  let g <- globals
  match bsdRefusal g.personality forceBsd arg with
  | some message => return { err := some (.text message), used := 0, wide := 0 }
  | none => parseLetters (bsdOption ctx next) 0 (bsdLetters arg)

/-!
# Long options
-/

inductive GnuOption where
  | argument (missing : String) (action : Text -> Run (Option Err))
  | bare (refusal : String) (action : Run (Option Err))
  | other (action : Run (Option Err))

def grabGnuArg (rest : Text) (next : List Text) : Option (Text × Nat) :=
  match rest with
  | [] => nextArg next
  | c :: value =>
      if (c = byte '=' ∨ c = byte ':') ∧ value ≠ [] then some (value, 0) else none

def parseSize (message : String) (change : Nat -> Globals -> Globals)
    (arg : Text) : Run (Option Err) :=
  let (t, rest) := strtol arg
  if rest = [] ∧ 0 < t ∧ t < 2000000000 then do
    modifyGlobals (change t.toNat)
    return none
  else return some (.text message)

def gnuSize (message : String) (change : Nat -> Globals -> Globals) : GnuOption :=
  .argument message (parseSize message change)

def gnuSet (name : String) (change : Globals -> Globals) : GnuOption :=
  .bare ("option --" ++ name ++ " does not take an argument") (do
    modifyGlobals change
    return none)

def setHeading (heading : Heading) (message : String) (g : Globals) :
    Run (Option Err) :=
  if g.headerType ≠ .single then return some (.text message)
  else do
    modifyGlobals (fun g => { g with headerType := heading })
    return none

def gnuHeading (name : String) (heading : Heading) : GnuOption :=
  .bare ("option --" ++ name ++ " does not take an argument") (do
    let g <- globals
    setHeading heading "only one heading option may be specified" g)

def gnuExclusive (ctx : Context) (x : String) : GnuOption :=
  .other (do
    let (err, _) <- exclusive ctx x
    return err)

def noHeadings : List String :=
  ["no-header", "no-headers", "no-heading", "no-headings",
    "noheader", "noheaders", "noheading", "noheadings"]

def headings : List String :=
  ["header", "headers", "heading", "headings"]

def gnuTable (ctx : Context) (name : Text) : Option GnuOption :=
  let isOne (names : List String) : Bool := names.any (fun s => name == bytes s)
  let selects (missing : String) (parseFn : ParseFn) (typecode : Sel) :
      Option GnuOption :=
    some (.argument missing (parseList ctx parseFn typecode))
  if isOne ["Group"] then selects "list of real groups must follow --Group"
    parseGid .rgid
  else if isOne ["User"] then selects "list of real users must follow --User"
    parseUid .ruid
  else if isOne ["cols", "width", "columns"] then
    some (gnuSize "number of columns must follow --cols, --width, or --columns"
      (fun t g => { g with screenCols := t }))
  else if isOne ["cumulative"] then
    some (gnuSet "cumulative" (fun g => { g with includeDeadChildren := true }))
  else if isOne ["deselect"] then
    some (gnuSet "deselect" (fun g => { g with negateSelection := true }))
  else if isOne noHeadings then some (gnuHeading "no-heading" .none)
  else if isOne headings then some (gnuHeading "heading" .multi)
  else if isOne ["forest"] then
    some (gnuSet "forest" (fun g => { g with forestType := byte 'g' }))
  else if isOne ["format"] then
    some (.argument "format specification must follow --format" (defer .gnuFormat))
  else if isOne ["group"] then
    selects "list of effective groups must follow --group" parseGid .egid
  else if isOne ["info"] then some (gnuExclusive ctx "--info")
  else if isOne ["pid"] then selects "list of process IDs must follow --pid"
    parsePid .pid
  else if isOne ["quick-pid"] then
    selects "List of process IDs must follow --quick-pid." parsePid .pidQuick
  else if isOne ["ppid"] then selects "list of process IDs must follow --ppid"
    parsePid .ppid
  else if isOne ["rows", "lines"] then
    some (gnuSize "number of rows must follow --rows or --lines"
      (fun t g => { g with screenRows := t }))
  else if isOne ["sid"] then selects "some sid thing(s) must follow --sid"
    parsePid .sess
  else if isOne ["sort"] then
    some (.argument "long sort specification must follow --sort" (defer .gnuSort))
  else if isOne ["tty"] then selects "list of ttys must follow --tty" parseTty .tty
  else if isOne ["user"] then
    selects "list of effective users must follow --user" parseUid .euid
  else if isOne ["version"] then some (gnuExclusive ctx "--version")
  else if isOne ["context"] then
    some (.other (do
      modifyGlobals (fun g => { g with formatFlags := g.formatFlags ||| ffFc })
      return none))
  else none

def gnuName (arg : Text) : Text × Text :=
  let ends (c : UInt8) : Bool := c == byte ':' || c == byte '='
  ((arg.drop 2).takeWhile (fun c => !ends c),
    (arg.drop 2).dropWhile (fun c => !ends c))

def gnuOption (ctx : Context) (arg : Text) : Option GnuOption :=
  if 15 < (gnuName arg).1.length then none else gnuTable ctx (gnuName arg).1

/-- A word that is no long option may ask for help, and then the process exits. -/
def unknownGnuOption (arg : Text) : Run (Option Err) := do
  let g <- globals
  if (gnuName arg).1.length <= 15 ∧ (gnuName arg).1 = g.theWordHelp then stop .exit
  else return some (.text "unknown gnu long option")

def gnuUsed (ctx : Context) (arg : Text) (next : List Text) : Nat :=
  match gnuOption ctx arg with
  | some (.argument _ _) => ((grabGnuArg (gnuName arg).2 next).map Prod.snd).getD 0
  | _ => 0

def doGnuOption (option : GnuOption) (rest : Text) (next : List Text) :
    Run (Option Err × Nat) :=
  match option with
  | .argument missing action => withArgument (grabGnuArg rest next) missing action
  | .bare refusal action =>
      if rest ≠ [] then return (some (.text refusal), 0)
      else do
        let err <- action
        return (err, 0)
  | .other action => do
      let err <- action
      return (err, 0)

def parseGnuOption (ctx : Context) (arg : Text) (next : List Text) : Run Parsed :=
  match gnuOption ctx arg with
  | none => do
      let err <- unknownGnuOption arg
      return { err := err, used := 0, wide := 0 }
  | some option => do
      let (err, used) <- doGnuOption option (gnuName arg).2 next
      return { err := err, used := used, wide := 0 }

/-!
# Trailing process numbers
-/

def trailingPid (sys : System) (data : Text) : Except Err (Sel × SelUnion) :=
  match data with
  | c :: rest =>
      if c = byte '-' then (parsePid sys false rest).map (Prod.mk .pgrp)
      else if c = byte '+' then (parsePid sys false rest).map (Prod.mk .sess)
      else (parsePid sys false data).map (Prod.mk .pid)
  | [] => (parsePid sys false data).map (Prod.mk .pid)

def pushTrailing (found : List (Sel × SelUnion)) (typecode : Sel)
    (g : Globals) : Globals :=
  match found.filter (fun entry => entry.1 = typecode) with
  | [] => g
  | entries => pushSelection { typecode := typecode, u := entries.map Prod.snd } g

/-- All arguments from the first number on are numbers. -/
def parseTrailingPids (ctx : Context) (arg : Text) (next : List Text) :
    Run Parsed :=
  match (arg :: next).mapM (trailingPid ctx.sys) with
  | .error err => return { err := some err, used := next.length, wide := 0 }
  | .ok found => do
      modifyGlobals (pushTrailing found .pid)
      modifyGlobals (pushTrailing found .pgrp)
      modifyGlobals (pushTrailing found .sess)
      return { err := none, used := next.length, wide := 0 }

end Ps
end Lepd
