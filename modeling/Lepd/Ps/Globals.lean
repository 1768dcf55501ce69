import Mathlib.Algebra.Order.Ring.Int
import Mathlib.Algebra.Order.Ring.Nat
import Mathlib.Data.List.Basic

/-!
# The global variables of ps

`ps_main` is called again and again in one process.  The options of a call are
global variables, which `reset_global` sets before the arguments are read.
-/

namespace Lepd
namespace Ps

/-- A C string. -/
abbrev Text : Type :=
  List UInt8

def bytes (s : String) : Text :=
  s.toList.map (fun c => UInt8.ofNat c.toNat)

def byte (c : Char) : UInt8 :=
  UInt8.ofNat c.toNat

/-!
# Numbers
-/

def isspace (c : UInt8) : Bool :=
  (9 <= c && c <= 13) || c == 32

def isdigit (c : UInt8) : Bool :=
  48 <= c && c <= 57

def digitOf (base : Nat) (c : UInt8) : Option Nat :=
  let v :=
    if isdigit c then c.toNat - 48
    else if 97 <= c && c <= 122 then c.toNat - 87
    else if 65 <= c && c <= 90 then c.toNat - 55
    else 36
  if v < base then some v else none

def scanDigits (base : Nat) : Nat -> Text -> Nat × Text
  | n, [] => (n, [])
  | n, c :: cs =>
      match digitOf base c with
      | some d => scanDigits base (n * base + d) cs
      | none => (n, c :: cs)

/-- The magnitude of a number with a prefix that tells its base, and what
follows it. -/
def scanMagnitude (str : Text) : Option (Nat × Text) :=
  match str with
  | [] => none
  | c :: cs =>
      if c = byte '0' then
        match cs with
        | x :: d :: rest =>
            if (x = byte 'x' ∨ x = byte 'X') ∧ (digitOf 16 d).isSome then
              some (scanDigits 16 0 (d :: rest))
            else some (scanDigits 8 0 (c :: cs))
        | _ => some (scanDigits 8 0 (c :: cs))
      else if isdigit c then some (scanDigits 10 0 (c :: cs))
      else none

/-- The sign, the magnitude and the end of a number; without digits the end is
the start. -/
def scanNumber (str : Text) : Bool × Nat × Text :=
  let trimmed := str.dropWhile isspace
  let negative := trimmed.head? = some (byte '-')
  let unsigned := if negative ∨ trimmed.head? = some (byte '+') then
    trimmed.drop 1 else trimmed
  match scanMagnitude unsigned with
  | some (n, rest) => (negative, n, rest)
  | none => (false, 0, str)

def ulongMax : Nat := 2 ^ 64 - 1

def strtoul (str : Text) : Nat × Text :=
  let (negative, n, rest) := scanNumber str
  if ulongMax < n then (ulongMax, rest)
  else if negative then ((2 ^ 64 - n) % 2 ^ 64, rest)
  else (n, rest)

def strtol (str : Text) : Int × Text :=
  let (negative, n, rest) := scanNumber str
  if negative then (max (-(n : Int)) (-(2 ^ 63)), rest)
  else (min (n : Int) (2 ^ 63 - 1), rest)

def atoi (digits : Text) : Int :=
  let n : Int := (min (scanDigits 10 0 digits).1 (2 ^ 63 - 1) : Nat)
  (n + 2 ^ 31) % 2 ^ 32 - 2 ^ 31

/-!
# Flags
-/

def has (flags bits : UInt32) : Bool :=
  flags &&& bits != 0

def tfBH : UInt32 := 0x0001
def tfBm : UInt32 := 0x0002
def tfUm : UInt32 := 0x0004
def tfUT : UInt32 := 0x0008
def tfUL : UInt32 := 0x0010
def tfShowProc : UInt32 := 0x0100
def tfShowTask : UInt32 := 0x0200
def tfShowBoth : UInt32 := 0x0400
def tfLooseTasks : UInt32 := 0x0800
def tfNoSort : UInt32 := 0x1000
def tfMustUse : UInt32 := 0x4000

def perBSDh : UInt32 := 0x0002
def perBSDm : UInt32 := 0x0004
def perIrixl : UInt32 := 0x0008
def perForceBSD : UInt32 := 0x0010
def perGoodo : UInt32 := 0x0020
def perOldm : UInt32 := 0x0040
def perNoDefaultg : UInt32 := 0x0080
def perZapAddr : UInt32 := 0x0100
def perSaneUser : UInt32 := 0x0200
def perHPUXx : UInt32 := 0x0400
def perSVR4x : UInt32 := 0x0800

def ssBx : UInt32 := 0x01
def ssBg : UInt32 := 0x02
def ssUd : UInt32 := 0x04
def ssUa : UInt32 := 0x08
def ssBa : UInt32 := 0x10

def ffUf : UInt32 := 0x0001
def ffUj : UInt32 := 0x0002
def ffUl : UInt32 := 0x0004
def ffBj : UInt32 := 0x0008
def ffBl : UInt32 := 0x0010
def ffBs : UInt32 := 0x0020
def ffBu : UInt32 := 0x0040
def ffBv : UInt32 := 0x0080
def ffLX : UInt32 := 0x0100
def ffLm : UInt32 := 0x0200
def ffFc : UInt32 := 0x0400

def fmc : UInt32 := 0x0001
def fmj : UInt32 := 0x0002
def fmy : UInt32 := 0x0004
def fmP : UInt32 := 0x0010
def fmM : UInt32 := 0x0020
def fmF : UInt32 := 0x0080

def cfPidmax : UInt32 := 0x00000010
def cfPrintEveryTime : UInt32 := 0x40000000

def outbufSize : Nat := 2 * 64 * 1024

/-!
# Lists
-/

inductive Sel where
  | ruid
  | euid
  | rgid
  | egid
  | pgrp
  | pid
  | tty
  | sess
  | comm
  | ppid
  | pidQuick
deriving DecidableEq

inductive SelUnion where
  | number (n : Nat)
  | cmd (text : Text)
deriving DecidableEq

structure SelectionNode where
  typecode : Sel
  u : List SelUnion
deriving DecidableEq

/--
A column of the output.  Nodes are numbered in the order in which a call
allocates them.
-/
structure FormatNode where
  node : Nat
  name : Text
  /-- The function that prints the column, if there is one. -/
  pr : Option Text
  width : Int
  need : UInt32
  vendor : Nat
  flags : UInt32
deriving DecidableEq

structure SortNode where
  node : Nat
  sr : Text
  reverse : Bool
  need : UInt32
deriving DecidableEq

inductive Heading where
  | single
  | none
  | multi
deriving DecidableEq, Inhabited

/-!
# What a call finds
-/

/-- What the system answers. -/
structure System where
  getpwnam : Text -> Option Nat
  getgrnam : Text -> Option Nat
  /-- `stat`: whether the file is a character device, and its number. -/
  stat : Text -> Option (Bool × Nat)
  /-- Columns and rows, from standard output, standard error, standard input and
  `/dev/tty`. -/
  winsizes : List (Nat × Nat)
  stdoutIsTty : Bool
  selfTty : Nat
  /-- The contents of `/proc/sys/kernel/pid_max`. -/
  pidMax : Option Text

structure Environment where
  getenv : Text -> Option Text
  /-- The translation of `help`. -/
  wordHelp : Text

def Environment.nonempty (env : Environment) (name : String) : Option Text :=
  (env.getenv (bytes name)).filter (fun value => value ≠ [])

/-!
# The variables
-/

structure Personality where
  personality : UInt32
  preferBsdDefaults : Bool
  bsdJFormat : Text
  bsdLFormat : Text
  bsdSFormat : Text
  bsdUFormat : Text
  bsdVFormat : Text
  sysvFFormat : Option Text
  sysvFlFormat : Option Text
  sysvJFormat : Option Text
  sysvLFormat : Option Text
deriving DecidableEq, Inhabited

structure Globals extends Personality where
  allProcesses : Bool
  bsdCOption : Bool
  bsdEOption : Bool
  cachedTty : Nat
  /-- The letter of the option that asked for a forest, or 0. -/
  forestType : UInt8
  formatFlags : UInt32
  formatList : List FormatNode
  formatModifiers : UInt32
  headerType : Heading
  includeDeadChildren : Bool
  negateSelection : Bool
  runningOnly : Bool
  screenCols : Nat
  screenRows : Nat
  selectionList : List SelectionNode
  simpleSelect : UInt32
  sortList : List SortNode
  threadFlags : UInt32
  unixFOption : Bool
  userIsNumber : Bool
  wchanIsNumber : Bool
  theWordHelp : Text
deriving DecidableEq, Inhabited

def sizeVariable (env : Environment) (name : String) (size : Nat) : Nat :=
  match env.nonempty name with
  | none => size
  | some value =>
      let (t, rest) := strtol value
      if rest = [] ∧ 0 < t ∧ t < outbufSize then t.toNat else size

def windowSize (sys : System) : Nat × Nat :=
  (sys.winsizes.find? (fun ws => 0 < ws.1 ∧ 0 < ws.2)).getD (80, 24)

def setScreenSize (env : Environment) (sys : System) (g : Globals) : Globals :=
  { g with
    screenCols := sizeVariable env "COLUMNS" (if sys.stdoutIsTty then
      (windowSize sys).1 else outbufSize)
    screenRows := sizeVariable env "LINES" (windowSize sys).2 }

def strtolower (text : Text) : Text :=
  text.map (fun c => if 65 <= c ∧ c <= 90 then c + 32 else c)

def personalityName (env : Environment) : Text :=
  if (env.getenv (bytes "I_WANT_A_BROKEN_PS")).isSome then bytes "old"
  else ((env.nonempty "PS_PERSONALITY").orElse
    (fun _ => env.nonempty "CMD_ENV")).getD (bytes "unknown")

def defaultPersonality : Personality :=
  { personality := 0
    preferBsdDefaults := false
    bsdJFormat := bytes "OL_j"
    bsdLFormat := bytes "OL_l"
    bsdSFormat := bytes "OL_s"
    bsdUFormat := bytes "OL_u"
    bsdVFormat := bytes "OL_v"
    sysvFFormat := none
    sysvFlFormat := none
    sysvJFormat := none
    sysvLFormat := none }

def freeBSDFormats : Personality :=
  { defaultPersonality with
    bsdJFormat := bytes "FB_j"
    bsdLFormat := bytes "FB_l"
    bsdUFormat := bytes "FB_u"
    bsdVFormat := bytes "FB_v" }

def wantsXPG (env : Environment) : Bool :=
  match env.getenv (bytes "_XPG") with
  | some (c :: _) => byte '0' < c && c <= byte '9'
  | _ => false

def namedPersonality (env : Environment) (name : Text) : Personality :=
  if name = bytes "bsd" then
    { freeBSDFormats with
      personality := perForceBSD ||| perBSDh ||| perBSDm
      preferBsdDefaults := true }
  else if name = bytes "old" then
    { defaultPersonality with personality := perForceBSD ||| perOldm,
                              preferBsdDefaults := true }
  else if name = bytes "debian" ∨ name = bytes "gnu" then
    { defaultPersonality with
      personality := perGoodo ||| perOldm
      preferBsdDefaults := true
      sysvFFormat := some (bytes "RD_f")
      sysvJFormat := some (bytes "RD_j")
      sysvLFormat := some (bytes "RD_l") }
  else if name = bytes "linux" then
    { defaultPersonality with personality := perGoodo ||| perZapAddr ||| perSaneUser }
  else if name = bytes "aix" then freeBSDFormats
  else if name = bytes "tru64" ∨ name = bytes "compaq" ∨ name = bytes "digital" then
    { personality := perGoodo ||| perBSDh
      preferBsdDefaults := true
      sysvFFormat := some (bytes "F5FMT")
      sysvFlFormat := some (bytes "FL5FMT")
      sysvJFormat := some (bytes "JFMT")
      sysvLFormat := some (bytes "L5FMT")
      bsdJFormat := bytes "JFMT"
      bsdLFormat := bytes "LFMT"
      bsdSFormat := bytes "SFMT"
      bsdUFormat := bytes "UFMT"
      bsdVFormat := bytes "VFMT" }
  else if name = bytes "sunos4" then
    { freeBSDFormats with personality := perNoDefaultg, preferBsdDefaults := true }
  else if name = bytes "irix" ∨ name = bytes "sgi" then
    if wantsXPG env then defaultPersonality
    else { defaultPersonality with personality := perIrixl }
  else if name = bytes "os390" ∨ name = bytes "s390" ∨ name = bytes "390" then
    { defaultPersonality with sysvJFormat := some (bytes "J390") }
  else if name = bytes "hp" ∨ name = bytes "hpux" then
    { defaultPersonality with personality := perHPUXx }
  else if name = bytes "svr4" ∨ name = bytes "sysv" ∨ name = bytes "sco" then
    { defaultPersonality with personality := perSVR4x }
  else defaultPersonality

def setPersonality (env : Environment) : Personality :=
  if 15 < (personalityName env).length then defaultPersonality
  else namedPersonality env (strtolower (personalityName env))

def resetGlobal (env : Environment) (sys : System) (g : Globals) : Globals :=
  { setScreenSize env sys g with
    toPersonality := setPersonality env
    allProcesses := false
    bsdCOption := false
    bsdEOption := false
    cachedTty := sys.selfTty
    forestType := 0
    formatFlags := 0
    formatList := []
    formatModifiers := 0
    headerType := .single
    includeDeadChildren := false
    negateSelection := false
    runningOnly := false
    selectionList := []
    simpleSelect := 0
    sortList := []
    threadFlags := 0
    unixFOption := false
    userIsNumber := false
    wchanIsNumber := false
    theWordHelp := env.wordHelp }

/-- Whatever the variables were, they are the same behind `reset_global`. -/
theorem resetGlobal_forgets (env : Environment) (sys : System) (g g' : Globals) :
    resetGlobal env sys g = resetGlobal env sys g' :=
  rfl

end Ps
end Lepd
