import Mathlib.Algebra.Order.Ring.Nat
import Mathlib.Data.Finset.Lattice.Lemmas
import Mathlib.Data.Finset.SDiff
import Lepd.Foundation.Strtok

/-!
# The arguments of iostat

`iostat_main` is called again and again in one process. Its options are static
variables, which the arguments of a call add to.
-/

namespace Lepd
namespace Sysstat

open Foundation

/-- A C string. -/
abbrev Text : Type :=
  List UInt8

inductive Flag where
  | cpu
  | disk
  | timestamp
  | extended
  | partAll
  | kilobytes
  | hasSysfs
  | debug
  | unfiltered
  | megabytes
  | partitions
  | hasDiskstats
  | humanRead
  | persistName
  | omitSinceBoot
  | jsonOutput
  | devmapName
  | iso
  | groupTotalOnly
  | zeroOmit
deriving DecidableEq

inductive ListPointer where
  | null
  | allocated
  /-- To a list that is freed. -/
  | dangling
deriving DecidableEq

structure Statics where
  flags : Finset Flag
  dlistIdx : Nat
  groupNr : Nat
  interval : Int
  groupName : Text
  persistentNameType : Text
  /-- The names in the allocated entries of the device list. -/
  devList : List Text
  listPointer : ListPointer

/-- The static variables at the start of the process. -/
def initial : Statics :=
  { flags := ∅, dlistIdx := 0, groupNr := 0, interval := 0, groupName := [],
    persistentNameType := [],
    devList := [], listPointer := .null }

/-- Why a call does not return. -/
inductive Stop where
  /-- The process exits, with a message about its use or about what it can not
  find. -/
  | exit
  /-- An entry beyond the end of the device list is used. -/
  | beyond
deriving DecidableEq

structure Environment where
  posixlyCorrect : Bool
  /-- `device_name`, which follows links. -/
  deviceName : Text -> Text
  /-- `get_pretty_name_from_persistent`, for a type of names. -/
  prettyName : Text -> Text -> Option Text
  /-- There is a directory for a type of names. -/
  persistentTypeDir : Text -> Bool
  /-- `/proc/diskstats` has devices. -/
  diskstats : Bool
  /-- `/sys` has devices, and partitions if these are asked for. -/
  sysfs : Bool -> Bool
  isoTimeFmt : Bool

def maxNameLen : Nat := 128
def maxFileLen : Nat := 256

abbrev commaByte : UInt8 := 44
abbrev dash : UInt8 := 45

abbrev kAll : Text := [65, 76, 76]

abbrev kJson : Text := [74, 83, 79, 78]

def isdigit (c : UInt8) : Bool :=
  48 <= c && c <= 57

/-!
# The device list
-/

def countCsvalues (args : List Text) : Nat :=
  (args.map (fun arg => if commaByte ∈ arg then 1 + (arg.drop 1).count commaByte
    else 0)).sum

def sallocDevList (listLen : Nat) (s : Statics) : Statics :=
  { s with devList := List.replicate listLen [], listPointer := .allocated }

/-- Free the device list; the pointer is kept, and freeing it again aborts the
process. -/
def sfreeDevList (s : Statics) : Option Statics :=
  match s.listPointer with
  | .null => some s
  | .allocated => some { s with devList := [], listPointer := .dangling }
  | .dangling => none

def findEntry (name : Text) : List Text -> Nat -> Except Stop Nat
  | _, 0 => .ok 0
  | [], _ + 1 => .error .beyond
  | entry :: entries, n + 1 =>
      if entry = name then .ok 0
      else do
        let i <- findEntry name entries n
        return i + 1

/-- Look for the device in the device list and store it if not found. -/
def updateDevList (name : Text) (s : Statics) : Except Stop Statics := do
  let i <- findEntry name s.devList s.dlistIdx
  if i = s.dlistIdx then
    if i < s.devList.length then
      return { s with dlistIdx := s.dlistIdx + 1,
                      devList := s.devList.set i (name.take (maxNameLen - 1)) }
    else throw .beyond
  else return s

/-!
# Arguments
-/

/-- One option with its argument, or one argument. -/
inductive Item where
  /-- `-p`, with the names behind it if there are any. -/
  | partitions (names : Option (List Text))
  | group (name : Option Text)
  | persistent (type : Option Text)
  | output (format : Option Text)
  /-- A dash with letters. -/
  | letters (cs : List UInt8)
  | device (name : Text)
  | number (text : Text)

def isNames (arg : Text) : Bool :=
  !arg.all isdigit && arg.head? != some dash

/-- The arguments one after the other, each option with the argument that it
takes. -/
def readItems : List Text -> List Item
  | [] => []
  | arg :: rest =>
      if arg = [dash, 112] then
        match rest with
        | [] => [.partitions none]
        | names :: others =>
            if isNames names then .partitions
              (some (Strtok.words commaByte names)) :: readItems others
            else .partitions none :: readItems (names :: others)
      else if arg = [dash, 103] then
        match rest with
        | [] => [.group none]
        | name :: others => .group (some name) :: readItems others
      else if arg = [dash, 106] then
        match rest with
        | [] => [.persistent none]
        | type :: others => .persistent (some type) :: readItems others
      else if arg = [dash, 111] then
        match rest with
        | [] => [.output none]
        | format :: others => .output (some format) :: readItems others
      else if arg.head? = some dash then .letters (arg.drop 1) :: readItems rest
      else if (arg.head?.map isdigit).getD false then .number arg :: readItems rest
      else .device arg :: readItems rest

structure Parsing where
  statics : Statics
  it : Int
  count : Int
  reportSet : Bool

def Parsing.addFlags (p : Parsing) (flags : Finset Flag) : Parsing :=
  { p with statics := { p.statics with flags := p.statics.flags ∪ flags } }

def Parsing.update (p : Parsing) (f : Statics -> Except Stop Statics) :
    Except Stop Parsing := do
  let statics <- f p.statics
  return { p with statics := statics }

def listName (env : Environment) (s : Statics) (name : Text) : Text :=
  let devname := env.deviceName name
  if Flag.persistName ∈ s.flags then
    (env.prettyName s.persistentNameType devname).getD devname
  else devname

def storeName (env : Environment) (name : Text) (p : Parsing) :
    Except Stop Parsing :=
  p.update (fun s => updateDevList (listName env s name) s)

def storeNames (env : Environment) : List Text -> Parsing -> Except Stop Parsing
  | [], p => .ok p
  | name :: names, p =>
      if name = kAll then storeNames env names (p.addFlags {.partAll})
      else do
        let p <- storeName env name p
        storeNames env names p

def strtolower (text : Text) : Text :=
  text.map (fun c => if 65 <= c ∧ c <= 90 then c + 32 else c)

def letterFlags (c : UInt8) : Option (Finset Flag × Bool) :=
  if c = 99 then some ({.cpu}, true)
  else if c = 100 then some ({.disk}, true)
  else if c = 72 then some ({.groupTotalOnly}, false)
  else if c = 104 then some ({.humanRead}, false)
  else if c = 107 then some ({.kilobytes}, false)
  else if c = 109 then some ({.megabytes}, false)
  else if c = 78 then some ({.devmapName}, false)
  else if c = 112 then some ({.partitions, .partAll}, false)
  else if c = 116 then some ({.timestamp}, false)
  else if c = 120 then some ({.extended}, false)
  else if c = 121 then some ({.omitSinceBoot}, false)
  else if c = 122 then some ({.zeroOmit}, false)
  else none

def processLetter (c : UInt8) (p : Parsing) : Except Stop Parsing :=
  match letterFlags c with
  | none => .error .exit
  | some (flags, report) =>
      if (c = 107 ∧ Flag.megabytes ∈ p.statics.flags) ∨
        (c = 109 ∧ Flag.kilobytes ∈ p.statics.flags) then
        .error .exit
      else .ok { p.addFlags flags with reportSet := p.reportSet || report }

def processLetters : List UInt8 -> Parsing -> Except Stop Parsing
  | [], p => .ok p
  | c :: cs, p => do
      let p <- processLetter c p
      processLetters cs p

def atol (text : Text) : Int :=
  min ((text.takeWhile isdigit).foldl (fun n c => n * 10 + (c.toNat - 48)) 0)
    (2 ^ 63 - 1)

/-- The group that was named last is saved in the list before there is another
one. -/
def saveGroup (p : Parsing) : Except Stop Parsing :=
  if 0 < p.statics.groupNr then p.update (fun s => updateDevList s.groupName s)
  else .ok p

def Parsing.enterGroup (p : Parsing) (name : Text) : Parsing :=
  { p with statics.groupName := 32 :: name.take (maxNameLen - 2),
           statics.groupNr := p.statics.groupNr + 1 }

def processItem (env : Environment) : Item -> Parsing -> Except Stop Parsing
  | .partitions none, p => .ok (p.addFlags {.partitions, .partAll})
  | .partitions (some names), p =>
      storeNames env names (p.addFlags {.partitions, .unfiltered})
  | .group name, p => do
      let p <- saveGroup p
      match name with
      | none => .error .exit
      | some name => return p.enterGroup name
  | .persistent none, _ => .error .exit
  | .persistent (some type), p =>
      if maxFileLen - 1 <= type.length then .error .exit
      else if env.persistentTypeDir (strtolower type) then
        .ok { p.addFlags {.persistName, .humanRead} with
              statics.persistentNameType := strtolower type }
      else .error .exit
  | .output format, p =>
      if format = some kJson then .ok (p.addFlags {.jsonOutput}) else .error .exit
  | .letters cs, p => processLetters cs p
  | .device name, p =>
      if name = kAll then .ok (p.addFlags {.unfiltered})
      else storeName env name (p.addFlags {.unfiltered})
  | .number text, p =>
      if p.it = 0 then
        if atol text < 0 then .error .exit
        else .ok { p with statics.interval := atol text, count := -1, it := 1 }
      else if 0 < p.it then
        if atol text < 1 ∨ p.statics.interval = 0 then .error .exit
        else .ok { p with count := atol text, it := -1 }
      else .error .exit

def processItems (env : Environment) : List Item -> Parsing -> Except Stop Parsing
  | [], p => .ok p
  | item :: items, p => do
      let p <- processItem env item p
      processItems env items p

def setDiskOutputUnit (env : Environment) (flags : Finset Flag) : Finset Flag :=
  if .kilobytes ∈ flags ∨ .megabytes ∈ flags then flags
  else if env.posixlyCorrect then flags
  else flags ∪ {.kilobytes}

def defaultReports (reportSet : Bool) (flags : Finset Flag) : Finset Flag :=
  let flags := if reportSet then flags else flags ∪ {.cpu, .disk}
  if .partitions ∈ flags ∨ .extended ∈ flags ∨ .unfiltered ∈ flags then
    flags ∪ {.disk} else flags

def finishArgs (env : Environment) (p : Parsing) : Except Stop Parsing :=
  let flags := defaultReports p.reportSet p.statics.flags
  if .groupTotalOnly ∈ flags ∧ p.statics.groupNr = 0 then .error .exit
  else
    let flags := setDiskOutputUnit env flags
    let dlistIdx := if .partAll ∈ flags then 0 else p.statics.dlistIdx
    let count := if p.statics.interval = 0 then 1 else p.count
    .ok { p with
      statics := { p.statics with flags := flags, dlistIdx := dlistIdx }
      count := count }

/-- A call goes through its arguments. -/
def parseArgs (env : Environment) (argv : List Text) (s : Statics) :
    Except Stop Parsing := do
  let args := argv.drop 1
  let s := if 1 < argv.length then sallocDevList
    (args.length + countCsvalues args) s else s
  let p <- processItems env (readItems args)
      { statics := s, it := 0, count := 1, reportSet := false }
  finishArgs env p

/-!
# The report
-/

def diskstatsFlags (env : Environment) (flags : Finset Flag) : Finset Flag :=
  if env.diskstats then flags ∪ {.hasDiskstats} else flags

def NeedsSysfs (flags : Finset Flag) : Prop :=
  Flag.hasDiskstats ∉ flags ∨ (Flag.partitions ∈ flags ∧ Flag.partAll ∉ flags)

instance (flags : Finset Flag) : Decidable (NeedsSysfs flags) :=
  inferInstanceAs (Decidable (_ ∨ _))

def Statics.withFlags (s : Statics) (flags : Finset Flag) : Statics :=
  { s with flags := flags }

def ioSysInit (env : Environment) (s : Statics) : Except Stop Statics :=
  if NeedsSysfs (diskstatsFlags env s.flags) then
    if env.sysfs (decide (Flag.partitions ∈ diskstatsFlags env s.flags)) then
      .ok (s.withFlags (diskstatsFlags env s.flags ∪ {.hasSysfs}))
    else .error .exit
  else .ok (s.withFlags (diskstatsFlags env s.flags))

/-- Save the last group name entered on the command line in the list. -/
def presaveDeviceList (s : Statics) : Except Stop Statics :=
  if 0 < s.dlistIdx then updateDevList s.groupName s else .ok s

def presaveGroups (s : Statics) : Except Stop Statics :=
  if 0 < s.groupNr then presaveDeviceList s else .ok s

/-- The options in force for a report. -/
structure Options where
  flags : Finset Flag
  dlistIdx : Nat
  groupNr : Nat
  interval : Int
deriving DecidableEq

def systemFlags : Finset Flag :=
  {.hasSysfs, .hasDiskstats, .iso}

def Statics.options (s : Statics) : Options :=
  { flags := s.flags \ systemFlags, dlistIdx := s.dlistIdx,
    groupNr := s.groupNr, interval := s.interval }

/--
One call: the options in force once the arguments are read, and what it leaves
behind. It leaves nothing if it frees the list a second time: the process aborts
behind the report.
-/
def iostatMain (env : Environment) (argv : List Text) (s : Statics) :
    Except Stop (Options × Option Statics) := do
  let p <- parseArgs env argv s
  let s <- ioSysInit env p.statics
  let s <- presaveGroups s
  let flags := if env.isoTimeFmt then s.flags ∪ {.iso} else s.flags
  return (p.statics.options, sfreeDevList (s.withFlags flags))

end Sysstat
end Lepd
