import Lepd.Cgtop.Blkio
import Lepd.Cgtop.FreshStrings
import Lepd.Cgtop.Tasks
import Lepd.Foundation.Descriptors
import Lepd.Foundation.Programs
import Lepd.Foundation.Ring

/-!
# The program cgtop

The functions from `process` to `cgtop_main`, on the state of the process that
runs them. Where a function crashes or does not come back it has no answer.
Allocation is taken to succeed.
-/

namespace Lepd
namespace Cgtop

open Foundation
open Ps (Text bytes byte)
open CJson (cString)

/-!
# The state
-/

structure Timespec where
  sec : UInt64
  nsec : UInt64

def Timespec.ns (t : Timespec) : UInt64 :=
  t.sec * 1000000000 + t.nsec

structure Dirent where
  name : Text
  /-- `d_type` is `DT_DIR`. -/
  isDir : Bool

/-- What the system answers, by the number of the call, and the values that C
leaves open. -/
structure Env where
  fopen : Nat -> Text -> Option (Text × Ending)
  opendir : Nat -> Text -> Option (List Dirent)
  fdopen : Nat -> Bool
  clock : Nat -> Timespec
  /-- The answers of functions that end without a return. -/
  int : Nat -> Int
  /-- The contents of a `struct timespec` that was not assigned. -/
  stamp : Nat -> Timespec
  /-- The bytes of a block that was not written to. -/
  memory : Nat -> Nat -> UInt8

inductive Opened where
  | file (path : Text)
  | directory (path : Text)
  | other

/-- `struct Cgroup`, with both operands of the quotient in `cpu_fraction`. -/
structure Cgroup where
  path : Text
  tasks : UInt32
  cpuFraction : Option (UInt64 × UInt64)
  memory : UInt64
  ioInBps : UInt64
  ioOutBps : UInt64

def Cgroup.blank : Cgroup :=
  ⟨[], 0, none, 0, 0, 0⟩

structure Saved where
  oldTime : Timespec
  oldUsage : UInt64
  oldRd : UInt64
  oldWr : UInt64
  usageAt : Nat
  blkioAt : Nat

/--
The numbers that the rates of a group were computed from, the calls with which
they were read, and the number of the `struct timespec` that was not assigned.
-/
inductive Rates where
  | none
  | cpu (saved : Saved) (readAt clockAt : Nat) (newUsage x y : UInt64)
  | io (saved : Saved) (readAt doneAt stampAt : Nat) (totals : Totals)
      (i jr jw : UInt64)

/-- A call of `process` that put a node into the list. -/
structure Visit where
  controller : Controller
  path : Text
  node : Nat
  rates : Rates

structure World where
  /-- The number of calls to the system. -/
  tick : Nat
  descriptors : Descriptors Opened
  heap : RingHeap Cgroup Nat
  /-- The address of the next allocation. -/
  fresh : Nat
  /-- `G` -/
  head : Nat
  saved : Saved
  /-- The number of values that C left open. -/
  ints : Nat
  stamps : Nat
  /-- The number of blocks that were looked at before anything was written to
  them. -/
  blocks : Nat
  /-- The number of strings that were not built inside of their blocks. -/
  strays : Nat
  /-- The visits of this call, the last one first. -/
  visits : List Visit
  /-- What `process`, `refresh_one` and `cg_read_subgroup` answered, the last
  answer first. -/
  answers : List Int
  rows : List Cgroup

abbrev Routine (value : Type) : Type :=
  Program World value

/-!
# Calls to the system
-/

def now : Routine Nat :=
  fun w => some (w.tick, w)

def crash {value : Type} : Routine value :=
  fun _ => none

def fopen (env : Env) (path : Text) : Routine (Option (Nat × Stream)) :=
  fun w =>
    match env.fopen w.tick path with
    | none => some (none, { w with tick := w.tick + 1 })
    | some (content, ending) =>
        some (some (w.descriptors.lowestFree, .opened content ending),
          { w with tick := w.tick + 1,
                   descriptors := w.descriptors.assign (.file path) })

def fclose (fd : Nat) : Routine Unit :=
  fun w => some ((), { w with descriptors := w.descriptors.close fd })

/-- The entries are those that `readdir` answers, in their order. -/
def opendir (env : Env) (path : Text) : Routine (Option (List Dirent)) :=
  fun w =>
    match env.opendir w.tick path with
    | none => some (none, { w with tick := w.tick + 1 })
    | some entries =>
        some (some entries,
          { w with tick := w.tick + 1,
                   descriptors := w.descriptors.assign (.directory path) })

/-- `fdopen` fails on a descriptor that is not open. -/
def fdopen (env : Env) (fd : Nat) : Routine Bool :=
  fun w => some (env.fdopen w.tick && (w.descriptors.entry fd).isSome,
    { w with tick := w.tick + 1 })

def clockGettime (env : Env) : Routine Timespec :=
  fun w => some (env.clock w.tick, { w with tick := w.tick + 1 })

/-- What a function answers that ends without a return. -/
def arbitraryInt (env : Env) : Routine Int :=
  fun w => some (env.int w.ints, { w with ints := w.ints + 1 })

def stampNumber : Routine Nat :=
  fun w => some (w.stamps, w)

/-- What a `struct timespec` holds that was not assigned. -/
def unassigned (env : Env) : Routine Timespec :=
  fun w => some (env.stamp w.stamps, { w with stamps := w.stamps + 1 })

/-- Answer, and record the answer. -/
def report (r : Int) : Routine Int :=
  fun w => some (r, { w with answers := r :: w.answers })

def mallocGroup : Routine Nat :=
  fun w => some (w.fresh, { w with
    heap := Function.update w.heap w.fresh (some ⟨.blank, none, none⟩), fresh :=
      w.fresh + 1 })

def setGroup (g : Nat) (f : Cgroup -> Cgroup) : Routine Unit :=
  fun w => (w.heap.modifyItem g f).map (fun heap => ((), { w with heap := heap }))

/-!
# Strings
-/

def malloc (env : Env) (size : Nat) : Routine Text :=
  fun w => some ((List.range size).map (env.memory w.blocks),
    { w with blocks := w.blocks + 1 })

/--
The string that a function leaves in its block. If the function leaves the
block, or leaves something else in it, this is recorded, and the text is taken
to be left nevertheless.
-/
def built (text : Text) (block : Option Text) : Routine Text :=
  fun w => some (text,
    if block.map cString = some text then w else { w with strays := w.strays + 1 })

def strjoinFresh (env : Env) (x : Text) (ts : List Text) : Routine Text := do
  let r <- malloc env (joinedLength (some x) ts + 1)
  built (concatenation (some x) ts) (strjoin (some x) ts r)

/-- `path_kill_slashes`; what its block held does not matter, for it clears it
first. -/
def killSlashesFresh (path : Text) : Routine Text :=
  built (pathKillSlashes path) (killSlashesIn path (List.replicate path.length 0))

def joinPath (env : Env) (controller : Controller) (path suffix : Text) :
    Routine Text := do
  let t <- strjoinFresh env (bytes "/sys/fs/cgroup/")
    [controller.name, [slash], path, [slash], suffix]
  killSlashesFresh t

/-- The path of a subgroup, as `cg_read_subgroup` puts it together. -/
def joinSubgroup (env : Env) (path name : Text) : Routine Text := do
  let fn <- strjoinFresh env path [[slash], name]
  killSlashesFresh fn

def storePathFresh (env : Env) (fs : Text) : Routine Text := do
  let path <- malloc env fs.length
  built (groupPath fs) (storePath fs path)

/-!
# One group
-/

def readOneLineFile (env : Env) (fn : Text) : Routine (Option Text) := do
  match <- fopen env fn with
  | none => return none
  | some (_, f) =>
      match fgets 20 f with
      | none => return none
      | some (t, _) =>
          return some ((cString t).takeWhile (fun c =>
          c != newline && c != byte '\r'))

def savedValues : Routine Saved :=
  fun w => some (w.saved, w)

def setSaved (f : Saved -> Saved) : Routine Unit :=
  fun w => some ((), { w with saved := f w.saved })

/-- The branch of `process` for `cpuacct`, which is without result where
`process` fails. -/
def cpuRates (env : Env) (path : Text) (g : Nat) : Routine (Option Rates) := do
  let p <- joinPath env .cpuacct path (bytes "cpuacct.usage")
  let readAt <- now
  match <- readOneLineFile env p with
  | none => return none
  | some v =>
      let newUsage := strtoull v
      let clockAt <- now
      let ts <- clockGettime env
      let saved <- savedValues
      let x := ts.ns - saved.oldTime.ns
      let y := newUsage - saved.oldUsage
      setGroup g (fun group => if 0 < y then
        { group with cpuFraction := some (y, x) } else group)
      return some (.cpu saved readAt clockAt newUsage x y)

def memoryUsage (env : Env) (path : Text) (g : Nat) : Routine (Option Rates) := do
  let p <- joinPath env .memory path (bytes "memory.usage_in_bytes")
  match <- readOneLineFile env p with
  | none => return none
  | some v =>
      setGroup g (fun group => { group with memory := strtoull v / 1024 / 1024 })
      return some .none

/-- The branch for `blkio`, in which `ts` is never assigned. -/
def ioRates (env : Env) (path : Text) (g : Nat) : Routine (Option Rates) := do
  let p <- joinPath env .blkio path (bytes "blkio.io_service_bytes")
  let readAt <- now
  match <- fopen env p with
  | none => return none
  | some (fd, f) =>
      let totals := totalsOf f
      fclose fd
      let stampAt <- stampNumber
      let ts <- unassigned env
      let doneAt <- now
      let saved <- savedValues
      let i := ts.ns - saved.oldTime.ns
      let jr := totals.rd - saved.oldRd
      let jw := totals.wr - saved.oldWr
      if i = 0 then crash
      else
        setGroup g (fun group => { group with
          ioInBps := jr * 1000000000 / i, ioOutBps := jw * 1000000000 / i })
        return some (.io saved readAt doneAt stampAt totals i jr jw)

def rates (env : Env) (controller : Controller) (path : Text) (g : Nat) :
    Routine (Option Rates) :=
  match controller with
  | .systemd => return some .none
  | .cpuacct => cpuRates env path g
  | .memory => memoryUsage env path g
  | .blkio => ioRates env path g

/-- Put the node into the list behind `G`, and record the visit. -/
def insertGroup (visit : Visit) : Routine Unit :=
  fun w => (w.heap.insertAfter w.head visit.node).map (fun heap =>
    ((), { w with heap := heap, visits := visit :: w.visits }))

def process (env : Env) (controller : Controller) (path : Text) : Routine Int := do
  let g <- mallocGroup
  let fs <- joinPath env controller path (bytes "cgroup.procs")
  match <- fopen env fs with
  | none => report (-1)
  | some (fd, f) =>
      let counted <- StateT.lift (countTasks (f.rest.length + 1) f 0)
      fclose fd
      let name <- storePathFresh env fs
      setGroup g (fun group => { group with tasks := counted.1, path := name })
      match <- rates env controller path g with
      | none => report (-1)
      | some rates =>
          insertGroup ⟨controller, path, g, rates⟩
          let r <- arbitraryInt env
          report r

/-!
# The traversal
-/

/-- `cg_read_subgroup`, given what it calls for a subgroup and the entries that
are left. -/
def cgReadSubgroup (env : Env) (refreshOne : Text -> Routine Int) (path : Text) :
    List Dirent -> Routine Int
  | [] => report 0
  | de :: entries =>
      if !de.isDir then cgReadSubgroup env refreshOne path entries
      else if de.name = bytes "." ∨ de.name = bytes ".." then
        cgReadSubgroup env refreshOne path entries
      else do
        let fn <- joinSubgroup env path de.name
        let r <- refreshOne fn
        if r < 0 then report (-1) else cgReadSubgroup env refreshOne path entries

/-- `refresh_one`, on `left` levels below which nothing is visited; at a depth
of 3 one is left. -/
def refreshOne (env : Env) (controller : Controller) : Nat -> Text -> Routine Int
  | 0, _ => report 0
  | left + 1, path => do
      let r <- process env controller path
      if r < 0 then report (-1)
      else
        let fs <- joinPath env controller path (bytes "/")
        match <- opendir env fs with
        | none => report (-1)
        | some entries =>
            let r <- cgReadSubgroup env (refreshOne env controller left) path
                entries
            if r < 0 then report (-1)
            else
              let r <- arbitraryInt env
              report r

def refreshAll (env : Env) : List Controller -> Routine Int
  | [] => arbitraryInt env
  | controller :: controllers => do
      let r <- refreshOne env controller 4 [slash]
      if r < 0 then return -1 else refreshAll env controllers

def refresh (env : Env) : Routine Int :=
  refreshAll env [.systemd, .cpuacct, .memory, .blkio]

/-!
# The whole program
-/

/-- `read_from_cpuacct` on `&old_usage`; `fgets` does not take a null pointer. -/
def readFromCpuacct (env : Env) : Routine Int := do
  let readAt <- now
  match <- fopen env (bytes "/sys/fs/cgroup/cpuacct/cpuacct.usage") with
  | none => crash
  | some (_, f) =>
      setSaved (fun saved => { saved with usageAt := readAt })
      match fgets 1024 f with
      | none => return -1
      | some (t, _) =>
          let c := (cString t).takeWhile (fun c => c != newline && c != byte '\r')
          setSaved (fun saved => { saved with oldUsage := strtoull c })
          return 0

def readOldBlkio (env : Env) : Routine Int := do
  let readAt <- now
  let file <- fopen env (bytes "/sys/fs/cgroup/blkio/blkio.io_service_bytes")
  let saved <- savedValues
  let read := readFromBlkio (file.map Prod.snd) saved.oldRd saved.oldWr
  setSaved (fun saved =>
    { saved with oldRd := read.m, oldWr := read.n, blkioAt := readAt })
  match file, read.answer with
  | some (fd, _), none => do
      fclose fd
      arbitraryInt env
  | _, some r => return r
  | none, none => arbitraryInt env

def newList : Routine Unit :=
  fun w => some ((), { w with
    heap := Function.update w.heap w.fresh
      (some ⟨.blank, some w.fresh, some w.fresh⟩),
    fresh := w.fresh + 1, head := w.fresh })

/-- `display` follows the `prev` pointers from `G` and shows the groups that
have a task. -/
def display : Routine Unit :=
  fun w => (w.heap.backward w.head (w.fresh + 1) (w.heap.prevOf w.head)).map
    (fun nodes =>
    ((), { w with rows := (nodes.filterMap w.heap.itemOf).filter (fun group =>
    group.tasks != 0) }))

def newRecords : Routine Unit :=
  fun w => some ((), { w with visits := [], answers := [], rows := [] })

/-- `cgtop_main`. -/
def cgtopMain (env : Env) (outFd : Nat) : Routine Int := do
  newRecords
  if <- fdopen env outFd then
    let oldTime <- clockGettime env
    setSaved (fun saved => { saved with oldTime := oldTime })
    let _ <- readFromCpuacct env
    let _ <- readOldBlkio env
    newList
    let _ <- refresh env
    display
    fclose outFd
    return 0
  else return 0

end Cgtop
end Lepd
