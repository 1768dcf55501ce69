import Lepd.Foundation.Runs
import Lepd.Foundation.Slots
import Lepd.Sysstat.Iostat

/-!
# The devices of iostat

The main loop of iostat reads the counters of all devices once a round, from
`/proc/diskstats` or from `/sys`. The table of devices is allocated once and has
two samples for each of them, and `curr` tells which one is that of this round.
-/

namespace Lepd
namespace Sysstat

open Foundation

/-- `struct io_stats` -/
structure IoStats where
  rdSectors : UInt64
  wrSectors : UInt64
  rdIos : UInt64
  rdMerges : UInt64
  wrIos : UInt64
  wrMerges : UInt64
  rdTicks : UInt32
  wrTicks : UInt32
  iosPgr : UInt32
  totTicks : UInt32
  rqTicks : UInt32
deriving DecidableEq

/-- A `struct io_stats` after `memset`. -/
def IoStats.zero : IoStats :=
  ⟨0, 0, 0, 0, 0, 0, 0, 0, 0, 0, 0⟩

def IoStats.add (a b : IoStats) : IoStats :=
  ⟨a.rdSectors + b.rdSectors, a.wrSectors + b.wrSectors, a.rdIos + b.rdIos,
    a.rdMerges + b.rdMerges,
    a.wrIos + b.wrIos, a.wrMerges + b.wrMerges, a.rdTicks + b.rdTicks,
      a.wrTicks + b.wrTicks,
    a.iosPgr + b.iosPgr, a.totTicks + b.totTicks, a.rqTicks + b.rqTicks⟩

inductive Status where
  | unregistered
  | registered
  | group
deriving DecidableEq

/-- The name of a device, as it fits `dev_name[MAX_NAME_LEN]`. -/
structure DevName where
  text : Text
  nonempty : text ≠ []
  short : text.length < maxNameLen
deriving DecidableEq

/-- A `struct io_hdr_stats`, with the two `struct io_stats` of the same index. -/
structure Device where
  status : Status
  used : Nat
  name : Text
  sample : Bool -> IoStats

def Device.fresh : Device :=
  ⟨.unregistered, 0, [], fun _ => .zero⟩

def sallocDevice (devNr : Nat) : List Device :=
  List.replicate devNr .fresh

def setEntriesUnregistered (table : List Device) : List Device :=
  table.map (fun d => if d.status = .registered then
    { d with status := .unregistered } else d)

def freeUnregisteredEntries (table : List Device) : List Device :=
  table.map (fun d => if d.status = .unregistered then { d with used := 0 } else d)

/-- The end of `save_stats`, once there is an entry. -/
def Device.store (curr : Bool) (stIo : IoStats) (d : Device) : Device :=
  { d with
    status := if d.status = .unregistered then .registered else d.status
    sample := Function.update d.sample curr stIo }

def Device.adopt (curr : Bool) (name : Text) (d : Device) : Device :=
  { d with used := 1, name := name.take (maxNameLen - 1),
           sample := Function.update d.sample (!curr) .zero }

/-- Save stats for a device; nothing is saved if it is new and no entry is
unused. -/
def saveStats (curr : Bool) (name : Text) (stIo : IoStats)
    (table : List Device) : List Device :=
  match Slots.changeFirst (fun d => d.name = name) (Device.store curr stIo)
    table with
  | some table => table
  | none =>
      match Slots.changeFirst (fun d => d.used = 0) (fun d =>
        (d.adopt curr name).store curr stIo) table with
      | some table => table
      | none => table

/-!
# What is read
-/

/-- What `sscanf` finds in a line of `/proc/diskstats`, or in a `stat` file of
`/sys` behind the name. -/
inductive Counters where
  | extended (rdIos rdMerges rdSectors rdTicks wrIos wrMerges wrSectors :
      UInt64) (wrTicks iosPgr totTicks rqTicks : UInt32)
  /-- A partition without extended statistics. -/
  | short (rdIos rdSectors wrIos wrSectors : UInt64)
  | unknown

/-- The fields that the counters fill, of a structure with something in it. -/
def Counters.fill (sdev : IoStats) : Counters -> IoStats
  | .extended rdIos rdMerges rdSectors rdTicks wrIos wrMerges wrSectors wrTicks
      iosPgr totTicks rqTicks =>
      ⟨rdSectors, wrSectors, rdIos, rdMerges, wrIos, wrMerges, rdTicks.toUInt32,
        wrTicks, iosPgr, totTicks, rqTicks⟩
  | .short rdIos rdSectors wrIos wrSectors =>
      { sdev with rdIos := rdIos, rdSectors := rdSectors, wrIos := wrIos,
                  wrSectors := wrSectors }
  | .unknown => sdev

structure DiskLine where
  major : UInt32
  minor : UInt32
  devName : DevName
  counters : Counters

/-- The system, at the time of one round. -/
structure System where
  /-- The lines of `/proc/diskstats`, if it can be opened. -/
  diskstats : Option (List DiskLine)
  /-- The entries of `/sys/block`. -/
  block : Option (List DevName)
  /-- The entries of the directory of a device. -/
  partitions : DevName -> Option (List DevName)
  /-- The `stat` file of a device, or of an entry in its directory. -/
  stat : DevName -> Option DevName -> Option Counters
  isDevice : DevName -> Bool
  iocName : UInt32 -> UInt32 -> Option DevName
  transformDevmapname : UInt32 -> UInt32 -> Option DevName
  /-- What is in the variable `sdev` before it is set. -/
  stack : IoStats

structure Dlist where
  devName : DevName
  dispPart : Bool

structure Setup where
  flags : Finset Flag
  /-- The first `dlist_idx_iostat` entries of the device list. -/
  devList : List Dlist
  groupNr : Nat
  dmMajor : UInt32

abbrev kNodev : Text := [110, 111, 100, 101, 118]

def DevName.bang (name : DevName) : DevName where
  text := name.text.map (fun c => if c = 47 then 33 else c)
  nonempty := fun h => name.nonempty (List.map_eq_nil_iff.mp h)
  short := by
    rw [List.length_map]
    exact name.short

section Readers

variable {collection : Type} (setup : Setup) (sys : System) (save : DevName ->
  IoStats -> collection -> collection)

def lineName (line : DiskLine) : DevName :=
  let name := match sys.iocName line.major line.minor with
    | none => line.devName
    | some iocDname =>
        if line.devName ≠ iocDname ∧ iocDname.text ≠ kNodev then iocDname
        else line.devName
  if .devmapName ∈ setup.flags ∧ line.major = setup.dmMajor then
    (sys.transformDevmapname line.major line.minor).getD name
  else name

def Wanted (line : DiskLine) : Prop :=
  match line.counters with
  | .extended .. =>
      ¬ (setup.devList = [] ∧ .partitions ∉ setup.flags ∧
      sys.isDevice line.devName = false)
  | .short .. =>
      ¬ (.extended ∈ setup.flags ∨ (setup.devList = [] ∧ .partitions ∉ setup.flags))
  | .unknown => False

instance (line : DiskLine) : Decidable (Wanted setup sys line) := by
  unfold Wanted
  split <;> infer_instance

/-- The loop over the lines of `/proc/diskstats`; `sdev` is kept from one line
to the next. -/
def readDiskLines : IoStats -> List DiskLine -> collection -> collection
  | _, [], c => c
  | sdev, line :: lines, c =>
      if Wanted setup sys line then
        readDiskLines (line.counters.fill sdev) lines
          (save (lineName setup sys line) (line.counters.fill sdev) c)
      else readDiskLines sdev lines c

def readCounters (devName : DevName) (counters : Counters) (c : collection) :
    collection :=
  match counters with
  | .extended .. => save devName (counters.fill sys.stack) c
  | _ => if .extended ∈ setup.flags then c
      else save devName (counters.fill sys.stack) c

/-- Read sysfs stat for a device or for an entry in its directory; 0 if the file
couldn't be opened. -/
def readSysfsFileStat (dev : DevName) (part : Option DevName)
    (devName : DevName) (c : collection) : Bool × collection :=
  match sys.stat dev part with
  | none => (false, c)
  | some counters => (true, readCounters setup sys save devName counters c)

def readSysfsDlistPartStat (dev : DevName) (c : collection) : collection :=
  match sys.partitions dev with
  | none => c
  | some parts =>
      parts.foldl (fun c part =>
      (readSysfsFileStat setup sys save dev (some part) part c).2) c

def readDevice (dispPart : Bool) (dev : DevName) (c : collection) : collection :=
  let r := readSysfsFileStat setup sys save dev none dev c
  if r.1 && dispPart then readSysfsDlistPartStat setup sys save dev r.2 else r.2

def readList (c : collection) : collection :=
  setup.devList.foldl (fun c d => readDevice setup sys save d.dispPart
    d.devName.bang c) c

def readBlock (c : collection) : collection :=
  match sys.block with
  | none => c
  | some names =>
      names.foldl (fun c dev => readDevice setup sys save
      (decide (.partAll ∈ setup.flags)) dev c) c

end Readers

def saveName (curr : Bool) (name : DevName) (stIo : IoStats)
    (table : List Device) : List Device :=
  saveStats curr name.text stIo table

def readDiskstatsStat (setup : Setup) (sys : System) (curr : Bool)
    (table : List Device) : List Device :=
  match sys.diskstats with
  | none => setEntriesUnregistered table
  | some lines =>
      freeUnregisteredEntries (readDiskLines setup sys (saveName curr) sys.stack
        lines (setEntriesUnregistered table))

/-- Read stats from the sysfs filesystem for the devices entered on the command
line. -/
def readSysfsDlistStat (setup : Setup) (sys : System) (curr : Bool)
    (table : List Device) : List Device :=
  freeUnregisteredEntries (readList setup sys (saveName curr)
    (setEntriesUnregistered table))

def readSysfsStat (setup : Setup) (sys : System) (curr : Bool)
    (table : List Device) : List Device :=
  freeUnregisteredEntries (readBlock setup sys (saveName curr)
    (setEntriesUnregistered table))

def readStats (setup : Setup) (sys : System) (curr : Bool)
    (table : List Device) : List Device :=
  if setup.devList ≠ [] then
    if .hasDiskstats ∈ setup.flags ∧ .partitions ∉ setup.flags then
      readDiskstatsStat setup sys curr table
    else if .hasSysfs ∈ setup.flags then readSysfsDlistStat setup sys curr table
    else table
  else if .hasDiskstats ∈ setup.flags then readDiskstatsStat setup sys curr table
  else if .hasSysfs ∈ setup.flags then readSysfsStat setup sys curr table
  else table

/-- The loop of `compute_device_groups_stats` over `n` entries from the `i`-th
on. -/
def groupsFrom (setup : Setup) (curr : Bool) : Nat -> Nat -> IoStats -> Nat ->
    List Device -> List Device
  | 0, _, _, _, table => table
  | n + 1, i, gdev, nrDisks, table =>
      match table[i]? with
      | none => table
      | some shi =>
          if shi.used ≠ 0 ∧ shi.status = .registered then
            let ioi := shi.sample curr
            if .unfiltered ∉ setup.flags ∧ ioi.rdIos = 0 ∧ ioi.wrIos = 0 then
              groupsFrom setup curr n (i + 1) gdev nrDisks table
            else groupsFrom setup curr n (i + 1) (gdev.add ioi) (nrDisks + 1) table
          else if shi.status = .group then
            groupsFrom setup curr n (i + 1) .zero 0
              ((saveStats curr shi.name gdev table).modify i (fun d =>
                { d with used := nrDisks }))
          else groupsFrom setup curr n (i + 1) gdev nrDisks table

/-- Compute stats for device groups using stats of every device belonging to
each of these groups. -/
def computeDeviceGroupsStats (setup : Setup) (curr : Bool)
    (table : List Device) : List Device :=
  groupsFrom setup curr table.length 0 .zero 0 table

/-!
# What is written
-/

/-- A line of the report: the name, and the current and the previous sample that
it is computed from. -/
structure Row where
  name : Text
  ioi : IoStats
  ioj : IoStats
deriving DecidableEq

def Device.row (setup : Setup) (curr : Bool) (d : Device) : Option Row :=
  if d.used = 0 then none
  else if setup.devList ≠ [] ∧ .hasSysfs ∉ setup.flags ∧
    ¬ setup.devList.any (fun e => e.devName.text = d.name) then none
  else
    let ioi := d.sample curr
    let ioj := d.sample (!curr)
    if .unfiltered ∉ setup.flags ∧ ioi.rdIos = 0 ∧ ioi.wrIos = 0 then none
    else if .zeroOmit ∈ setup.flags ∧ ioi.rdIos = ioj.rdIos ∧
      ioi.wrIos = ioj.wrIos then none
    else if .groupTotalOnly ∈ setup.flags ∧ d.status ≠ .group then none
    else some ⟨d.name, ioi, ioj⟩

def writeStats (setup : Setup) (curr : Bool) (table : List Device) : List Row :=
  if .disk ∈ setup.flags then table.filterMap (Device.row setup curr) else []

/-- A round, from the first counter that is read to the groups. -/
def round (setup : Setup) (curr : Bool) (sys : System) (table : List Device) :
    List Device :=
  if 0 < setup.groupNr then computeDeviceGroupsStats setup curr
    (readStats setup sys curr table)
  else readStats setup sys curr table

/-- `rw_io_stat_loop`, for as many rounds as there are systems: the reports. -/
def rwIoStatLoop (setup : Setup) : List System -> Bool -> Int -> Bool ->
    List Device -> List (List Row)
  | [], _, _, _, _ => []
  | sys :: systems, curr, count, skip, table =>
      let table := round setup curr sys table
      let reports := if skip then [] else [writeStats setup curr table]
      let count := if !skip && decide (0 < count) then count - 1 else count
      if count ≠ 0 then reports ++ rwIoStatLoop setup systems
        (!curr) count false table else reports

end Sysstat
end Lepd
