import Lepd.Sysstat.Devices

/-!
# The counters that a round finds

The lines of `/proc/diskstats` or the files of `/sys` have counters under names.
The readers save them one after the other, in their order.
-/

namespace Lepd
namespace Sysstat

open Foundation

abbrev Entries : Type :=
  List (DevName × Counters)

/-- A sample has the numbers of a line; the line of a partition has no more than
four. -/
def Counters.Shows (counters : Counters) (s : IoStats) : Prop :=
  match counters with
  | .extended rdIos rdMerges rdSectors rdTicks wrIos wrMerges wrSectors wrTicks
      iosPgr totTicks rqTicks =>
      s.rdIos = rdIos ∧ s.rdMerges = rdMerges ∧ s.rdSectors = rdSectors ∧
        s.rdTicks.toNat = rdTicks.toNat % 2 ^ 32 ∧ s.wrIos = wrIos ∧
          s.wrMerges = wrMerges ∧
        s.wrSectors = wrSectors ∧ s.wrTicks = wrTicks ∧ s.iosPgr = iosPgr ∧
          s.totTicks = totTicks ∧
        s.rqTicks = rqTicks
  | .short rdIos rdSectors wrIos wrSectors =>
      s.rdIos = rdIos ∧ s.rdSectors = rdSectors ∧ s.wrIos = wrIos ∧
        s.wrSectors = wrSectors
  | .unknown => True

theorem fill_shows (sdev : IoStats) (counters : Counters) :
    counters.Shows (counters.fill sdev) := by
  cases counters with
  | extended rdIos rdMerges rdSectors rdTicks =>
      exact ⟨rfl, rfl, rfl, UInt64.toNat_toUInt32 rdTicks, rfl, rfl, rfl, rfl,
        rfl, rfl, rfl⟩
  | short => exact ⟨rfl, rfl, rfl, rfl⟩
  | unknown => trivial

section Sources

variable (setup : Setup) (sys : System)

def lineEntries (lines : List DiskLine) : Entries :=
  (lines.filter (fun line => Wanted setup sys line)).map (fun line =>
    (lineName setup sys line, line.counters))

/-- A `stat` file; other counters than the extended ones do not go with an
extended report. -/
def fileEntries (devName : DevName) : Option Counters -> Entries
  | none => []
  | some (.extended rdIos rdMerges rdSectors rdTicks wrIos wrMerges wrSectors
      wrTicks iosPgr totTicks rqTicks) =>
      [(devName, .extended rdIos rdMerges rdSectors rdTicks wrIos wrMerges
        wrSectors wrTicks iosPgr totTicks rqTicks)]
  | some counters => if .extended ∈ setup.flags then [] else [(devName, counters)]

def partEntries (dev : DevName) : Entries :=
  ((sys.partitions dev).getD []).flatMap (fun part =>
    fileEntries setup part (sys.stat dev (some part)))

def deviceEntries (dispPart : Bool) (dev : DevName) : Entries :=
  fileEntries setup dev (sys.stat dev none) ++
    (if (sys.stat dev none).isSome && dispPart then partEntries setup sys dev
    else [])

def listEntries : Entries :=
  setup.devList.flatMap (fun d => deviceEntries setup sys d.dispPart d.devName.bang)

def blockEntries : Entries :=
  (sys.block.getD []).flatMap (deviceEntries setup sys
    (decide (.partAll ∈ setup.flags)))

def entriesIn : Option Entries :=
  if setup.devList ≠ [] then
    if .hasDiskstats ∈ setup.flags ∧ .partitions ∉ setup.flags then
      sys.diskstats.map (lineEntries setup sys)
    else if .hasSysfs ∈ setup.flags then some (listEntries setup sys)
    else none
  else if .hasDiskstats ∈ setup.flags then sys.diskstats.map (lineEntries setup sys)
  else if .hasSysfs ∈ setup.flags then some (blockEntries setup sys)
  else none

end Sources

def lastCounters (name : Text) (entries : Entries) : Option Counters :=
  (entries.filter (fun e => e.1.text = name)).getLast?.map Prod.snd

/-!
# Samples
-/

abbrev Samples : Type :=
  List (DevName × IoStats)

def snoc (name : DevName) (stIo : IoStats) (samples : Samples) : Samples :=
  samples ++ [(name, stIo)]

def names (samples : Samples) : List Text :=
  samples.map (fun s => s.1.text)

def lastSample (name : Text) (samples : Samples) : Option IoStats :=
  (samples.filter (fun s => s.1.text = name)).getLast?.map Prod.snd

theorem lastSample_self (name : DevName) (stIo : IoStats) (samples : Samples) :
    lastSample name.text (samples ++ [(name, stIo)]) = some stIo := by
  unfold lastSample
  rw [List.filter_append, List.filter_cons_of_pos (by simp), List.filter_nil,
    List.getLast?_concat]
  rfl

theorem lastSample_other {name : Text} {other : DevName} (h : name ≠ other.text)
    (stIo : IoStats) (samples : Samples) :
    lastSample name (samples ++ [(other, stIo)]) = lastSample name samples := by
  unfold lastSample
  rw [List.filter_append, List.filter_cons_of_neg (by simpa using Ne.symm h),
    List.filter_nil, List.append_nil]

theorem mem_names_concat {name : Text} {other : DevName} {stIo : IoStats}
    {samples : Samples} :
    name ∈ names (samples ++ [(other, stIo)]) <-> name ∈ names samples ∨
      name = other.text := by
  unfold names
  rw [List.map_append, List.mem_append]
  exact or_congr_right List.mem_singleton

def Show (samples : Samples) (entries : Entries) : Prop :=
  List.Forall₂ (fun s e => s.1 = e.1 ∧ e.2.Shows s.2) samples entries

theorem Show.names {samples : Samples} {entries : Entries}
    (h : Show samples entries) :
    names samples = entries.map (fun e => e.1.text) := by
  induction h with
  | nil => rfl
  | cons hshow _ ih =>
      rw [Sysstat.names, List.map_cons, List.map_cons, hshow.left, ← ih]
      rfl

theorem Show.filter {samples : Samples} {entries : Entries}
    (h : Show samples entries) (name : Text) :
    Show (samples.filter (fun s => s.1.text = name))
      (entries.filter (fun e => e.1.text = name)) := by
  induction h with
  | nil => exact .nil
  | @cons s e _ _ hshow _ ih =>
      by_cases hname : e.1.text = name
      · rw [List.filter_cons_of_pos (by simpa [hshow.left] using hname),
          List.filter_cons_of_pos (by simpa using hname)]
        exact .cons hshow ih
      · rw [List.filter_cons_of_neg (by simpa [hshow.left] using hname),
          List.filter_cons_of_neg (by simpa using hname)]
        exact ih

theorem Show.last {samples : Samples} {entries : Entries}
    (h : Show samples entries) {name : Text} {s : IoStats}
    (hlast : lastSample name samples = some s) :
    exists counters, lastCounters name entries = some counters ∧
      counters.Shows s := by
  have hreverse := List.rel_reverse (h.filter name)
  unfold lastSample at hlast
  unfold lastCounters
  rw [List.getLast?_eq_head?_reverse] at hlast ⊢
  generalize (samples.filter _).reverse = found at hlast hreverse
  generalize (entries.filter _).reverse = foundEntries at hreverse
  cases hreverse with
  | nil => cases hlast
  | cons hshow _ =>
      cases hlast
      exact ⟨_, rfl, hshow.right⟩

/-!
# Readers

Each reader saves what it finds, one after the other, whatever saving is.
-/

structure Lists (reader : forall c : Type, (DevName -> IoStats -> c -> c) ->
    c -> c) (entries : Entries) : Prop where
  saves : forall (c : Type) (save : DevName -> IoStats -> c -> c) (s : c),
    reader c save s = (reader Samples snoc []).foldl (fun s x => save x.1 x.2 s) s
  shows : Show (reader Samples snoc []) entries

theorem foldl_snoc (samples more : Samples) :
    more.foldl (fun s x => snoc x.1 x.2 s) samples = samples ++ more := by
  induction more generalizing samples with
  | nil => exact (List.append_nil _).symm
  | cons x more ih =>
      rw [List.foldl_cons, ih]
      unfold snoc
      rw [List.append_assoc]
      rfl

section Lists

variable {reader reader' : forall c : Type, (DevName -> IoStats -> c -> c) ->
  c -> c} {entries entries' : Entries}

theorem lists_nothing : Lists (fun _ _ s => s) [] where
  saves _ _ _ := rfl
  shows := .nil

theorem lists_one (name : DevName) (sdev : IoStats) (counters : Counters) :
    Lists (fun _ save s => save name (counters.fill sdev) s)
      [(name, counters)] where
  saves _ _ _ := rfl
  shows := .cons ⟨rfl, fill_shows sdev counters⟩ .nil

theorem Lists.behind (h : Lists reader entries) (h' : Lists reader' entries') :
    Lists (fun c save s => reader' c save (reader c save s))
      (entries ++ entries') where
  saves c save s := by
    show reader' c save (reader c save s) =
      (reader' Samples snoc (reader Samples snoc [])).foldl _ s
    rw [h'.saves, h.saves, h'.saves Samples snoc (reader Samples snoc []),
      foldl_snoc, List.foldl_append]
  shows := by
    rw [h'.saves Samples snoc (reader Samples snoc []), foldl_snoc]
    exact List.rel_append h.shows h'.shows

theorem lists_foldl {item : Type} {read : item -> forall c : Type,
    (DevName -> IoStats -> c -> c) -> c -> c}
    {entries : item -> Entries} (h : forall i, Lists (read i) (entries i))
    (items : List item) :
    Lists (fun c save s => items.foldl (fun s i => read i c save s) s)
      (items.flatMap entries) := by
  induction items with
  | nil => exact lists_nothing
  | cons i items ih => exact (h i).behind ih

theorem lists_ite {p : Prop} [Decidable p] (h : Lists reader entries)
    (h' : Lists reader' entries') :
    Lists (fun c save s => if p then reader c save s else reader' c save s)
      (if p then entries else entries') := by
  split
  · exact h
  · exact h'

end Lists

variable {setup : Setup} {sys : System}

theorem lists_readDiskLines (lines : List DiskLine) : forall (sdev : IoStats),
    Lists (fun _ save s => readDiskLines setup sys save sdev lines s)
      (lineEntries setup sys lines) := by
  induction lines with
  | nil => exact fun _ => lists_nothing
  | cons line lines ih =>
      intro sdev
      unfold lineEntries
      by_cases hwanted : Wanted setup sys line
      · have hboth :=
          (lists_one (lineName setup sys line) sdev line.counters).behind
            (ih (line.counters.fill sdev))
        rw [List.filter_cons_of_pos (by simpa using hwanted)]
        simp only [readDiskLines, if_pos hwanted]
        exact hboth
      · rw [List.filter_cons_of_neg (by simpa using hwanted)]
        simp only [readDiskLines, if_neg hwanted]
        exact ih sdev

theorem lists_readCounters (devName : DevName) (counters : Counters) :
    Lists (fun _ save s => readCounters setup sys save devName counters s)
      (fileEntries setup devName (some counters)) := by
  cases counters with
  | extended => exact lists_one _ sys.stack (.extended ..)
  | short rdIos rdSectors wrIos wrSectors =>
      exact lists_ite lists_nothing (lists_one _ sys.stack
        (.short rdIos rdSectors wrIos wrSectors))
  | unknown => exact lists_ite lists_nothing (lists_one _ sys.stack .unknown)

theorem lists_readSysfsFileStat (dev : DevName) (part : Option DevName)
    (devName : DevName) :
    Lists (fun _ save s => (readSysfsFileStat setup sys save dev part devName s).2)
      (fileEntries setup devName (sys.stat dev part)) := by
  unfold readSysfsFileStat
  cases sys.stat dev part with
  | none => exact lists_nothing
  | some counters => exact lists_readCounters devName counters

theorem lists_readSysfsDlistPartStat (dev : DevName) :
    Lists (fun _ save s => readSysfsDlistPartStat setup sys save dev s)
      (partEntries setup sys dev) := by
  unfold readSysfsDlistPartStat partEntries
  cases sys.partitions dev with
  | none => exact lists_nothing
  | some parts =>
      exact lists_foldl (fun part =>
      lists_readSysfsFileStat dev (some part) part) parts

theorem lists_readDevice (dispPart : Bool) (dev : DevName) :
    Lists (fun _ save s => readDevice setup sys save dispPart dev s)
      (deviceEntries setup sys dispPart dev) := by
  unfold readDevice readSysfsFileStat deviceEntries
  cases sys.stat dev none with
  | none => exact lists_nothing
  | some counters =>
      have hdevice : Lists (fun _ save s =>
        readCounters setup sys save dev counters s) _ :=
        lists_readCounters dev counters
      cases dispPart with
      | false => exact hdevice.behind lists_nothing
      | true => exact hdevice.behind (lists_readSysfsDlistPartStat dev)

theorem lists_readList : Lists (fun _ save s => readList setup sys save s)
    (listEntries setup sys) := by
  unfold readList listEntries
  apply lists_foldl
  intro d
  exact lists_readDevice d.dispPart d.devName.bang

theorem lists_readBlock : Lists (fun _ save s => readBlock setup sys save s)
    (blockEntries setup sys) := by
  unfold readBlock blockEntries
  cases sys.block with
  | none => exact lists_nothing
  | some names => exact lists_foldl (lists_readDevice _) names

end Sysstat
end Lepd
