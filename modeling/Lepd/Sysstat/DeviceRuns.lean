import Lepd.Sysstat.DeviceEntries

/-!
# Rounds of iostat

What the table of devices holds after any number of rounds.
-/

namespace Lepd
namespace Sysstat

open Foundation

variable {setup : Setup} {sys : System}

/-- The samples that a round reads, in their order, if it can read any. -/
def samplesIn (setup : Setup) (sys : System) : Option Samples :=
  if setup.devList ≠ [] then
    if .hasDiskstats ∈ setup.flags ∧ .partitions ∉ setup.flags then
      sys.diskstats.map (fun lines =>
        readDiskLines setup sys snoc sys.stack lines [])
    else if .hasSysfs ∈ setup.flags then some (readList setup sys snoc [])
    else none
  else if .hasDiskstats ∈ setup.flags then
    sys.diskstats.map (fun lines => readDiskLines setup sys snoc sys.stack lines [])
  else if .hasSysfs ∈ setup.flags then some (readBlock setup sys snoc [])
  else none

theorem samplesIn_shows {entries : Entries}
    (h : entriesIn setup sys = some entries) :
    exists samples, samplesIn setup sys = some samples ∧ Show samples entries := by
  have hlines : sys.diskstats.map (lineEntries setup sys) = some entries ->
      exists samples, sys.diskstats.map (fun lines =>
        readDiskLines setup sys snoc sys.stack lines []) =
        some samples ∧ Show samples entries := by
    intro hfound
    rcases Option.map_eq_some_iff.mp hfound with ⟨lines, hfile, rfl⟩
    rw [hfile]
    exact ⟨_, rfl, (lists_readDiskLines lines sys.stack).shows⟩
  unfold entriesIn at h
  unfold samplesIn
  split
  · next hlist =>
      rw [if_pos hlist] at h
      split
      · next hproc =>
          rw [if_pos hproc] at h
          exact hlines h
      · next hproc =>
          rw [if_neg hproc] at h
          split
          · next hsysfs =>
              rw [if_pos hsysfs] at h
              cases h
              exact ⟨_, rfl, lists_readList.shows⟩
          · next hsysfs =>
              rw [if_neg hsysfs] at h
              cases h
  · next hlist =>
      rw [if_neg hlist] at h
      split
      · next hproc =>
          rw [if_pos hproc] at h
          exact hlines h
      · next hproc =>
          rw [if_neg hproc] at h
          split
          · next hsysfs =>
              rw [if_pos hsysfs] at h
              cases h
              exact ⟨_, rfl, lists_readBlock.shows⟩
          · next hsysfs =>
              rw [if_neg hsysfs] at h
              cases h

def saveAll (curr : Bool) (samples : Samples) (table : List Device) : List Device :=
  samples.foldl (fun table x => saveName curr x.1 x.2 table) table

/-- A round that can read anything is one of saving between the two loops over
the status. -/
theorem readStats_eq {samples : Samples}
    (h : samplesIn setup sys = some samples) (curr : Bool) (table : List Device) :
    readStats setup sys curr table = freeUnregisteredEntries
      (saveAll curr samples (setEntriesUnregistered table)) := by
  have hdiskstats : sys.diskstats.map (fun lines =>
    readDiskLines setup sys snoc sys.stack lines []) = some samples ->
      readDiskstatsStat setup sys curr table =
        freeUnregisteredEntries (saveAll curr samples
          (setEntriesUnregistered table)) := by
    intro hlines
    rcases Option.map_eq_some_iff.mp hlines with ⟨lines, hfile, rfl⟩
    unfold readDiskstatsStat
    rw [hfile]
    exact congrArg freeUnregisteredEntries
      ((lists_readDiskLines lines sys.stack).saves _ _ _)
  unfold samplesIn at h
  unfold readStats
  split
  · next hlist =>
      rw [if_pos hlist] at h
      split
      · next hproc =>
          rw [if_pos hproc] at h
          exact hdiskstats h
      · next hproc =>
          rw [if_neg hproc] at h
          split
          · next hsysfs =>
              rw [if_pos hsysfs] at h
              cases h
              exact congrArg freeUnregisteredEntries (lists_readList.saves _ _ _)
          · next hsysfs =>
              rw [if_neg hsysfs] at h
              cases h
  · next hlist =>
      rw [if_neg hlist] at h
      split
      · next hproc =>
          rw [if_pos hproc] at h
          exact hdiskstats h
      · next hproc =>
          rw [if_neg hproc] at h
          split
          · next hsysfs =>
              rw [if_pos hsysfs] at h
              cases h
              exact congrArg freeUnregisteredEntries (lists_readBlock.saves _ _ _)
          · next hsysfs =>
              rw [if_neg hsysfs] at h
              cases h

/-!
# One device
-/

namespace Device

@[simp] theorem store_name (d : Device) (curr : Bool) (stIo : IoStats) :
    (d.store curr stIo).name = d.name := rfl

@[simp] theorem store_used (d : Device) (curr : Bool) (stIo : IoStats) :
    (d.store curr stIo).used = d.used := rfl

@[simp] theorem store_curr (d : Device) (curr : Bool) (stIo : IoStats) :
    (d.store curr stIo).sample curr = stIo := by
  unfold store
  exact Function.update_self ..

@[simp] theorem store_other (d : Device) (curr : Bool) (stIo : IoStats) :
    (d.store curr stIo).sample (!curr) = d.sample (!curr) := by
  unfold store
  exact Function.update_of_ne (Bool.not_ne_self curr) ..

theorem store_status {d : Device} (h : d.status ≠ .group) (curr : Bool)
    (stIo : IoStats) :
    (d.store curr stIo).status = .registered := by
  unfold store
  cases hstatus : d.status with
  | unregistered => rfl
  | registered => rfl
  | group => exact absurd hstatus h

@[simp] theorem adopt_name (d : Device) (curr : Bool) (name : DevName) :
    (d.adopt curr name.text).name = name.text :=
  List.take_of_length_le (Nat.le_sub_one_of_lt name.short)

@[simp] theorem adopt_used (d : Device) (curr : Bool) (name : Text) :
    (d.adopt curr name).used = 1 := rfl

@[simp] theorem adopt_status (d : Device) (curr : Bool) (name : Text) :
    (d.adopt curr name).status = d.status := rfl

@[simp] theorem adopt_other (d : Device) (curr : Bool) (name : Text) :
    (d.adopt curr name).sample (!curr) = .zero := by
  unfold adopt
  exact Function.update_self ..

end Device

/-- The three ways of saving: in the entry of the device, in one that is not
used, or nowhere. -/
theorem saveName_cases (curr : Bool) (name : DevName) (stIo : IoStats)
    (table : List Device) :
    (exists front e back, table = front ++ e :: back ∧ e.name = name.text ∧
      saveName curr name stIo table = front ++ e.store curr stIo :: back) ∨
    (forall e, e ∈ table -> e.name ≠ name.text) ∧
      ((exists front e back, table = front ++ e :: back ∧ e.used = 0 ∧
        saveName curr name stIo table = front ++
          (e.adopt curr name.text).store curr stIo :: back) ∨
      (forall e, e ∈ table -> e.used ≠ 0) ∧ saveName curr name stIo table =
        table) := by
  unfold saveName saveStats
  cases hknown : Slots.changeFirst (fun d => decide (d.name = name.text))
    (Device.store curr stIo) table with
  | some table' =>
      rcases Slots.changeFirst_eq_some hknown with
        ⟨front, e, back, htable, htable', he⟩
      exact Or.inl ⟨front, e, back, htable, of_decide_eq_true he, htable'⟩
  | none =>
      refine Or.inr ⟨fun e he => of_decide_eq_false
        (Slots.changeFirst_eq_none.mp hknown e he), ?_⟩
      dsimp only
      cases hunused : Slots.changeFirst (fun d => decide (d.used = 0))
          (fun d => (d.adopt curr name.text).store curr stIo) table with
      | some table' =>
          rcases Slots.changeFirst_eq_some hunused with
            ⟨front, e, back, htable, htable', he⟩
          exact Or.inl ⟨front, e, back, htable, of_decide_eq_true he, htable'⟩
      | none =>
          exact Or.inr ⟨fun e he => of_decide_eq_false
            (Slots.changeFirst_eq_none.mp hunused e he), rfl⟩

/-!
# One round
-/

/-- What every table has between the steps of a round, if there are no groups. -/
structure Sound (table : List Device) : Prop where
  distinct : Slots.Distinct Device.name [] table
  blank : forall e, e ∈ table -> e.name = [] -> e.used = 0
  devices : forall e, e ∈ table -> e.status ≠ .group

/-- The entry was in use for the same device before, with the sample that is the
previous one now. -/
def Continues (curr : Bool) (before : List Device) (e : Device) : Prop :=
  exists d, d ∈ before ∧ d.used ≠ 0 ∧ d.name = e.name ∧ e.sample (!curr) =
    d.sample (!curr)

/-- The entry was not in use for the device before, and the previous sample is
zero. -/
def Begins (curr : Bool) (before : List Device) (e : Device) : Prop :=
  (forall d, d ∈ before -> d.used ≠ 0 -> d.name ≠ e.name) ∧ e.sample (!curr) = .zero

/-- A table in the middle of a round, when some counters were saved. -/
structure Reading (curr : Bool) (before : List Device) (seen : Samples)
    (table : List Device) : Prop extends Sound table where
  registered : forall e, e ∈ table -> e.used ≠ 0 -> e.status = .registered ->
    lastSample e.name seen = some (e.sample curr) ∧
      (Continues curr before e ∨ Begins curr before e)
  unregistered : forall e, e ∈ table -> e.used ≠ 0 -> e.status = .unregistered ->
    e.name ∉ names seen ∧ Continues curr before e
  kept : forall d, d ∈ before -> d.used ≠ 0 -> exists e, e ∈ table ∧
    e.name = d.name ∧ e.used ≠ 0

section Round

variable {curr : Bool} {before table : List Device} {seen : Samples}

theorem Sound.sallocDevice (n : Nat) : Sound (sallocDevice n) where
  distinct := by
    unfold Slots.Distinct Sysstat.sallocDevice
    apply List.pairwise_replicate.mpr
    exact Or.inr (fun _ => rfl)
  blank := fun e he _ => by rw [List.eq_of_mem_replicate he]; rfl
  devices :=
    fun e he => by rw [List.eq_of_mem_replicate he]; exact fun h => (nomatch h)

/-- The status of an entry is set again, and nothing else but the mark that it
is used. -/
theorem Sound.map (h : Sound table) {f : Device -> Device}
    (hname : forall d, (f d).name = d.name)
    (hused : forall d, d.used = 0 -> (f d).used = 0)
    (hstatus : forall d, d.status ≠ .group -> (f d).status ≠ .group) :
    Sound (table.map f) where
  distinct := h.distinct.map hname
  blank := by
    intro e he hblank
    rcases List.mem_map.mp he with ⟨d, hd, rfl⟩
    exact hused d (h.blank d hd (hname d ▸ hblank))
  devices := by
    intro e he
    rcases List.mem_map.mp he with ⟨d, hd, rfl⟩
    exact hstatus d (h.devices d hd)

theorem Sound.change {front back : List Device} {e e' : Device}
    (h : Sound (front ++ e :: back))
    (hdistinct : Slots.Distinct Device.name [] (front ++ e' :: back))
    (hblank : e'.name = [] -> e'.used = 0)
    (hstatus : e'.status ≠ .group) : Sound (front ++ e' :: back) where
  distinct := hdistinct
  blank := by
    intro d hd
    rcases Slots.mem_changed.mp hd with rfl | hrest
    · exact hblank
    · exact h.blank d (Slots.mem_changed.mpr (Or.inr hrest))
  devices := by
    intro d hd
    rcases Slots.mem_changed.mp hd with rfl | hrest
    · exact hstatus
    · exact h.devices d (Slots.mem_changed.mpr (Or.inr hrest))

theorem setEntriesUnregistered_reading (h : Sound table) :
    Reading curr table [] (setEntriesUnregistered table) := by
  have hcopy : forall e, e ∈ setEntriesUnregistered table -> exists d,
      d ∈ table ∧ d.name = e.name ∧ d.used = e.used ∧
      d.sample = e.sample ∧ e.status = .unregistered := by
    intro e he
    rcases List.mem_map.mp he with ⟨d, hd, rfl⟩
    refine ⟨d, hd, ?_⟩
    split
    · exact ⟨rfl, rfl, rfl, rfl⟩
    · next hstatus =>
        refine ⟨rfl, rfl, rfl, ?_⟩
        cases hd' : d.status with
        | unregistered => rfl
        | registered => exact absurd hd' hstatus
        | group => exact absurd hd' (h.devices d hd)
  constructor
  · apply h.map
    · intro d
      split <;> rfl
    · intro d hd
      split <;> exact hd
    · intro d hd
      split
      · exact fun heq => (nomatch heq)
      · exact hd
  · intro e he _ hstatus
    rcases hcopy e he with ⟨_, _, _, _, _, hunregistered⟩
    rw [hunregistered] at hstatus
    cases hstatus
  · intro e he hused _
    rcases hcopy e he with ⟨d, hd, hname, hsame, hsample, _⟩
    exact ⟨List.not_mem_nil, d, hd, hsame ▸ hused, hname, by rw [hsample]⟩
  · intro d hd hused
    refine ⟨_, List.mem_map_of_mem hd, ?_, ?_⟩
    · split <;> rfl
    · split <;> exact hused

theorem Continues.of_same {e e' : Device} (h : Continues curr before e)
    (hname : e'.name = e.name)
    (hsample : e'.sample (!curr) = e.sample (!curr)) :
    Continues curr before e' := by
  rcases h with ⟨d, hd, hused, hdname, hdsample⟩
  exact ⟨d, hd, hused, hdname.trans hname.symm, hsample.trans hdsample⟩

theorem Begins.of_same {e e' : Device} (h : Begins curr before e)
    (hname : e'.name = e.name)
    (hsample : e'.sample (!curr) = e.sample (!curr)) : Begins curr before e' :=
  ⟨fun d hd hused => hname ▸ h.left d hd hused, hsample.trans h.right⟩

/-- What is known of an entry is not changed by counters of another device. -/
theorem Reading.other (h : Reading curr before seen table) {name : DevName}
    (stIo : IoStats) {e : Device} (he : e ∈ table)
    (hname : e.name ≠ name.text) (hused : e.used ≠ 0) :
    (e.status = .registered -> lastSample e.name (seen ++ [(name, stIo)]) =
    some (e.sample curr) ∧
      (Continues curr before e ∨ Begins curr before e)) ∧
    (e.status = .unregistered -> e.name ∉ names (seen ++ [(name, stIo)]) ∧
    Continues curr before e) := by
  constructor
  · intro hstatus
    rw [lastSample_other hname]
    exact h.registered e he hused hstatus
  · intro hstatus
    rcases h.unregistered e he hused hstatus with ⟨hunseen, hcontinues⟩
    refine ⟨?_, hcontinues⟩
    rw [mem_names_concat]
    exact fun hor => hor.elim hunseen hname

theorem Reading.saved {front back : List Device} {e e' : Device}
    (h : Reading curr before seen (front ++ e :: back))
    (hsound : Sound (front ++ e' :: back)) {name : DevName} {stIo : IoStats}
    (hname : e'.name = name.text)
    (hstatus : e'.status = .registered) (hcurr : e'.sample curr = stIo)
    (hbefore : e'.used ≠ 0 -> Continues curr before e' ∨ Begins curr before e')
    (hused : e.used ≠ 0 -> e'.used ≠ 0 ∧ e.name = e'.name) :
    Reading curr before (seen ++ [(name, stIo)]) (front ++ e' :: back) := by
  have hother : forall d, d ∈ front ++ back -> d ∈ front ++ e :: back ∧
      d.name ≠ name.text := by
    intro d hd
    refine ⟨Slots.mem_changed.mpr (Or.inr hd), ?_⟩
    rw [← hname]
    exact hsound.distinct.other (hname ▸ name.nonempty) hd
  constructor
  · exact hsound
  · intro d hd hdused hdstatus
    rcases Slots.mem_changed.mp hd with rfl | hrest
    · rw [hname, lastSample_self, hcurr]
      exact ⟨rfl, hbefore hdused⟩
    · rcases hother d hrest with ⟨hmem, hne⟩
      exact (h.other stIo hmem hne hdused).left hdstatus
  · intro d hd hdused hdstatus
    rcases Slots.mem_changed.mp hd with rfl | hrest
    · rw [hstatus] at hdstatus
      cases hdstatus
    · rcases hother d hrest with ⟨hmem, hne⟩
      exact (h.other stIo hmem hne hdused).right hdstatus
  · intro d hd hdused
    rcases h.kept d hd hdused with ⟨x, hx, hxname, hxused⟩
    rcases Slots.mem_changed.mp hx with rfl | hrest
    · exact ⟨e', Slots.mem_changed.mpr (Or.inl rfl),
        (hused hxused).right ▸ hxname, (hused hxused).left⟩
    · exact ⟨x, Slots.mem_changed.mpr (Or.inr hrest), hxname, hxused⟩

theorem Reading.save (h : Reading curr before seen table) (name : DevName)
    (stIo : IoStats) :
    Reading curr before (seen ++ [(name, stIo)])
      (saveName curr name stIo table) := by
  rcases saveName_cases curr name stIo table with
    ⟨front, e, back, rfl, hname, hsave⟩ |
    ⟨hnew, ⟨front, e, back, rfl, hunused, hsave⟩ | ⟨_, hsave⟩⟩
  · rw [hsave]
    have he : e ∈ front ++ e :: back :=
      List.mem_append_right front List.mem_cons_self
    have hstatus := Device.store_status (h.devices e he) curr stIo
    have hname' : (e.store curr stIo).name = name.text := hname
    apply h.saved _ hname' hstatus (Device.store_curr e curr stIo)
    · intro hused
      have hsample := Device.store_other e curr stIo
      cases hold : e.status with
      | unregistered =>
          exact Or.inl ((h.unregistered e he hused hold).right.of_same rfl hsample)
      | registered =>
          rcases (h.registered e he hused hold).right with hcontinues | hbegins
          · exact Or.inl (hcontinues.of_same rfl hsample)
          · exact Or.inr (hbegins.of_same rfl hsample)
      | group => exact absurd hold (h.devices e he)
    · exact fun hused => ⟨hused, rfl⟩
    · have hdistinct : Slots.Distinct Device.name []
          (front ++ e.store curr stIo :: back) := h.distinct.change rfl
      apply h.change hdistinct
      · exact fun hblank => h.blank e he hblank
      · rw [hstatus]
        exact fun heq => (nomatch heq)
  · rw [hsave]
    have he : e ∈ front ++ e :: back :=
      List.mem_append_right front List.mem_cons_self
    have hstatus : ((e.adopt curr name.text).store curr stIo).status =
        .registered :=
      Device.store_status (h.devices e he) curr stIo
    have hname : ((e.adopt curr name.text).store curr stIo).name = name.text :=
      Device.adopt_name e curr name
    apply h.saved _ hname hstatus (Device.store_curr _ curr stIo)
    · intro _
      refine Or.inr ⟨?_, ?_⟩
      · intro d hd hdused
        rcases h.kept d hd hdused with ⟨x, hx, hxname, _⟩
        rw [hname, ← hxname]
        exact hnew x hx
      · rw [Device.store_other, Device.adopt_other]
    · exact fun hused => absurd hunused hused
    · apply h.change
      · apply h.distinct.rekey
        intro d hd
        rw [hname]
        exact hnew d hd
      · intro hblank
        exact absurd (hname.symm.trans hblank) name.nonempty
      · rw [hstatus]
        exact fun heq => (nomatch heq)
  · rw [hsave]
    constructor
    · exact h.toSound
    · exact fun e he hused => (h.other stIo he (hnew e he) hused).left
    · exact fun e he hused => (h.other stIo he (hnew e he) hused).right
    · exact h.kept

theorem Reading.saveAll (h : Reading curr before seen table) (samples : Samples) :
    Reading curr before (seen ++ samples) (saveAll curr samples table) := by
  induction samples generalizing seen table with
  | nil =>
      rw [List.append_nil]
      exact h
  | cons x samples ih =>
      have hrest := ih (h.save x.1 x.2)
      rw [List.append_assoc] at hrest
      exact hrest

/-- A table after a round, with the counters that the round has found. -/
structure Read (curr : Bool) (before : List Device) (samples : Samples)
    (table : List Device) : Prop extends Sound table where
  last : forall e, e ∈ table -> e.used ≠ 0 -> lastSample e.name samples =
    some (e.sample curr)
  previous : forall e, e ∈ table -> e.used ≠ 0 -> Continues curr before e ∨
    Begins curr before e
  kept : forall d, d ∈ before -> d.used ≠ 0 -> d.name ∈ names samples ->
    exists e, e ∈ table ∧ e.name = d.name ∧ e.used ≠ 0

theorem Reading.free (h : Reading curr before seen table) :
    Read curr before seen (freeUnregisteredEntries table) := by
  have hcopy : forall e, e ∈ freeUnregisteredEntries table -> e.used ≠ 0 ->
      e ∈ table ∧ e.status = .registered := by
    intro e he hused
    rcases List.mem_map.mp he with ⟨d, hd, rfl⟩
    have hnot : d.status ≠ .unregistered := by
      intro hstatus
      rw [if_pos hstatus] at hused
      exact hused rfl
    rw [if_neg hnot]
    refine ⟨hd, ?_⟩
    cases hstatus : d.status with
    | unregistered => exact absurd hstatus hnot
    | registered => rfl
    | group => exact absurd hstatus (h.devices d hd)
  constructor
  · apply h.map
    · intro d
      split <;> rfl
    · intro d hd
      split
      · rfl
      · exact hd
    · intro d hd
      split <;> exact hd
  · intro e he hused
    rcases hcopy e he hused with ⟨hmem, hstatus⟩
    exact (h.registered e hmem hused hstatus).left
  · intro e he hused
    rcases hcopy e he hused with ⟨hmem, hstatus⟩
    exact (h.registered e hmem hused hstatus).right
  · intro d hd hused hseen
    rcases h.kept d hd hused with ⟨e, he, hname, heused⟩
    refine ⟨e, ?_, hname, heused⟩
    apply List.mem_map.mpr
    refine ⟨e, he, if_neg ?_⟩
    intro hstatus
    exact (h.unregistered e he heused hstatus).left (hname ▸ hseen)

theorem round_read {samples : Samples} (hgroups : setup.groupNr = 0)
    (hsamples : samplesIn setup sys = some samples)
    (h : Sound table) : Read curr table samples (round setup curr sys table) := by
  unfold round
  rw [if_neg (by omega), readStats_eq hsamples]
  exact ((setEntriesUnregistered_reading h).saveAll samples).free

end Round

/-!
# Runs
-/

/-- The source of a round can be read. -/
def Readable (setup : Setup) (sys : System) : Prop :=
  exists entries, entriesIn setup sys = some entries

/-- The names of the devices that a round finds. -/
def namesIn (setup : Setup) (sys : System) : List Text :=
  ((entriesIn setup sys).getD []).map (fun e => e.1.text)

/-- A sample has the numbers that a round found last under a name. -/
def FoundIn (setup : Setup) (sys : System) (name : Text) (stIo : IoStats) : Prop :=
  exists entries counters, entriesIn setup sys = some entries ∧
    lastCounters name entries = some counters ∧
    counters.Shows stIo

def countersIn (setup : Setup) (sys : System) : Samples :=
  (samplesIn setup sys).getD []

theorem Readable.samplesIn (h : Readable setup sys) :
    samplesIn setup sys = some (countersIn setup sys) := by
  rcases h with ⟨entries, hentries⟩
  rcases samplesIn_shows hentries with ⟨samples, hsamples, _⟩
  unfold countersIn
  rw [hsamples]
  rfl

theorem Readable.names (h : Readable setup sys) :
    names (countersIn setup sys) = namesIn setup sys := by
  rcases h with ⟨entries, hentries⟩
  rcases samplesIn_shows hentries with ⟨samples, hsamples, hshow⟩
  unfold countersIn namesIn
  rw [hsamples, hentries]
  exact hshow.names

theorem Readable.foundIn (h : Readable setup sys) {name : Text} {stIo : IoStats}
    (hlast : lastSample name (countersIn setup sys) = some stIo) :
    FoundIn setup sys name stIo := by
  rcases h with ⟨entries, hentries⟩
  rcases samplesIn_shows hentries with ⟨samples, hsamples, hshow⟩
  unfold countersIn at hlast
  rw [hsamples] at hlast
  rcases hshow.last hlast with ⟨counters, hcounters, hshows⟩
  exact ⟨entries, counters, hentries, hcounters, hshows⟩

/-- The names of the entries in use, which are all that a report can have. -/
def inUse (table : List Device) : List Text :=
  (table.filter (fun d => d.used ≠ 0)).map Device.name

theorem mem_inUse {name : Text} {table : List Device} :
    name ∈ inUse table <-> exists d, d ∈ table ∧ d.name = name ∧ d.used ≠ 0 := by
  unfold inUse
  rw [List.mem_map]
  constructor
  · rintro ⟨d, hd, hname⟩
    rcases List.mem_filter.mp hd with ⟨hmem, hused⟩
    exact ⟨d, hmem, hname, of_decide_eq_true hused⟩
  · rintro ⟨d, hd, hname, hused⟩
    exact ⟨d, List.mem_filter.mpr ⟨hd, decide_eq_true hused⟩, hname⟩

/-- A round, with `curr` on the state before it. -/
def Step (setup : Setup) (s : Bool × List Device) (sys : System)
    (t : Bool × List Device) : Prop :=
  t = (!s.1, round setup s.1 sys s.2)

/-- After a round, its counters are the samples of the devices in use. -/
def Sampled (setup : Setup) (past : List System) (s : Bool × List Device) : Prop :=
  Sound s.2 ∧ forall d, d ∈ s.2 -> d.used ≠ 0 ->
    exists sys, past.getLast? = some sys ∧
      lastSample d.name (countersIn setup sys) = some (d.sample (!s.1))

theorem sampled_round (hgroups : setup.groupNr = 0) {past : List System}
    {s t : Bool × List Device}
    (hread : Readable setup sys) (h : Sampled setup past s)
    (hstep : Step setup s sys t) :
    Sampled setup (past ++ [sys]) t := by
  have hround : Read s.1 s.2 (countersIn setup sys) (round setup s.1 sys s.2) :=
    round_read hgroups hread.samplesIn h.left
  rw [hstep]
  refine ⟨hround.toSound, ?_⟩
  intro d hd hused
  refine ⟨sys, List.getLast?_concat, ?_⟩
  rw [Bool.not_not]
  exact hround.last d hd hused

theorem sampled_run (hgroups : setup.groupNr = 0) {n : Nat} {past : List System}
    (hread : forall sys, sys ∈ past -> Readable setup sys)
    {s : Bool × List Device}
    (hrun : Runs (Step setup) (true, sallocDevice n) past s) :
    Sampled setup past s := by
  induction hrun with
  | nil =>
      refine ⟨Sound.sallocDevice n, ?_⟩
      intro d hd hused
      rw [List.eq_of_mem_replicate hd] at hused
      exact absurd rfl hused
  | snoc _ hstep ih =>
      apply sampled_round hgroups
        (hread _ (List.mem_append_right _ List.mem_cons_self)) _ hstep
      exact ih (fun sys hsys => hread sys (List.mem_append_left _ hsys))

def countLeft (count : Int) : Int :=
  if 0 < count then count - 1 else count

theorem rwIoStatLoop_skip (setup : Setup) (sys : System) (systems : List System)
    (curr : Bool) (count : Int)
    (table : List Device) :
    rwIoStatLoop setup (sys :: systems) curr count true table =
      if count ≠ 0 then rwIoStatLoop setup systems (!curr) count false
        (round setup curr sys table) else [] := by
  rw [rwIoStatLoop]
  rfl

theorem rwIoStatLoop_report (setup : Setup) (sys : System)
    (systems : List System) (curr : Bool) (count : Int)
    (table : List Device) :
    rwIoStatLoop setup (sys :: systems) curr count false table =
      writeStats setup curr (round setup curr sys table) ::
        if countLeft count ≠ 0 then
          rwIoStatLoop setup systems (!curr) (countLeft count) false
            (round setup curr sys table)
        else [] := by
  rw [rwIoStatLoop]
  have hcount : (if (!false && decide (0 < count)) = true then count - 1
    else count) = countLeft count := by
    rw [Bool.not_false, Bool.true_and, countLeft]
    simp only [decide_eq_true_eq]
  rw [hcount]
  split
  · rfl
  · rfl

theorem report_of_run {setup : Setup} (systems : List System) :
    forall (curr : Bool) (count : Int) (skip : Bool)
    (table : List Device) (k : Nat) (rows : List Row),
      (rwIoStatLoop setup systems curr count skip table)[k]? = some rows ->
      exists sys s, systems[k + skip.toNat]? = some sys ∧
        Runs (Step setup) (curr, table) (systems.take (k + skip.toNat)) s ∧
        rows = writeStats setup s.1 (round setup s.1 sys s.2) := by
  induction systems with
  | nil =>
      intro curr count skip table k rows h
      cases h
  | cons sys systems ih =>
      intro curr count skip table k rows h
      have hrest : forall (count' : Int) (k' : Nat),
          (if count' ≠ 0 then rwIoStatLoop setup systems (!curr) count' false
            (round setup curr sys table)
            else [])[k']? = some rows ->
          exists sys' s, (sys :: systems)[k' + 1]? = some sys' ∧
            Runs (Step setup) (curr, table) ((sys :: systems).take (k' + 1)) s ∧
            rows = writeStats setup s.1 (round setup s.1 sys' s.2) := by
        intro count' k' h'
        split at h'
        · rcases ih _ _ _ _ _ _ h' with ⟨sys', s, hsys, hrun, hreport⟩
          exact ⟨sys', s, hsys, .cons rfl hrun, hreport⟩
        · cases h'
      cases skip with
      | true =>
          rw [rwIoStatLoop_skip] at h
          exact hrest count k h
      | false =>
          rw [rwIoStatLoop_report] at h
          cases k with
          | zero => exact ⟨sys, (curr, table), rfl, .nil, (Option.some.inj h).symm⟩
          | succ k => exact hrest (countLeft count) k h

/-- There is a report for each round, but for one that is left out, or as many
as were asked for. -/
theorem reports_length {setup : Setup} (systems : List System) :
    forall (curr : Bool) (count : Int) (skip : Bool)
    (table : List Device), count ≠ 0 ->
      (rwIoStatLoop setup systems curr count skip table).length =
        if count < 0 then systems.length - skip.toNat
        else min count.toNat (systems.length - skip.toNat) := by
  induction systems with
  | nil =>
      intro curr count skip table _
      simp [rwIoStatLoop]
  | cons sys systems ih =>
      intro curr count skip table hcount
      cases skip with
      | true =>
          rw [rwIoStatLoop_skip, if_pos hcount, ih _ _ _ _ hcount]
          rfl
      | false =>
          rw [rwIoStatLoop_report, List.length_cons, List.length_cons,
            Bool.toNat_false, Nat.sub_zero]
          unfold countLeft
          by_cases hpositive : 0 < count
          · rw [if_pos hpositive, if_neg (show ¬ count < 0 by omega)]
            by_cases hlast : count - 1 = 0
            · rw [if_neg (not_not.mpr hlast), List.length_nil]
              omega
            · rw [if_pos hlast, ih _ _ _ _ hlast,
                if_neg (show ¬ count - 1 < 0 by omega), Bool.toNat_false]
              omega
          · have hnegative : count < 0 := by omega
            rw [if_neg hpositive, if_pos hcount, if_pos hnegative,
              ih _ _ _ _ hcount, if_pos hnegative,
              Bool.toNat_false]
            rfl

theorem row_eq_some {curr : Bool} {d : Device} {row : Row}
    (h : d.row setup curr = some row) :
    d.used ≠ 0 ∧ row = ⟨d.name, d.sample curr, d.sample (!curr)⟩ := by
  unfold Device.row at h
  by_cases hused : d.used = 0
  · rw [if_pos hused] at h
    cases h
  · refine ⟨hused, ?_⟩
    rw [if_neg hused] at h
    dsimp only at h
    repeat
      split at h
      · cases h
    cases h
    rfl

theorem mem_writeStats {curr : Bool} {table : List Device} {row : Row}
    (h : row ∈ writeStats setup curr table) :
    exists d, d ∈ table ∧ d.used ≠ 0 ∧
      row = ⟨d.name, d.sample curr, d.sample (!curr)⟩ := by
  unfold writeStats at h
  split at h
  · rcases List.mem_filterMap.mp h with ⟨d, hd, hrow⟩
    exact ⟨d, hd, row_eq_some hrow⟩
  · cases h

theorem writeStats_sublist (curr : Bool) (table : List Device) :
    ((writeStats setup curr table).map Row.name).Sublist (inUse table) := by
  have hrows : forall table : List Device,
      ((table.filterMap (Device.row setup curr)).map Row.name).Sublist
      (inUse table) := by
    intro table
    induction table with
    | nil => exact List.Sublist.slnil
    | cons d table ih =>
        cases hrow : d.row setup curr with
        | none =>
            rw [List.filterMap_cons_none hrow]
            apply ih.trans
            exact ((List.sublist_cons_self d table).filter _).map _
        | some row =>
            rcases row_eq_some hrow with ⟨hused, rfl⟩
            rw [List.filterMap_cons_some hrow]
            have huse : inUse (d :: table) = d.name :: inUse table := by
              unfold inUse
              rw [List.filter_cons_of_pos (by simpa using hused)]
              rfl
            rw [huse]
            exact ih.cons_cons d.name
  unfold writeStats
  split
  · exact hrows table
  · exact List.nil_sublist _

/--
There is a report for each round that is to have one, and it is that of this
round. A line of a report never has the counters of another device: the current
sample has the numbers that this round found last under the name of the line,
and the previous one those that the round before found, but it is zero if the
device was not in use after that. No device has two lines.
-/
theorem rwIoStatLoop_rows {setup : Setup} (hgroups : setup.groupNr = 0)
    {systems : List System}
    (hread : forall sys, sys ∈ systems -> Readable setup sys) (n : Nat)
    {count : Int} (hcount : count ≠ 0)
    (skip : Bool) :
    (rwIoStatLoop setup systems true count skip (sallocDevice n)).length =
        (if count < 0 then systems.length - skip.toNat
          else min count.toNat (systems.length - skip.toNat)) ∧
      forall (k : Nat) (rows : List Row),
        (rwIoStatLoop setup systems true count skip (sallocDevice n))[k]? =
          some rows ->
        exists sys s, systems[k + skip.toNat]? = some sys ∧
          Runs (Step setup) (true, sallocDevice n)
            (systems.take (k + skip.toNat)) s ∧
          (rows.map Row.name).Nodup ∧ forall row, row ∈ rows ->
            FoundIn setup sys row.name row.ioi ∧
            if row.name ∈ inUse s.2 then
              exists previous, (systems.take (k + skip.toNat)).getLast? =
                some previous ∧
                FoundIn setup previous row.name row.ioj
            else row.ioj = .zero := by
  refine ⟨reports_length systems true count skip _ hcount, fun k rows hrows => ?_⟩
  rcases report_of_run systems true count skip (sallocDevice n) k rows
    hrows with ⟨sys, s, hsys, hrun, hreport⟩
  have hfront : forall past, past ∈ systems.take (k + skip.toNat) ->
      Readable setup past :=
    fun past hpast => hread past (List.mem_of_mem_take hpast)
  have hreadable : Readable setup sys := hread sys (List.mem_of_getElem? hsys)
  have hsampled := sampled_run hgroups hfront hrun
  have hround : Read s.1 s.2 (countersIn setup sys) (round setup s.1 sys s.2) :=
    round_read hgroups hreadable.samplesIn hsampled.left
  refine ⟨sys, s, hsys, hrun, ?_, ?_⟩
  · rw [hreport]
    apply (writeStats_sublist s.1 _).nodup
    apply hround.distinct.nodup_filter
    intro d hd hused hblank
    exact of_decide_eq_true hused (hround.blank d hd hblank)
  · intro row hrow
    rw [hreport] at hrow
    rcases mem_writeStats hrow with ⟨d, hd, hused, rfl⟩
    refine ⟨hreadable.foundIn (hround.last d hd hused), ?_⟩
    rcases hround.previous d hd hused with
      ⟨e, he, heused, hename, hsample⟩ | ⟨hnot, hsample⟩
    · rw [if_pos (mem_inUse.mpr ⟨e, he, hename, heused⟩)]
      rcases hsampled.right e he heused with ⟨previous, hprevious, hlast⟩
      refine ⟨previous, hprevious,
        (hfront previous (List.mem_of_getLast? hprevious)).foundIn ?_⟩
      rw [← hename, hlast]
      exact congrArg some hsample.symm
    · rw [if_neg]
      · exact hsample
      · intro hmem
        rcases mem_inUse.mp hmem with ⟨e, he, hename, heused⟩
        exact hnot e he heused hename

def diskSetup : Setup :=
  ⟨{.disk, .unfiltered, .hasDiskstats}, [], 0, 253⟩

def diskLine (devName : DevName) (rdIos : UInt64) : DiskLine :=
  ⟨8, 0, devName, .extended rdIos 0 rdIos 0 0 0 0 0 0 0 0⟩

def diskSystem (lines : List DiskLine) : System :=
  ⟨some lines, none, fun _ => none, fun _ _ => none, fun _ => true, fun _ _ =>
    none, fun _ _ => none, .zero⟩

theorem diskSystem_readable (lines : List DiskLine) :
    Readable diskSetup (diskSystem lines) :=
  ⟨_, rfl⟩

def sda : DevName :=
  ⟨[115, 100, 97], by decide, by decide⟩

def sdb : DevName :=
  ⟨[115, 100, 98], by decide, by decide⟩

def diskSystems : List System :=
  [diskSystem [diskLine sda 5, diskLine sdb 7], diskSystem [diskLine sda 6],
    diskSystem [diskLine sda 8, diskLine sdb 9]]

theorem diskSystems_readable : forall sys, sys ∈ diskSystems ->
    Readable diskSetup sys := by
  intro sys hsys
  rcases List.mem_cons.mp hsys with rfl | hsys
  · exact diskSystem_readable _
  · rcases List.mem_cons.mp hsys with rfl | hsys
    · exact diskSystem_readable _
    · rw [List.mem_singleton.mp hsys]
      exact diskSystem_readable _

def secondReport : List Row :=
  [⟨sda.text, (diskLine sda 6).counters.fill .zero,
    (diskLine sda 5).counters.fill .zero⟩]

theorem rwIoStatLoop_rows_three :
    (rwIoStatLoop diskSetup diskSystems true (-1) false
    (sallocDevice 6)).length = 3 ∧
      (rwIoStatLoop diskSetup diskSystems true (-1) false
        (sallocDevice 6))[1]? = some secondReport ∧
      (secondReport.map Row.name).Nodup := by
  have hreports :
      (rwIoStatLoop diskSetup diskSystems true (-1) false (sallocDevice 6))[1]? =
      some secondReport := by
    decide +kernel
  have hcount : (-1 : Int) ≠ 0 := by
    decide
  rcases rwIoStatLoop_rows rfl diskSystems_readable 6 hcount false with
    ⟨hlength, hrows⟩
  rcases hrows 1 secondReport hreports with ⟨_, _, _, _, hnodup, _⟩
  exact ⟨hlength, hreports, hnodup⟩

/-!
# Devices that come back
-/

theorem saveName_known {curr : Bool} {name : DevName} {stIo : IoStats}
    {table : List Device}
    (h : name.text ∈ table.map Device.name) :
    (saveName curr name stIo table).map (fun d => (d.name, d.used)) = table.map
    (fun d => (d.name, d.used)) := by
  rcases saveName_cases curr name stIo table with
    ⟨front, e, back, rfl, _, hsave⟩ | ⟨hnew, _⟩
  · rw [hsave, List.map_append, List.map_append]
    rfl
  · rcases List.mem_map.mp h with ⟨d, hd, hname⟩
    exact absurd hname (hnew d hd)

theorem map_name_eq {table table' : List Device}
    (h : table'.map (fun d => (d.name, d.used)) =
    table.map (fun d => (d.name, d.used))) :
    table'.map Device.name = table.map Device.name := by
  have hfst := congrArg (List.map Prod.fst) h
  rw [List.map_map, List.map_map] at hfst
  exact hfst

theorem saveAll_known {curr : Bool} {samples : Samples} {table : List Device}
    (h : forall name, name ∈ names samples -> name ∈ table.map Device.name) :
    (saveAll curr samples table).map (fun d => (d.name, d.used)) = table.map
    (fun d => (d.name, d.used)) := by
  induction samples generalizing table with
  | nil => rfl
  | cons x samples ih =>
      have hfirst : (saveName curr x.1 x.2 table).map
          (fun d => (d.name, d.used)) = table.map (fun d => (d.name, d.used)) :=
        saveName_known (h _ List.mem_cons_self)
      have hrest :=
        ih (fun name hname => map_name_eq hfirst ▸ h name
        (List.mem_cons_of_mem _ hname))
      exact hrest.trans hfirst

theorem setEntriesUnregistered_known (table : List Device) :
    (setEntriesUnregistered table).map (fun d => (d.name, d.used)) = table.map
    (fun d => (d.name, d.used)) := by
  unfold setEntriesUnregistered
  rw [List.map_map]
  apply List.map_congr_left
  intro d _
  show ((ite _ _ _ : Device).name, (ite _ _ _ : Device).used) = _
  split <;> rfl

theorem freeUnregisteredEntries_names (table : List Device) :
    (freeUnregisteredEntries table).map Device.name = table.map Device.name := by
  unfold freeUnregisteredEntries
  rw [List.map_map]
  apply List.map_congr_left
  intro d _
  show (ite _ _ _ : Device).name = _
  split <;> rfl

theorem mem_inUse_free {name : Text} {table : List Device}
    (h : name ∈ inUse (freeUnregisteredEntries table)) :
    name ∈ inUse table := by
  rcases mem_inUse.mp h with ⟨d, hd, hname, hused⟩
  rcases List.mem_map.mp hd with ⟨e, he, rfl⟩
  split at hname
  · next hstatus =>
      rw [if_pos hstatus] at hused
      exact absurd rfl hused
  · next hstatus =>
      rw [if_neg hstatus] at hused
      exact mem_inUse.mpr ⟨e, he, hname, hused⟩

theorem inUse_eq {table table' : List Device}
    (h : table'.map (fun d => (d.name, d.used)) =
    table.map (fun d => (d.name, d.used))) : inUse table' = inUse table := by
  have hinUse : forall table : List Device, inUse table =
      ((table.map (fun d => (d.name, d.used))).filter (fun x => x.2 ≠ 0)).map
        Prod.fst := by
    intro table
    rw [List.filter_map, List.map_map]
    rfl
  rw [hinUse, hinUse, h]

theorem mem_names_of_lastSample {name : Text} {samples : Samples} {stIo : IoStats}
    (h : lastSample name samples = some stIo) : name ∈ names samples := by
  rcases Option.map_eq_some_iff.mp h with ⟨x, hx, _⟩
  rcases List.mem_filter.mp (List.mem_of_getLast? hx) with ⟨hmem, hname⟩
  exact List.mem_map.mpr ⟨x, hmem, of_decide_eq_true hname⟩

/-- In a round without new names, the devices in use are those that were in use
and are found. -/
theorem round_known (hgroups : setup.groupNr = 0) (hread : Readable setup sys)
    (curr : Bool) {table : List Device}
    (hsound : Sound table)
    (hknown : forall name, name ∈ names (countersIn setup sys) ->
    name ∈ table.map Device.name) :
    (round setup curr sys table).map Device.name = table.map Device.name ∧
      forall name, name ∈ inUse (round setup curr sys table) <->
        name ∈ inUse table ∧ name ∈ names (countersIn setup sys) := by
  have hround : Read curr table (countersIn setup sys)
      (round setup curr sys table) :=
    round_read hgroups hread.samplesIn hsound
  have heq : round setup curr sys table =
      freeUnregisteredEntries (saveAll curr (countersIn setup sys)
        (setEntriesUnregistered table)) := by
    unfold round
    rw [if_neg (by omega), readStats_eq hread.samplesIn]
  have hsame :
      (saveAll curr (countersIn setup sys) (setEntriesUnregistered table)).map
      (fun d => (d.name, d.used)) =
      table.map (fun d => (d.name, d.used)) := by
    have hset := setEntriesUnregistered_known table
    rw [saveAll_known (fun name hname => map_name_eq hset ▸ hknown name hname),
      hset]
  constructor
  · rw [heq, freeUnregisteredEntries_names, map_name_eq hsame]
  · intro name
    constructor
    · intro h
      constructor
      · rw [heq] at h
        exact inUse_eq hsame ▸ mem_inUse_free h
      · rcases mem_inUse.mp h with ⟨d, hd, rfl, hused⟩
        exact mem_names_of_lastSample (hround.last d hd hused)
    · rintro ⟨huse, hfound⟩
      rcases mem_inUse.mp huse with ⟨d, hd, rfl, hused⟩
      rcases hround.kept d hd hused hfound with ⟨e, he, hname, heused⟩
      exact mem_inUse.mpr ⟨e, he, hname, heused⟩

/-- A table that had nothing in it at the start of the round. -/
structure Filled (n : Nat) (seen : Samples) (table : List Device) : Prop where
  size : table.length = n
  taken : forall d, d ∈ table -> d.name ≠ [] -> d.used ≠ 0 ∧ d.name ∈ names seen
  stored : forall name, name ∈ names seen -> name ∈ table.map Device.name

theorem names_nodup {table : List Device} (h : Sound table)
    (hused : forall d, d ∈ table -> d.used ≠ 0) :
    (table.map Device.name).Nodup := by
  have hall : table.filter (fun _ => true) = table :=
    List.filter_eq_self.mpr (fun _ _ => rfl)
  rw [← hall]
  apply h.distinct.nodup_filter
  intro d hd _ hblank
  exact hused d hd (h.blank d hd hblank)

/-- A new name finds an entry, as long as there are not more names than entries. -/
theorem Filled.save {n : Nat} {curr : Bool} {before table : List Device}
    {seen : Samples}
    (h : Filled n seen table) (hreading : Reading curr before seen table)
    {name : DevName} {stIo : IoStats}
    (hroom : (names (seen ++ [(name, stIo)])).dedup.length <= n) :
    Filled n (seen ++ [(name, stIo)]) (saveName curr name stIo table) := by
  rcases saveName_cases curr name stIo table with
    ⟨front, e, back, rfl, hname, hsave⟩ |
    ⟨hnew, ⟨front, e, back, rfl, hunused, hsave⟩ | ⟨hfull, _⟩⟩
  · have hsize : (front ++ e.store curr stIo :: back).length =
        (front ++ e :: back).length := by
      rw [List.length_append, List.length_append]
      rfl
    have hnames : (front ++ e.store curr stIo :: back).map Device.name =
        (front ++ e :: back).map Device.name := by
      rw [List.map_append, List.map_append]
      rfl
    rw [hsave]
    refine ⟨hsize.trans h.size, ?_, ?_⟩
    · intro d hd hblank
      rw [mem_names_concat]
      rcases Slots.mem_changed.mp hd with rfl | hrest
      · have he := h.taken e (Slots.mem_changed.mpr (Or.inl rfl)) hblank
        exact ⟨he.left, Or.inl he.right⟩
      · have hd' := h.taken d (Slots.mem_changed.mpr (Or.inr hrest)) hblank
        exact ⟨hd'.left, Or.inl hd'.right⟩
    · intro other hother
      rw [hnames]
      rcases mem_names_concat.mp hother with hseen | rfl
      · exact h.stored other hseen
      · exact List.mem_map.mpr ⟨e, Slots.mem_changed.mpr (Or.inl rfl), hname⟩
  · have hadopted : ((e.adopt curr name.text).store curr stIo).name =
        name.text := Device.adopt_name e curr name
    rw [hsave]
    refine ⟨?_, ?_, ?_⟩
    · rw [← h.size, List.length_append, List.length_append]
      rfl
    · intro d hd hblank
      rw [mem_names_concat]
      rcases Slots.mem_changed.mp hd with rfl | hrest
      · exact ⟨Nat.one_ne_zero, Or.inr hadopted⟩
      · have hd' := h.taken d (Slots.mem_changed.mpr (Or.inr hrest)) hblank
        exact ⟨hd'.left, Or.inl hd'.right⟩
    · intro other hother
      rcases mem_names_concat.mp hother with hseen | rfl
      · rcases List.mem_map.mp (h.stored other hseen) with ⟨d, hd, hdname⟩
        rcases Slots.mem_changed.mp hd with rfl | hrest
        · -- The entry taken has no name that was stored before.
          by_cases hblank : d.name = []
          · rcases List.mem_map.mp hseen with ⟨x, _, hx⟩
            exact absurd (hx.trans (hdname.symm.trans hblank)) x.1.nonempty
          · exact absurd hunused (h.taken d hd hblank).left
        · exact List.mem_map.mpr ⟨d, Slots.mem_changed.mpr (Or.inr hrest), hdname⟩
      · exact List.mem_map.mpr ⟨_, Slots.mem_changed.mpr (Or.inl rfl), hadopted⟩
  · -- Every entry has a name of its own already, and the new one is one more.
    have hnodup := names_nodup hreading.toSound hfull
    have hmore : (name.text :: table.map Device.name).Nodup := by
      rw [List.nodup_cons]
      refine ⟨?_, hnodup⟩
      intro hmem
      rcases List.mem_map.mp hmem with ⟨d, hd, hname⟩
      exact hnew d hd hname
    have hsub : name.text :: table.map Device.name ⊆
        (names (seen ++ [(name, stIo)])).dedup := by
      intro other hother
      rw [List.mem_dedup, mem_names_concat]
      rcases List.mem_cons.mp hother with rfl | hmem
      · exact Or.inr rfl
      · rcases List.mem_map.mp hmem with ⟨d, hd, rfl⟩
        have hblank : d.name ≠ [] := fun heq => hfull d hd (hreading.blank d hd heq)
        exact Or.inl (h.taken d hd hblank).right
    have hlength := (hmore.subperm hsub).length_le
    rw [List.length_cons, List.length_map, h.size] at hlength
    omega

theorem dedup_length_le {text : Type} [DecidableEq text] {l more : List text}
    (h : l ⊆ more) :
    l.dedup.length <= more.dedup.length := by
  apply ((List.nodup_dedup l).subperm _).length_le
  intro x hx
  exact List.mem_dedup.mpr (h (List.mem_dedup.mp hx))

theorem Filled.saveAll {n : Nat} {curr : Bool} {before table : List Device}
    {seen : Samples} (samples : Samples)
    (h : Filled n seen table) (hreading : Reading curr before seen table)
    (hroom : (names (seen ++ samples)).dedup.length <= n) :
    Filled n (seen ++ samples) (saveAll curr samples table) := by
  induction samples generalizing seen table with
  | nil =>
      rw [List.append_nil]
      exact h
  | cons x samples ih =>
      have happend : seen ++ x :: samples = (seen ++ [x]) ++ samples := by
        rw [List.append_assoc]
        rfl
      rw [happend] at hroom ⊢
      apply ih _ (hreading.save x.1 x.2) hroom
      apply h.save hreading
      apply Nat.le_trans (dedup_length_le _) hroom
      intro name hname
      rcases List.mem_map.mp hname with ⟨y, hy, rfl⟩
      exact List.mem_map.mpr ⟨y, List.mem_append_left _ hy, rfl⟩

theorem Filled.free {n : Nat} {curr : Bool} {before table : List Device}
    {seen : Samples} (h : Filled n seen table)
    (hreading : Reading curr before seen table) :
    Filled n seen (freeUnregisteredEntries table) where
  size := by
    unfold freeUnregisteredEntries
    rw [List.length_map]
    exact h.size
  taken := by
    intro d hd hblank
    rcases List.mem_map.mp hd with ⟨e, he, rfl⟩
    have hname : (if e.status = .unregistered then { e with used := 0 }
      else e : Device).name = e.name := by
      split <;> rfl
    rw [hname] at hblank ⊢
    rcases h.taken e he hblank with ⟨hused, hseen⟩
    rw [if_neg (fun hstatus => (hreading.unregistered e he hused hstatus).left
      hseen)]
    exact ⟨hused, hseen⟩
  stored := by
    rw [freeUnregisteredEntries_names]
    exact h.stored

theorem first_round (hgroups : setup.groupNr = 0) (hread : Readable setup sys)
    (curr : Bool) {n : Nat}
    (hroom : (names (countersIn setup sys)).dedup.length <= n) :
    Filled n (countersIn setup sys) (round setup curr sys (sallocDevice n)) ∧
      forall name, name ∈ inUse (round setup curr sys (sallocDevice n)) <->
        name ∈ names (countersIn setup sys) := by
  have hround : Read curr (sallocDevice n) (countersIn setup sys)
      (round setup curr sys (sallocDevice n)) :=
    round_read hgroups hread.samplesIn (Sound.sallocDevice n)
  have hreading : Reading curr (sallocDevice n) []
      (setEntriesUnregistered (sallocDevice n)) :=
    setEntriesUnregistered_reading (Sound.sallocDevice n)
  have hfresh : Filled n [] (setEntriesUnregistered (sallocDevice n)) := by
    unfold setEntriesUnregistered
    refine ⟨by rw [List.length_map]; exact List.length_replicate, ?_,
      fun name hname => (nomatch hname)⟩
    intro d hd hblank
    rcases List.mem_map.mp hd with ⟨e, he, rfl⟩
    rw [List.eq_of_mem_replicate he] at hblank
    exact absurd rfl hblank
  have hfilled : Filled n (countersIn setup sys)
      (round setup curr sys (sallocDevice n)) := by
    unfold round
    rw [if_neg (by omega), readStats_eq hread.samplesIn]
    exact (hfresh.saveAll (countersIn setup sys) hreading hroom).free
      (hreading.saveAll (countersIn setup sys))
  refine ⟨hfilled, ?_⟩
  intro name
  constructor
  · intro h
    rcases mem_inUse.mp h with ⟨d, hd, rfl, hused⟩
    exact mem_names_of_lastSample (hround.last d hd hused)
  · intro h
    rcases List.mem_map.mp (hfilled.stored name h) with ⟨d, hd, rfl⟩
    rcases List.mem_map.mp h with ⟨x, _, hx⟩
    exact mem_inUse.mpr ⟨d, hd, rfl, (hfilled.taken d hd (hx ▸ x.1.nonempty)).left⟩

/--
As long as no new devices appear, a device is reported in a round only if it was
found in every round so far: an entry that was not in use for one round is found
under its old name when the device is back, and stays marked as unused.
-/
theorem inUse_iff_every_round {setup : Setup} (hgroups : setup.groupNr = 0)
    {n : Nat} {first : System} {rest : List System}
    (hread : forall sys, sys ∈ first :: rest -> Readable setup sys)
    (hroom : (namesIn setup first).dedup.length <= n)
    (hknown : forall sys, sys ∈ rest -> namesIn setup sys ⊆ namesIn setup first)
    {s : Bool × List Device} (hrun : Runs (Step setup) (true, sallocDevice n)
    (first :: rest) s) (name : Text) :
    name ∈ inUse s.2 <-> forall sys, sys ∈ first :: rest ->
      name ∈ namesIn setup sys := by
  have hall : Sound s.2 ∧ (namesIn setup first ⊆ s.2.map Device.name) ∧
      (name ∈ inUse s.2 <-> forall sys, sys ∈ first :: rest ->
        name ∈ namesIn setup sys) := by
    induction rest using List.reverseRecOn generalizing s with
    | nil =>
        have hsingle : Runs (Step setup) (true, sallocDevice n)
            ([] ++ [first]) s := hrun
        rcases hsingle.of_concat with ⟨t, hstart, hstep⟩
        cases hstart.of_nil
        cases hstep
        have hfirst := hread first List.mem_cons_self
        rw [← hfirst.names] at hroom ⊢
        rcases first_round hgroups hfirst true hroom with ⟨hfilled, hinUse⟩
        refine ⟨(round_read hgroups hfirst.samplesIn
          (Sound.sallocDevice n)).toSound, hfilled.stored, ?_⟩
        rw [hinUse name]
        constructor
        · intro h sys hsys
          rw [List.mem_singleton.mp hsys, ← hfirst.names]
          exact h
        · intro h
          rw [hfirst.names]
          exact h first List.mem_cons_self
    | append_singleton rest sys ih =>
        have hmore : Runs (Step setup) (true, sallocDevice n)
            ((first :: rest) ++ [sys]) s := hrun
        rcases hmore.of_concat with ⟨t, hbefore, hstep⟩
        have hsub : forall sys', sys' ∈ first :: rest ->
            sys' ∈ first :: (rest ++ [sys]) :=
          fun sys' hsys' => List.mem_append_left [sys] hsys'
        have hlast : sys ∈ first :: (rest ++ [sys]) :=
          List.mem_cons_of_mem first (List.mem_append_right rest List.mem_cons_self)
        rcases ih (fun sys' hsys' => hread sys' (hsub sys' hsys'))
          (fun sys' hsys' => hknown sys' (List.mem_append_left [sys] hsys'))
            hbefore with ⟨hsound, hstored, hinUse⟩
        have hnames := hknown sys (List.mem_append_right rest List.mem_cons_self)
        rw [← (hread sys hlast).names] at hnames
        rcases round_known hgroups (hread sys hlast) t.1 hsound
          (fun other hother => hstored (hnames hother)) with
          ⟨hsame, hround⟩
        cases hstep
        refine ⟨(round_read hgroups (hread sys hlast).samplesIn hsound).toSound,
          ?_, ?_⟩
        · rw [hsame]
          exact hstored
        · rw [hround name, hinUse, (hread sys hlast).names]
          constructor
          · rintro ⟨hevery, hfound⟩ sys' hsys'
            rcases List.mem_append.mp (show sys' ∈ (first :: rest) ++
              [sys] from hsys') with hold | hnew
            · exact hevery sys' hold
            · rw [List.mem_singleton.mp hnew]
              exact hfound
          · intro h
            exact ⟨fun sys' hsys' => h sys' (hsub sys' hsys'), h sys hlast⟩
  exact hall.right.right

/-- In the third round, the second device is found but it is not in use. -/
theorem inUse_iff_every_round_three : exists s, Runs (Step diskSetup)
    (true, sallocDevice 6) diskSystems s ∧
    sda.text ∈ inUse s.2 ∧ sdb.text ∉ inUse s.2 := by
  have hrun : Runs (Step diskSetup) (true, sallocDevice 6) diskSystems _ :=
    .cons rfl (.cons rfl (.cons rfl .nil))
  have hiff := inUse_iff_every_round rfl diskSystems_readable
    (by decide +kernel) (by decide +kernel) hrun
  refine ⟨_, hrun, (hiff sda.text).mpr (by decide +kernel), ?_⟩
  intro h
  exact absurd ((hiff sdb.text).mp h) (by decide +kernel)

end Sysstat
end Lepd
