import Lepd.Sysstat.IostatFlags
import Lepd.Sysstat.IostatNames
import Lepd.Sysstat.IostatRoom

/-!
# The options of one call after others

Nothing resets the options of `iostat_main`. A call has the options that its own
arguments ask for as long as what earlier calls left makes no difference to it.
-/

namespace Lepd
namespace Sysstat

open Foundation

variable {left : Finset Flag} {p q q' : Parsing} {env : Environment}

/-!
# What makes no difference
-/

def listLen (argv : List Text) : Nat :=
  if 1 < argv.length then (argv.drop 1).length + countCsvalues (argv.drop 1) else 0

def different (names : List Text) : Nat :=
  (listed [] names).length

/-- The names that a call stores after other calls, which left their type of
names. -/
def namesAfter (env : Environment) (argv : List Text) (s : Statics) : List Text :=
  storedNames env s.nameType none (items argv)

/-- A call stores no name, or its list has room for them behind so many entries
that are left. -/
def RoomBehind (env : Environment) (argv : List Text) (s : Statics) : Prop :=
  namesAfter env argv s = [] ∨
    (listed (List.replicate s.dlistIdx []) (namesAfter env argv s)).length <=
    listLen argv

/-- What earlier calls left makes no difference to the options of a call. -/
structure Harmless (env : Environment) (argv : List Text) (s : Statics) : Prop where
  /-- The call has every flag by its own arguments that is left. -/
  flags : forall flag, flag ∈ s.flags -> flag ∈ systemFlags ∨
    TurnsOn env (items argv) flag
  /-- No group is left. -/
  groups : s.groupNr = 0
  /-- No device is left, or the call has all partitions and room behind what is
  left. -/
  devices : s.dlistIdx = 0 ∨ (Flag.partAll ∈ asks (items argv) ∧
    RoomBehind env argv s)
  /-- The call has all partitions, or as many different names as by itself. -/
  names : Flag.partAll ∈ asks (items argv) ∨
    different (namesAfter env argv s) = different (namesAfter env argv initial)
  /-- No interval is left, or the call has its own. -/
  interval : s.interval = 0 ∨ exists item, item ∈ items argv ∧ item.IsNumber

section Call

variable {argv : List Text} {s : Statics}

theorem Harmless.same (h : Harmless env argv s) :
    Same s.flags (exists item, item ∈ items argv ∧ item.IsNumber) (begin argv s)
      (begin argv initial) where
  flags := (Finset.empty_union _).symm
  groupNr := h.groups
  interval := h.interval.imp_right (fun hnumber => ⟨rfl, hnumber⟩)
  it := rfl
  count := rfl
  reportSet := rfl

theorem Harmless.ready (h : Harmless env argv s)
    (hown : processItems env (items argv) (begin argv initial) = .ok q) :
    Ready s.flags (asks (items argv)) where
  kilobytes hleft hmegabytes := by
    rcases h.flags _ hleft with hsystem | hmem | ⟨hreport, _⟩ | ⟨hdisk, _⟩ | ⟨_,
      hnot, _⟩
    · exact absurd hsystem (by decide)
    · exact units_apart hown ⟨hmem, hmegabytes⟩
    · exact absurd hreport (by decide)
    · exact absurd hdisk (by decide)
    · exact hnot hmegabytes
  megabytes hleft hkilobytes := by
    rcases h.flags _ hleft with hsystem | hmem | ⟨hreport, _⟩ | ⟨hdisk,
      _⟩ | ⟨hunit, _⟩
    · exact absurd hsystem (by decide)
    · exact units_apart hown ⟨hkilobytes, hmem⟩
    · exact absurd hreport (by decide)
    · exact absurd hdisk (by decide)
    · exact absurd hunit (by decide)

/-- The list that a call begins with has the entries that the index left skips. -/
theorem begin_listed (hfreed : s.devList = []) (argv : List Text) :
    Listed (listLen argv) (List.replicate s.dlistIdx [])
      (begin argv s).statics where
  idx := List.length_replicate.symm
  list := by
    show listFor argv s = _
    rw [List.length_replicate, ← List.replicate_add, List.take_replicate,
      listFor, listLen, hfreed]
    split
    · rw [Nat.min_eq_left (by omega)]
    · rw [Nat.zero_min, List.replicate_zero]

/-- The names that a call stores are the names behind the entries that are left. -/
theorem begin_stores (env : Environment) (hfreed : s.devList = [])
    (hgroups : s.groupNr = 0)
    (argv : List Text) :
    exists type group, Stores (listLen argv) (List.replicate s.dlistIdx [])
      (namesAfter env argv s)
      type group (processItems env (items argv) (begin argv s)) := by
  have hstores := (begin_listed hfreed argv).processItems env (items argv)
  have hgroup : (begin argv s).statics.group = none :=
    if_neg (Nat.not_lt.mpr (Nat.le_of_eq hgroups))
  rw [hgroup] at hstores
  exact ⟨_, _, hstores⟩

structure SameOptions (s t : Statics) : Prop where
  options : s.options = t.options
  flags : t.flags ⊆ s.flags

theorem SameOptions.mem (h : SameOptions s t) {flag : Flag}
    (hflag : flag ∉ systemFlags) :
    flag ∈ s.flags <-> flag ∈ t.flags := by
  have hoptions : s.flags \ systemFlags = t.flags \ systemFlags :=
    congrArg Options.flags h.options
  have hmem := Finset.ext_iff.mp hoptions flag
  rw [Finset.mem_sdiff, Finset.mem_sdiff] at hmem
  tauto

theorem finishArgs_eq (env : Environment) (p : Parsing) :
    finishArgs env p =
      if Flag.groupTotalOnly ∈ defaultReports p.reportSet p.statics.flags ∧
        p.statics.groupNr = 0 then
        .error .exit
      else .ok { p with
                 statics.flags := finalFlags env p.reportSet p.statics.flags
                 statics.dlistIdx :=
                   if Flag.partAll ∈
                     finalFlags env p.reportSet p.statics.flags then 0
                   else p.statics.dlistIdx
                 count := if p.statics.interval = 0 then 1 else p.count } :=
  rfl

theorem Same.finishArgs (h : Same left False p q)
    (hleft : forall flag, flag ∈ left -> flag ∈ systemFlags ∨
    flag ∈ finalFlags env q.reportSet q.statics.flags)
    (hidx : p.statics.dlistIdx = q.statics.dlistIdx ∨ Flag.partAll ∈
    q.statics.flags)
    (hq : finishArgs env q = .ok q') :
    exists p', finishArgs env p = .ok p' ∧ SameOptions p'.statics q'.statics := by
  have hflags := finalFlags_left hleft
  have hinterval : p.statics.interval = q.statics.interval :=
    h.interval.resolve_right (fun hnot => hnot.right)
  rw [finishArgs_eq] at hq ⊢
  rw [h.reportSet, h.flags, h.groupNr]
  split at hq
  · cases hq
  · next hgroups =>
      cases hq
      have htotal :
          ¬ (Flag.groupTotalOnly ∈ defaultReports q.reportSet
        (q.statics.flags ∪ left) ∧
          q.statics.groupNr = 0) := by
        rintro ⟨hmem, hnone⟩
        apply hgroups
        refine ⟨?_, hnone⟩
        have hfinal : Flag.groupTotalOnly ∈ finalFlags env q.reportSet
            (q.statics.flags ∪ left) :=
          (mem_setDiskOutputUnit _ _ _).mpr (Or.inl hmem)
        rw [hflags _ (by decide), finalFlags, mem_setDiskOutputUnit] at hfinal
        exact hfinal.resolve_right (fun hunit => absurd hunit.left (by decide))
      have hall : Flag.partAll ∈ q.statics.flags ->
          Flag.partAll ∈ finalFlags env q.reportSet q.statics.flags :=
        fun hmem => (mem_finalFlags _ _ _ _).mpr (Or.inl hmem)
      have hall' := hflags .partAll (by decide)
      rw [if_neg htotal]
      refine ⟨_, rfl, ?_, ?_⟩
      · have hoptions : finalFlags env q.reportSet (q.statics.flags ∪ left) \
            systemFlags =
            finalFlags env q.reportSet q.statics.flags \ systemFlags := by
          ext flag
          rw [Finset.mem_sdiff, Finset.mem_sdiff]
          exact and_congr_left (fun hoption => hflags flag hoption)
        have hidx :
            (if Flag.partAll ∈ finalFlags env q.reportSet
          (q.statics.flags ∪ left) then 0
              else p.statics.dlistIdx) =
            if Flag.partAll ∈ finalFlags env q.reportSet q.statics.flags then 0
            else q.statics.dlistIdx := by
          rcases hidx with hsame | hmem
          · rw [hsame]
            simp only [hall']
          · rw [if_pos (hall'.mpr (hall hmem)), if_pos (hall hmem)]
        unfold Statics.options
        simp only [hoptions, hidx, hinterval, h.groupNr]
      · intro flag hmem
        by_cases hsystem : flag ∈ systemFlags
        · have hoption : flag ≠ .cpu ∧ flag ≠ .disk ∧ flag ≠ .kilobytes := by
            refine ⟨?_, ?_, ?_⟩ <;> rintro rfl <;> exact absurd hsystem (by decide)
          rw [mem_finalFlags] at hmem ⊢
          rcases hmem with hown | ⟨hreport, _⟩ | ⟨hdisk, _⟩ | ⟨hunit, _⟩
          · exact Or.inl (Finset.mem_union_left _ hown)
          · exact absurd hreport (not_or.mpr ⟨hoption.left, hoption.right.left⟩)
          · exact absurd hdisk hoption.right.left
          · exact absurd hunit hoption.right.right
        · exact (hflags flag hsystem).mpr hmem

theorem finishArgs_all (hall : Flag.partAll ∈ p.statics.flags)
    (hp : finishArgs env p = .ok q) :
    q.statics.dlistIdx = 0 := by
  rw [finishArgs_eq] at hp
  split at hp
  · cases hp
  · cases hp
    exact if_pos ((mem_finalFlags _ _ _ _).mpr (Or.inl hall))

theorem finishArgs_list (hp : finishArgs env p = .ok q) :
    q.statics.listPointer = p.statics.listPointer ∧ q.statics.devList =
      p.statics.devList := by
  rw [finishArgs_eq] at hp
  split at hp
  · cases hp
  · cases hp
    exact ⟨rfl, rfl⟩

/-!
# Room in the list
-/

theorem begin_room (argv : List Text) (hidx : s.dlistIdx = 0)
    (hgroups : s.groupNr = 0) :
    Room (needs (items argv)) (begin argv s) := by
  show s.dlistIdx + (if 0 < s.groupNr then 1 else 0) + needs (items argv) <=
    (listFor argv s).length
  rw [hidx, hgroups, if_neg (Nat.lt_irrefl 0), Nat.add_zero, Nat.zero_add, listFor]
  split
  · rw [List.length_replicate]
    exact needs_le _
  · next hargs =>
      rw [items, List.drop_eq_nil_of_le (Nat.le_of_not_lt hargs)]
      exact Nat.zero_le _

theorem Room.finishArgs (env : Environment) (h : Room 0 q) :
    Within 0 (finishArgs env q) := by
  rw [finishArgs_eq]
  split
  · rfl
  · unfold Room at h
    show (if Flag.partAll ∈ finalFlags env q.reportSet q.statics.flags then 0
      else q.statics.dlistIdx) +
      (if 0 < q.statics.groupNr then 1 else 0) + 0 <= q.statics.devList.length
    split
    · omega
    · exact h

/-- The arguments of a call without earlier ones do not exceed the device list. -/
theorem parseArgs_within (env : Environment) (argv : List Text) :
    Within 0 (parseArgs env argv initial) := by
  rw [parseArgs_eq]
  exact (begin_room argv rfl rfl).processItems.bind (fun q h => h.finishArgs env)

def SavesGroup (s : Statics) : Prop :=
  forall flags, presaveGroups (s.withFlags flags) ≠ .error .beyond

theorem presaveGroups_cases (s : Statics) :
    presaveGroups s = .error .beyond ∨
      exists idx list, presaveGroups s = .ok (s.withList idx list) ∧
        list.length = s.devList.length := by
  unfold presaveGroups presaveDeviceList
  split
  · split
    · exact updateDevList_cases _ _
    · exact Or.inr ⟨s.dlistIdx, s.devList, rfl, rfl⟩
  · exact Or.inr ⟨s.dlistIdx, s.devList, rfl, rfl⟩

theorem savesGroup_of_room (h : Room 0 q) : SavesGroup q.statics := by
  intro flags
  unfold Room at h
  unfold presaveGroups presaveDeviceList
  split
  · next hgroups =>
      have hgroups' : 0 < q.statics.groupNr := hgroups
      rw [if_pos hgroups'] at h
      have hroom : (q.statics.withFlags flags).dlistIdx <
          (q.statics.withFlags flags).devList.length := h
      rcases updateDevList_room (q.statics.withFlags flags).groupName hroom with
        ⟨s', hs', _⟩
      split
      · rw [hs']
        intro hbeyond
        cases hbeyond
      · intro hbeyond
        cases hbeyond
  · intro hbeyond
    cases hbeyond

theorem savesGroup_of_nothing (h : s.dlistIdx = 0) : SavesGroup s := by
  intro flags
  have hnothing : ¬ 0 < (s.withFlags flags).dlistIdx :=
    Nat.not_lt.mpr (Nat.le_of_eq h)
  unfold presaveGroups presaveDeviceList
  rw [if_neg hnothing]
  split
  · intro hbeyond
    cases hbeyond
  · intro hbeyond
    cases hbeyond

/-!
# One call after others
-/

/-- A harmless call does not exceed its list while it goes through its arguments. -/
theorem Harmless.within (h : Harmless env argv s) (hfreed : s.devList = []) :
    processItems env (items argv) (begin argv s) ≠ .error .beyond := by
  intro hbeyond
  rcases h.devices with hidx | ⟨_, hroom⟩
  · have hwithin : Within 0 (processItems env (items argv) (begin argv s)) :=
      (begin_room argv hidx h.groups).processItems
    rw [hbeyond] at hwithin
    cases hwithin
  · rcases begin_stores env hfreed h.groups argv with ⟨type, group, hstores⟩
    rw [hbeyond] at hstores
    rcases hstores rfl with ⟨hnames, hcap⟩
    rcases hroom with hnone | hroom
    · exact hnames hnone
    · exact absurd hcap (Nat.not_lt.mpr hroom)

/-- A harmless call stores as many names as it does by itself, unless it has all
partitions. -/
theorem Harmless.dlistIdx (h : Harmless env argv s) (hfreed : s.devList = [])
    {p1 q1 : Parsing}
    (hp : processItems env (items argv) (begin argv s) = .ok p1)
    (hq : processItems env (items argv) (begin argv initial) = .ok q1) :
    p1.statics.dlistIdx = q1.statics.dlistIdx ∨ Flag.partAll ∈
      q1.statics.flags := by
  have hall : Flag.partAll ∈ asks (items argv) ->
      Flag.partAll ∈ q1.statics.flags := by
    intro hmem
    rw [(processItems_adds hq).flags]
    exact Finset.mem_union_right _ hmem
  rcases h.devices with hidx | ⟨hmem, _⟩
  · rcases h.names with hmem | hnames
    · exact Or.inr (hall hmem)
    · left
      rcases begin_stores env hfreed h.groups argv with ⟨type, group, hstores⟩
      rcases begin_stores (s := initial) env rfl rfl argv with
        ⟨type', group', hstores'⟩
      rw [hp, hidx] at hstores
      rw [hq] at hstores'
      rw [hstores.left.idx, hstores'.left.idx]
      exact hnames
  · exact Or.inr (hall hmem)

theorem Harmless.parseArgs (h : Harmless env argv s) (hfreed : s.devList = [])
    (hq : parseArgs env argv initial = .ok q) :
    exists p, parseArgs env argv s = .ok p ∧ SameOptions p.statics q.statics ∧
      SavesGroup p.statics ∧
      p.statics.listPointer = pointerFor argv s ∧
      p.statics.devList.length = (listFor argv s).length := by
  rw [parseArgs_eq] at hq ⊢
  rcases ok_of_bind hq with ⟨q1, hq1, hfinish⟩
  rcases (h.same.processItems (h.ready hq1) hq1).resolve_left
    (h.within hfreed) with ⟨p1, hp1, hsame⟩
  have hadds := processItems_adds hq1
  have hown : forall flag, flag ∈ s.flags ->
      flag ∈ systemFlags ∨ flag ∈ finalFlags env q1.reportSet q1.statics.flags := by
    intro flag hflag
    rw [mem_ownFlags hadds]
    exact h.flags flag hflag
  rcases hsame.finishArgs hown (h.dlistIdx hfreed hp1 hq1) hfinish with
    ⟨p, hp, hoptions⟩
  refine ⟨p, ?_, hoptions, ?_, ?_, ?_⟩
  · rw [hp1]
    exact hp
  · rcases h.devices with hidx | ⟨hall, _⟩
    · have hroom : Within 0 (processItems env (items argv) (begin argv s)) :=
        (begin_room argv hidx h.groups).processItems
      rw [hp1] at hroom
      have hend := Room.finishArgs env hroom
      rw [hp] at hend
      exact savesGroup_of_room hend
    · apply savesGroup_of_nothing
      refine finishArgs_all ?_ hp
      rw [(processItems_adds hp1).flags]
      exact Finset.mem_union_right _ hall
  · rw [(finishArgs_list hp).left, (processItems_adds hp1).listPointer]
    rfl
  · rw [(finishArgs_list hp).right, (processItems_adds hp1).listLength]
    rfl

variable {t t' : Statics}

theorem ioSysInit_ok (h : ioSysInit env t = .ok t') :
    exists flags, t' = t.withFlags flags := by
  unfold ioSysInit at h
  split at h
  · split at h
    · cases h
      exact ⟨_, rfl⟩
    · cases h
  · cases h
    exact ⟨_, rfl⟩

theorem mem_diskstatsFlags (env : Environment) (flags : Finset Flag) (flag : Flag) :
    flag ∈ diskstatsFlags env flags <-> flag ∈ flags ∨
      (flag = .hasDiskstats ∧ env.diskstats = true) := by
  unfold diskstatsFlags
  cases env.diskstats with
  | false =>
      simp
  | true =>
      simp [or_comm]

theorem SameOptions.ioSysInit (h : SameOptions s t)
    (ht : ioSysInit env t = .ok t') :
    exists flags, ioSysInit env s = .ok (s.withFlags flags) := by
  have hpartitions : Flag.partitions ∈ diskstatsFlags env s.flags <->
      Flag.partitions ∈ diskstatsFlags env t.flags := by
    rw [mem_diskstatsFlags, mem_diskstatsFlags, h.mem (by decide)]
  have hpartAll : Flag.partAll ∈ diskstatsFlags env s.flags <->
      Flag.partAll ∈ diskstatsFlags env t.flags := by
    rw [mem_diskstatsFlags, mem_diskstatsFlags, h.mem (by decide)]
  have hneeds : NeedsSysfs (diskstatsFlags env s.flags) ->
      NeedsSysfs (diskstatsFlags env t.flags) := by
    rintro (hnot | ⟨hsome, hall⟩)
    · left
      intro hmem
      apply hnot
      rw [mem_diskstatsFlags] at hmem ⊢
      exact hmem.imp_left (fun hown => h.flags hown)
    · exact Or.inr ⟨hpartitions.mp hsome, fun hmem => hall (hpartAll.mpr hmem)⟩
  unfold Sysstat.ioSysInit at ht ⊢
  simp only [hpartitions]
  split
  · next hwanted =>
      rw [if_pos (hneeds hwanted)] at ht
      split at ht
      · next hsysfs =>
          rw [if_pos hsysfs]
          exact ⟨_, rfl⟩
      · cases ht
  · exact ⟨_, rfl⟩

theorem ioSysInit_within (env : Environment) (t : Statics) :
    ioSysInit env t ≠ .error .beyond := by
  unfold ioSysInit
  split
  · split
    · intro h
      cases h
    · intro h
      cases h
  · intro h
    cases h

theorem iostatMain_within (env : Environment) (argv : List Text) :
    iostatMain env argv initial ≠ .error .beyond := by
  intro hbeyond
  have hparse := parseArgs_within env argv
  rcases error_of_bind hbeyond with herror | ⟨q, hq, hrest⟩
  · rw [herror] at hparse
    cases hparse
  rw [hq] at hparse
  rcases error_of_bind hrest with herror | ⟨t, ht, hrest⟩
  · exact ioSysInit_within env q.statics herror
  rcases ioSysInit_ok ht with ⟨flags, rfl⟩
  rcases error_of_bind hrest with herror | ⟨t', _, hrest⟩
  · exact savesGroup_of_room hparse flags herror
  · cases hrest

/-- Between two calls nothing is allocated for the list; its pointer dangles
behind arguments. -/
structure Between (freed : Bool) (s : Statics) : Prop where
  devList : s.devList = []
  listPointer : s.listPointer = if freed then .dangling else .null

/-- The list is freed, unless a call without arguments comes behind one with
arguments. -/
theorem Between.sfreeDevList {freed : Bool} {last : Statics} (h : Between freed s)
    (hpointer : last.listPointer = pointerFor argv s)
    (hlength : last.devList.length = (listFor argv s).length) :
    if freed = true ∧ argv.length <= 1 then sfreeDevList last = none
    else exists s', sfreeDevList last = some s' ∧
      Between (freed || decide (1 < argv.length)) s' := by
  unfold Sysstat.sfreeDevList
  rw [hpointer, pointerFor]
  by_cases hargs : 1 < argv.length
  · rw [if_pos hargs, if_neg (fun hno => Nat.not_lt.mpr hno.right hargs)]
    refine ⟨_, rfl, rfl, ?_⟩
    rw [decide_eq_true hargs, Bool.or_true]
    rfl
  · rw [if_neg hargs, h.listPointer, decide_eq_false hargs, Bool.or_false]
    cases freed with
    | true =>
        rw [if_pos ⟨rfl, Nat.le_of_not_lt hargs⟩]
        rfl
    | false =>
        have hnot : ¬ (false = true ∧ argv.length <= 1) := fun hno =>
          Bool.false_ne_true hno.left
        rw [if_neg hnot]
        refine ⟨last, rfl, ?_, ?_⟩
        · rw [listFor, if_neg hargs, h.devList] at hlength
          exact List.eq_nil_of_length_eq_zero hlength
        · rw [hpointer, pointerFor, if_neg hargs, h.listPointer]

theorem Harmless.call (h : Harmless env argv s) (hfreed : s.devList = [])
    {options : Options}
    {left : Option Statics} (hown : iostatMain env argv initial =
    .ok (options, left)) :
    exists last, iostatMain env argv s = .ok (options, sfreeDevList last) ∧
      last.listPointer = pointerFor argv s ∧ last.devList.length =
        (listFor argv s).length := by
  rcases ok_of_bind hown with ⟨q, hq, hrest⟩
  rcases ok_of_bind hrest with ⟨t1, ht1, hrest⟩
  rcases ok_of_bind hrest with ⟨t2, ht2, hrest⟩
  cases hrest
  rcases h.parseArgs hfreed hq with ⟨p, hp, hsame, hsaves, hpointer, hlength⟩
  rcases hsame.ioSysInit ht1 with ⟨flags, hs1⟩
  rcases (presaveGroups_cases (p.statics.withFlags flags)).resolve_left
    (hsaves flags) with
    ⟨idx, list, hs2, hlist⟩
  have hcall : iostatMain env argv s =
      (do
        let s <- presaveGroups (p.statics.withFlags flags)
        let flags := if env.isoTimeFmt then s.flags ∪ {.iso} else s.flags
        return (p.statics.options, sfreeDevList (s.withFlags flags))) := by
    unfold iostatMain
    rw [hp]
    show (Sysstat.ioSysInit env p.statics >>= _) = _
    rw [hs1]
    rfl
  rw [hs2, hsame.options] at hcall
  exact ⟨_, hcall, hpointer, hlist.trans hlength⟩

end Call

/-!
# Many calls
-/

/-- A call: what it finds in its environment, and its arguments. -/
structure Call where
  env : Environment
  argv : List Text

/-- The options of the calls, one after the other, until the process ends. -/
def iostatRun : List Call -> Statics -> Except Stop (List Options)
  | [], _ => .ok []
  | call :: calls, s => do
      let (options, left) <- iostatMain call.env call.argv s
      match left with
      | none => return [options]
      | some s =>
          let rest <- iostatRun calls s
          return options :: rest

/-- The options that a call has by itself. -/
def Call.options (call : Call) : Except Stop Options :=
  (iostatMain call.env call.argv initial).map Prod.fst

/-- What earlier calls left makes no difference to any call. -/
def AllHarmless : List Call -> Statics -> Prop
  | [], _ => True
  | call :: calls, s =>
      Harmless call.env call.argv s ∧
        forall options s', iostatMain call.env call.argv s =
          .ok (options, some s') -> AllHarmless calls s'

/--
The calls up to the one that frees the list a second time: the first one without
arguments behind one with arguments.
-/
def untilSecondFree (freed : Bool) : List Call -> List Call
  | [] => []
  | call :: calls =>
      if freed = true ∧ call.argv.length <= 1 then [call]
      else call :: untilSecondFree (freed || decide (1 < call.argv.length)) calls

theorem run_options {calls : List Call} {s : Statics} {freed : Bool}
    (hbetween : Between freed s)
    (h : AllHarmless calls s) (haccepted : forall call, call ∈ calls ->
    call.options ≠ .error .exit) :
    exists options, iostatRun calls s = .ok options ∧
      List.Forall₂ (fun call o => call.options = .ok o)
        (untilSecondFree freed calls) options := by
  induction calls generalizing s freed with
  | nil =>
      exact ⟨[], rfl, .nil⟩
  | cons call calls ih =>
      rcases h with ⟨hharmless, hrest⟩
      have haccept := haccepted call List.mem_cons_self
      cases hown : iostatMain call.env call.argv initial with
      | error stop =>
          rw [Call.options, hown] at haccept
          cases stop with
          | exit =>
              exact absurd rfl haccept
          | beyond =>
              exact absurd hown (iostatMain_within call.env call.argv)
      | ok result =>
          rcases result with ⟨o, left⟩
          have ho : call.options = .ok o := by
            rw [Call.options, hown]
            rfl
          rcases hharmless.call hbetween.devList hown with
            ⟨last, hcall, hpointer, hlength⟩
          have hfree := hbetween.sfreeDevList hpointer hlength
          rw [untilSecondFree]
          split at hfree
          · next hsecond =>
              rw [if_pos hsecond]
              refine ⟨[o], ?_, .cons ho .nil⟩
              rw [iostatRun, hcall, hfree]
              rfl
          · next hsecond =>
              rcases hfree with ⟨s', hs', hbetween'⟩
              rw [hs'] at hcall
              rcases ih hbetween' (hrest o s' hcall)
                (fun c hc => haccepted c (List.mem_cons_of_mem call hc)) with
                  ⟨options, hrun, hoptions⟩
              rw [if_neg hsecond]
              refine ⟨o :: options, ?_, .cons ho hoptions⟩
              rw [iostatRun, hcall]
              show (iostatRun calls s' >>= _) = _
              rw [hrun]
              rfl

/--
In a run of calls to which nothing makes a difference that was left by earlier
ones, every call has the options that it has by itself, and none exceeds its
device list, until the process ends because the list is freed a second time.
-/
theorem options_by_themselves {calls : List Call} (h : AllHarmless calls initial)
    (haccepted : forall call, call ∈ calls -> call.options ≠ .error .exit) :
    exists options, iostatRun calls initial = .ok options ∧
      List.Forall₂ (fun call o => call.options = .ok o)
        (untilSecondFree false calls) options :=
  run_options ⟨rfl, rfl⟩ h haccepted

def diskEnvironment : Environment :=
  { posixlyCorrect := false, deviceName := id, prettyName := fun _ _ => none,
    persistentTypeDir := fun _ => true, diskstats := true, sysfs := fun _ =>
      true, isoTimeFmt := false }

/-- A call with some arguments behind the name. -/
def callWith (args : List Text) : Call :=
  { env := diskEnvironment, argv := [105, 111, 115, 116, 97, 116] :: args }

/-- The call `iostat -d -x -k`. -/
def extendedCall : Call :=
  callWith [[dash, 100], [dash, 120], [dash, 107]]

theorem extendedCall_leaves :
    (iostatMain extendedCall.env extendedCall.argv initial).map
        (fun r => r.2.map (fun s => (s.flags, s.groupNr, s.dlistIdx, s.interval))) =
      .ok (some ({.extended, .kilobytes, .disk, .hasDiskstats}, 0, 0, 0)) := by
  decide +kernel

theorem extendedCall_harmless {s : Statics}
    (hflags : forall flag, flag ∈ s.flags ->
      flag ∈ ({.extended, .kilobytes, .disk, .hasDiskstats} : Finset Flag))
    (hgroups : s.groupNr = 0) (hdevices : s.dlistIdx = 0)
    (hinterval : s.interval = 0) :
    Harmless extendedCall.env extendedCall.argv s where
  flags flag hflag := by
    have hasked : forall x, x ∈ ({.extended, .kilobytes, .disk, .hasDiskstats} :
      Finset Flag) ->
        x ∈ systemFlags ∨ TurnsOn extendedCall.env (items extendedCall.argv) x := by
      decide +kernel
    exact hasked flag (hflags flag hflag)
  groups := hgroups
  devices := Or.inl hdevices
  interval := Or.inl hinterval
  names := by
    have hnone : forall type, storedNames extendedCall.env type none
        (items extendedCall.argv) = [] :=
      fun _ => rfl
    right
    rw [namesAfter, namesAfter, hnone, hnone]

/-- The call `iostat -d -x -k`, again and again. -/
theorem options_by_themselves_extended :
    exists options, iostatRun [extendedCall, extendedCall] initial = .ok options ∧
      List.Forall₂ (fun call o => call.options = .ok o)
        [extendedCall, extendedCall] options := by
  apply options_by_themselves
  · refine ⟨extendedCall_harmless (fun _ h => absurd h (Finset.notMem_empty _))
      rfl rfl rfl, ?_⟩
    intro options s' hcall
    have hleft := extendedCall_leaves
    rw [hcall] at hleft
    injection hleft with hleft
    injection hleft with hleft
    injection hleft with hflags hleft
    injection hleft with hgroups hleft
    injection hleft with hdevices hinterval
    exact ⟨extendedCall_harmless (fun _ h => hflags ▸ h) hgroups hdevices
      hinterval, fun _ _ _ => trivial⟩
  · intro call hcall
    have haccepted : extendedCall.options ≠ .error .exit := by
      decide +kernel
    rcases List.mem_pair.mp hcall with rfl | rfl
    · exact haccepted
    · exact haccepted

/--
The options of `iostat -d -x -k` are still in force for `iostat` after it, and
the list of `iostat sdb` is exceeded after `iostat sda`.
-/
theorem options_left_behind :
    (exists first second, iostatRun [extendedCall, callWith []] initial =
    .ok [first, second] ∧
      (callWith []).options ≠ .ok second) ∧
    iostatRun [callWith [[115, 100, 97]], callWith [[115, 100, 98]]] initial =
      .error .beyond := by
  refine ⟨⟨{ flags := {.extended, .kilobytes, .disk}, dlistIdx := 0,
             groupNr := 0, interval := 0 },
    { flags := {.extended, .kilobytes, .cpu,
    .disk}, dlistIdx := 0, groupNr := 0, interval := 0 }, ?_, ?_⟩, ?_⟩
  · decide +kernel
  · decide +kernel
  · decide +kernel

end Sysstat
end Lepd
