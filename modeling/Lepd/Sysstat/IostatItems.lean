import Lepd.Sysstat.Iostat

/-!
# What one argument does

Each argument adds its own flags, and the names that it has go into the device list.
-/

namespace Lepd
namespace Sysstat

open Foundation

/-!
# Results
-/

theorem ok_of_bind {value result : Type} {x : Except Stop value}
    {f : value -> Except Stop result} {r : result}
    (h : x >>= f = .ok r) : exists a, x = .ok a ∧ f a = .ok r := by
  cases x with
  | error stop =>
      cases h
  | ok a =>
      exact ⟨a, rfl, h⟩

theorem error_of_bind {value result : Type} {x : Except Stop value}
    {f : value -> Except Stop result}
    {stop : Stop} (h : x >>= f = .error stop) :
    x = .error stop ∨ exists a, x = .ok a ∧ f a = .error stop := by
  cases x with
  | error stop' =>
      cases h
      exact Or.inl rfl
  | ok a =>
      exact Or.inr ⟨a, rfl, h⟩

/-!
# The device list
-/

def Statics.withList (s : Statics) (idx : Nat) (list : List Text) : Statics :=
  { s with dlistIdx := idx, devList := list }

/-- The search finds the first of the entries that is the name, or it ends
behind them. -/
theorem findEntry_eq (name : Text) (list : List Text) (n : Nat) :
    findEntry name list n =
      if name ∈ list.take n then .ok (list.idxOf name)
      else if n <= list.length then .ok n
      else .error .beyond := by
  induction list generalizing n with
  | nil =>
      cases n with
      | zero =>
          rfl
      | succ n =>
          rfl
  | cons entry list ih =>
      cases n with
      | zero =>
          rfl
      | succ n =>
          rw [findEntry, List.take_succ_cons, List.length_cons]
          by_cases hfound : entry = name
          · rw [if_pos hfound, if_pos (List.mem_cons.mpr (Or.inl hfound.symm)),
              hfound, List.idxOf_cons_self]
          · rw [if_neg hfound, ih, List.idxOf_cons_ne _ hfound]
            have hmem : name ∈ entry :: list.take n <-> name ∈ list.take n := by
              rw [List.mem_cons, or_iff_right (Ne.symm hfound)]
            simp only [hmem, Nat.add_le_add_iff_right]
            split
            · rfl
            · split <;> rfl

/-- A name is stored behind the names in the list, if it is not among them. -/
theorem updateDevList_eq (name : Text) (s : Statics) :
    updateDevList name s =
      if name ∈ s.devList.take s.dlistIdx then .ok s
      else if s.dlistIdx < s.devList.length then
        .ok (s.withList (s.dlistIdx + 1)
          (s.devList.set s.dlistIdx (name.take (maxNameLen - 1))))
      else .error .beyond := by
  rw [updateDevList, findEntry_eq]
  by_cases hfound : name ∈ s.devList.take s.dlistIdx
  · rw [if_pos hfound, if_pos hfound]
    have hless : s.devList.idxOf name < s.dlistIdx := by
      have htake := List.idxOf_lt_length_iff.mpr hfound
      rw [List.IsPrefix.idxOf_eq_of_mem (List.take_prefix _ _) hfound] at htake
      exact lt_of_lt_of_le htake (List.length_take_le _ _)
    exact if_neg (Nat.ne_of_lt hless)
  · rw [if_neg hfound, if_neg hfound]
    by_cases hend : s.dlistIdx <= s.devList.length
    · rw [if_pos hend]
      exact if_pos rfl
    · rw [if_neg hend, if_neg (fun hless => hend (le_of_lt hless))]
      rfl

theorem updateDevList_cases (name : Text) (s : Statics) :
    updateDevList name s = .error .beyond ∨
      exists idx list, updateDevList name s = .ok (s.withList idx list) ∧
        list.length = s.devList.length := by
  rw [updateDevList_eq]
  split
  · exact Or.inr ⟨s.dlistIdx, s.devList, rfl, rfl⟩
  · split
    · exact Or.inr ⟨_, _, rfl, List.length_set⟩
    · exact Or.inl rfl

/-- With room for one more name the list is not exceeded, and it grows by one at
most. -/
theorem updateDevList_room (name : Text) {s : Statics}
    (h : s.dlistIdx < s.devList.length) :
    exists s', updateDevList name s = .ok s' ∧ s'.dlistIdx <= s.dlistIdx + 1 ∧
      s'.devList.length = s.devList.length ∧ s'.groupNr = s.groupNr := by
  rw [updateDevList_eq, if_pos h]
  split
  · exact ⟨s, rfl, Nat.le_succ _, rfl, rfl⟩
  · exact ⟨_, rfl, le_refl _, List.length_set, rfl⟩

/-!
# Flags
-/

def letterAsks (c : UInt8) : Finset Flag :=
  ((letterFlags c).map Prod.fst).getD ∅

def lettersAsk : List UInt8 -> Finset Flag
  | [] => ∅
  | c :: cs => letterAsks c ∪ lettersAsk cs

def Item.asks : Item -> Finset Flag
  | .partitions none => {.partitions, .partAll}
  | .partitions (some names) =>
      {.partitions, .unfiltered} ∪ (if kAll ∈ names then {.partAll} else ∅)
  | .group _ => ∅
  | .persistent _ => {.persistName, .humanRead}
  | .output _ => {.jsonOutput}
  | .letters cs => lettersAsk cs
  | .device _ => {.unfiltered}
  | .number _ => ∅

def asks : List Item -> Finset Flag
  | [] => ∅
  | item :: items => item.asks ∪ asks items

theorem processLetter_ok {c : UInt8} {p p' : Parsing}
    (h : processLetter c p = .ok p') :
    exists report, letterFlags c = some (letterAsks c, report) ∧
      p' = { p.addFlags (letterAsks c) with reportSet := p.reportSet || report } ∧
      ¬ ((c = 107 ∧ Flag.megabytes ∈ p.statics.flags) ∨
        (c = 109 ∧ Flag.kilobytes ∈ p.statics.flags)) := by
  unfold processLetter at h
  split at h
  · cases h
  · next flags report hletter =>
      have hasks : letterAsks c = flags := by
        rw [letterAsks, hletter]
        rfl
      split at h
      · cases h
      · next hunits =>
          cases h
          exact ⟨report, hasks ▸ hletter, hasks ▸ rfl, hunits⟩

/-!
# What is added
-/

structure Adds (added : Finset Flag) (q q' : Parsing) : Prop where
  flags : q'.statics.flags = q.statics.flags ∪ added
  reportSet : q'.reportSet = true <-> q.reportSet = true ∨ Flag.cpu ∈ added ∨
    Flag.disk ∈ added
  listPointer : q'.statics.listPointer = q.statics.listPointer
  listLength : q'.statics.devList.length = q.statics.devList.length

variable {left : Finset Flag} {replaced more : Prop} {p q q' : Parsing}
  {env : Environment}

theorem Adds.trans {flags flags' : Finset Flag} {q1 : Parsing}
    (h : Adds flags q q1) (h' : Adds flags' q1 q') :
    Adds (flags ∪ flags') q q' where
  flags := by
    rw [h'.flags, h.flags, Finset.union_assoc]
  reportSet := by
    rw [h'.reportSet, h.reportSet, Finset.mem_union, Finset.mem_union]
    tauto
  listPointer := h'.listPointer.trans h.listPointer
  listLength := h'.listLength.trans h.listLength

theorem Adds.nothing (hflags : q'.statics.flags = q.statics.flags)
    (hreport : q'.reportSet = q.reportSet)
    (hpointer : q'.statics.listPointer = q.statics.listPointer)
    (hlength : q'.statics.devList.length = q.statics.devList.length) :
    Adds ∅ q q' where
  flags := hflags.trans (Finset.union_empty _).symm
  reportSet := by
    have hcpu := Finset.notMem_empty Flag.cpu
    have hdisk := Finset.notMem_empty Flag.disk
    rw [hreport]
    tauto
  listPointer := hpointer
  listLength := hlength

theorem adds_addFlags {flags : Finset Flag} (hcpu : Flag.cpu ∉ flags)
    (hdisk : Flag.disk ∉ flags) :
    Adds flags q (q.addFlags flags) where
  flags := rfl
  reportSet := by
    show q.reportSet = true <-> _
    tauto
  listPointer := rfl
  listLength := rfl

theorem Adds.union_empty {flags : Finset Flag} (h : Adds (flags ∪ ∅) q q') :
    Adds flags q q' := by
  rw [Finset.union_empty] at h
  exact h

theorem update_adds {name : Statics -> Text}
    (hq : q.update (fun s => updateDevList (name s) s) = .ok q') : Adds ∅ q q' := by
  rcases ok_of_bind hq with ⟨s, hs, hrest⟩
  cases hrest
  rcases updateDevList_cases (name q.statics) q.statics with
    hbeyond | ⟨idx, list, hok, hlength⟩
  · cases hbeyond.symm.trans hs
  · cases hok.symm.trans hs
    exact .nothing rfl rfl rfl hlength

theorem storeNames_adds {names : List Text} (hq : storeNames env names q = .ok q') :
    Adds (if kAll ∈ names then {.partAll} else ∅) q q' := by
  induction names generalizing q with
  | nil =>
      cases hq
      exact .nothing rfl rfl rfl rfl
  | cons name names ih =>
      rw [storeNames] at hq
      by_cases hall : name = kAll
      · rw [if_pos hall] at hq
        have hadds := (adds_addFlags (q := q) (by decide) (by decide)).trans (ih hq)
        rw [if_pos (List.mem_cons.mpr (Or.inl hall.symm))]
        split at hadds
        · rw [Finset.union_self] at hadds
          exact hadds
        · exact hadds.union_empty
      · rw [if_neg hall] at hq
        rcases ok_of_bind hq with ⟨q1, hq1, hrest⟩
        have hstored : Adds ∅ q q1 := update_adds hq1
        have hadds := hstored.trans (ih hrest)
        rw [Finset.empty_union] at hadds
        simp only [List.mem_cons, Ne.symm hall, false_or]
        exact hadds

theorem persistName_not_asked (c : UInt8) : Flag.persistName ∉ letterAsks c := by
  have hbytes : forall n, n < 256 ->
      Flag.persistName ∉ letterAsks (UInt8.ofNat n) := by
    decide +kernel
  have hc := hbytes c.toNat c.toNat_lt
  rw [UInt8.ofNat_toNat] at hc
  exact hc

theorem letterAsks_unit (c : UInt8) :
    (Flag.kilobytes ∈ letterAsks c -> c = 107) ∧
    (Flag.megabytes ∈ letterAsks c -> c = 109) := by
  have hbytes : forall n, n < 256 ->
      (Flag.kilobytes ∈ letterAsks (UInt8.ofNat n) -> UInt8.ofNat n = 107) ∧
        (Flag.megabytes ∈ letterAsks (UInt8.ofNat n) -> UInt8.ofNat n = 109) := by
    decide +kernel
  have hc := hbytes c.toNat c.toNat_lt
  rw [UInt8.ofNat_toNat] at hc
  exact hc

theorem letter_report {c : UInt8} {flags : Finset Flag} {report : Bool}
    (h : letterFlags c = some (flags, report)) :
    report = true <-> Flag.cpu ∈ flags ∨ Flag.disk ∈ flags := by
  have hbytes : forall n, n < 256 -> forall r, r ∈ letterFlags (UInt8.ofNat n) ->
      (r.2 = true <-> Flag.cpu ∈ r.1 ∨ Flag.disk ∈ r.1) := by
    decide +kernel
  have hc := hbytes c.toNat c.toNat_lt (flags, report)
  rw [UInt8.ofNat_toNat] at hc
  exact hc h

theorem letterAsks_kilobytes : Flag.kilobytes ∈ letterAsks 107 := by
  decide

theorem letterAsks_megabytes : Flag.megabytes ∈ letterAsks 109 := by
  decide

theorem processLetter_adds {c : UInt8} (hq : processLetter c q = .ok q') :
    Adds (letterAsks c) q q' := by
  rcases processLetter_ok hq with ⟨report, hletter, rfl, _⟩
  refine ⟨rfl, ?_, rfl, rfl⟩
  rw [Bool.or_eq_true, letter_report hletter]

theorem processLetters_adds {cs : List UInt8} (hq : processLetters cs q = .ok q') :
    Adds (lettersAsk cs) q q' := by
  induction cs generalizing q with
  | nil =>
      cases hq
      exact .nothing rfl rfl rfl rfl
  | cons c cs ih =>
      rcases ok_of_bind hq with ⟨q1, hq1, hrest⟩
      exact (processLetter_adds hq1).trans (ih hrest)

theorem saveGroup_adds (hq : saveGroup q = .ok q') : Adds ∅ q q' := by
  unfold saveGroup at hq
  split at hq
  · exact update_adds hq
  · cases hq
    exact .nothing rfl rfl rfl rfl

theorem processItem_adds {item : Item} (hq : processItem env item q = .ok q') :
    Adds item.asks q q' := by
  cases item with
  | partitions names =>
      cases names with
      | none =>
          cases hq
          exact adds_addFlags (by decide) (by decide)
      | some names =>
          exact (adds_addFlags (by decide) (by decide)).trans (storeNames_adds hq)
  | group name =>
      rcases ok_of_bind hq with ⟨q1, hq1, hrest⟩
      cases name with
      | none =>
          cases hrest
      | some name =>
          cases hrest
          have hadds := saveGroup_adds hq1
          exact ⟨hadds.flags, hadds.reportSet, hadds.listPointer, hadds.listLength⟩
  | persistent type =>
      cases type with
      | none =>
          cases hq
      | some type =>
          rw [processItem] at hq
          split at hq
          · cases hq
          · split at hq
            · cases hq
              have hadds : Adds {.persistName, .humanRead} q
                  (q.addFlags {.persistName, .humanRead}) :=
                adds_addFlags (by decide) (by decide)
              exact { hadds with }
            · cases hq
  | output format =>
      rw [processItem] at hq
      split at hq
      · cases hq
        have hadds : Adds {.jsonOutput} q (q.addFlags {.jsonOutput}) :=
          adds_addFlags (by decide) (by decide)
        exact hadds
      · cases hq
  | letters cs =>
      exact processLetters_adds hq
  | device name =>
      have hadds : Adds {.unfiltered} q (q.addFlags {.unfiltered}) :=
        adds_addFlags (by decide) (by decide)
      rw [processItem] at hq
      split at hq
      · cases hq
        exact hadds
      · exact (hadds.trans (update_adds hq)).union_empty
  | number text =>
      rw [processItem] at hq
      split at hq
      · split at hq
        · cases hq
        · cases hq
          exact .nothing rfl rfl rfl rfl
      · split at hq
        · split at hq
          · cases hq
          · cases hq
            exact .nothing rfl rfl rfl rfl
        · cases hq

theorem processItems_adds {items : List Item}
    (hq : processItems env items q = .ok q') :
    Adds (asks items) q q' := by
  induction items generalizing q with
  | nil =>
      cases hq
      exact .nothing rfl rfl rfl rfl
  | cons item items ih =>
      rcases ok_of_bind hq with ⟨q1, hq1, hrest⟩
      exact (processItem_adds hq1).trans (ih hrest)

/-!
# Two histories
-/

/--
A call with a history and the same call without one. The history has left some
flags, and an interval that one of the arguments still to come replaces; the
lists may differ.
-/
structure Same (left : Finset Flag) (replaced : Prop) (p q : Parsing) : Prop where
  flags : p.statics.flags = q.statics.flags ∪ left
  groupNr : p.statics.groupNr = q.statics.groupNr
  interval : p.statics.interval = q.statics.interval ∨ (q.it = 0 ∧ replaced)
  it : p.it = q.it
  count : p.count = q.count
  reportSet : p.reportSet = q.reportSet

/-- The call with a history exceeds its list, or it stays the same. -/
def Follows (left : Finset Flag) (replaced : Prop) (found : Except Stop Parsing)
    (q : Parsing) : Prop :=
  found = .error .beyond ∨ exists p, found = .ok p ∧ Same left replaced p q

theorem Same.follows (h : Same left replaced p q) :
    Follows left replaced (.ok p) q :=
  Or.inr ⟨p, rfl, h⟩

theorem Follows.bind {found : Except Stop Parsing}
    {next : Parsing -> Except Stop Parsing}
    (h : Follows left replaced found q)
    (hnext : forall p, Same left replaced p q -> Follows left more (next p) q') :
    Follows left more (found >>= next) q' := by
  rcases h with hbeyond | ⟨p, hp, hsame⟩
  · left
    rw [hbeyond]
    rfl
  · rw [hp]
    exact hnext p hsame

theorem Same.addFlags (h : Same left replaced p q) (flags : Finset Flag) :
    Same left replaced (p.addFlags flags) (q.addFlags flags) :=
  { h with
    flags := by
      show p.statics.flags ∪ flags = q.statics.flags ∪ flags ∪ left
      rw [h.flags, Finset.union_right_comm] }

theorem Same.update (h : Same left replaced p q) {name name' : Statics -> Text}
    (hq : q.update (fun s => updateDevList (name s) s) = .ok q') :
    Follows left replaced (p.update (fun s => updateDevList (name' s) s)) q' := by
  rcases ok_of_bind hq with ⟨s, hs, hrest⟩
  cases hrest
  rcases updateDevList_cases (name q.statics) q.statics with
    hbeyond | ⟨idx, list, hok, _⟩
  · cases hbeyond.symm.trans hs
  cases hok.symm.trans hs
  rcases updateDevList_cases (name' p.statics) p.statics with
    hbeyond | ⟨idx', list', hok', _⟩
  · left
    rw [Parsing.update, hbeyond]
    rfl
  · right
    refine ⟨{ p with statics := p.statics.withList idx' list' }, ?_, { h with }⟩
    rw [Parsing.update, hok']
    rfl

theorem Same.storeNames (h : Same left replaced p q) {names : List Text}
    (hq : storeNames env names q = .ok q') :
    Follows left replaced (storeNames env names p) q' := by
  induction names generalizing p q with
  | nil =>
      cases hq
      exact h.follows
  | cons name names ih =>
      rw [Sysstat.storeNames] at hq ⊢
      by_cases hall : name = kAll
      · rw [if_pos hall] at hq ⊢
        exact ih (h.addFlags _) hq
      · rw [if_neg hall] at hq ⊢
        rcases ok_of_bind hq with ⟨q1, hq1, hrest⟩
        have hstored : Follows left replaced (storeName env name p) q1 :=
          h.update hq1
        exact hstored.bind (fun p1 h1 => ih h1 hrest)

theorem Same.processLetter (h : Same left replaced p q) {c : UInt8}
    (hkilobytes : Flag.kilobytes ∈ left -> Flag.megabytes ∉ letterAsks c)
    (hmegabytes : Flag.megabytes ∈ left -> Flag.kilobytes ∉ letterAsks c)
    (hq : processLetter c q = .ok q') :
    Follows left replaced (processLetter c p) q' := by
  rcases processLetter_ok hq with ⟨report, hletter, rfl, hunits⟩
  have hflags := h.addFlags (letterAsks c)
  have hother : ¬ ((c = 107 ∧ Flag.megabytes ∈ p.statics.flags) ∨
      (c = 109 ∧ Flag.kilobytes ∈ p.statics.flags)) := by
    rw [h.flags, Finset.mem_union, Finset.mem_union]
    rintro (⟨hc, hmem | hmem⟩ | ⟨hc, hmem | hmem⟩)
    · exact hunits (Or.inl ⟨hc, hmem⟩)
    · exact hmegabytes hmem (hc ▸ letterAsks_kilobytes)
    · exact hunits (Or.inr ⟨hc, hmem⟩)
    · exact hkilobytes hmem (hc ▸ letterAsks_megabytes)
  right
  refine ⟨{ p.addFlags (letterAsks c) with reportSet := p.reportSet || report },
    ?_, ?_⟩
  · rw [Sysstat.processLetter, hletter]
    exact if_neg hother
  · exact { hflags with reportSet := congrArg (fun set => set || report) h.reportSet }

theorem Same.processLetters (h : Same left replaced p q) {cs : List UInt8}
    (hkilobytes : Flag.kilobytes ∈ left -> Flag.megabytes ∉ lettersAsk cs)
    (hmegabytes : Flag.megabytes ∈ left -> Flag.kilobytes ∉ lettersAsk cs)
    (hq : processLetters cs q = .ok q') :
    Follows left replaced (processLetters cs p) q' := by
  induction cs generalizing p q with
  | nil =>
      cases hq
      exact h.follows
  | cons c cs ih =>
      rcases ok_of_bind hq with ⟨q1, hq1, hrest⟩
      have hhead : forall {flag : Flag}, flag ∉ lettersAsk (c :: cs) ->
          flag ∉ letterAsks c :=
        fun hnot hmem => hnot (Finset.mem_union_left _ hmem)
      have htail : forall {flag : Flag}, flag ∉ lettersAsk (c :: cs) ->
          flag ∉ lettersAsk cs :=
        fun hnot hmem => hnot (Finset.mem_union_right _ hmem)
      have hletter := h.processLetter (fun hleft => hhead (hkilobytes hleft))
        (fun hleft => hhead (hmegabytes hleft)) hq1
      exact hletter.bind (fun p1 h1 => ih h1 (fun hleft => htail (hkilobytes hleft))
        (fun hleft => htail (hmegabytes hleft)) hrest)

def UnitsApart (q : Parsing) : Prop :=
  ¬ (Flag.kilobytes ∈ q.statics.flags ∧ Flag.megabytes ∈ q.statics.flags)

theorem UnitsApart.processLetters {cs : List UInt8} (h : UnitsApart q)
    (hq : processLetters cs q = .ok q') : UnitsApart q' := by
  induction cs generalizing q with
  | nil =>
      cases hq
      exact h
  | cons c cs ih =>
      rcases ok_of_bind hq with ⟨q1, hq1, hrest⟩
      refine ih ?_ hrest
      rcases processLetter_ok hq1 with ⟨report, _, rfl, hunits⟩
      rcases letterAsks_unit c with ⟨hkilobytes, hmegabytes⟩
      rintro ⟨hk, hm⟩
      rcases Finset.mem_union.mp hk with hk | hk
      · rcases Finset.mem_union.mp hm with hm | hm
        · exact h ⟨hk, hm⟩
        · exact hunits (Or.inr ⟨hmegabytes hm, hk⟩)
      · rcases Finset.mem_union.mp hm with hm | hm
        · exact hunits (Or.inl ⟨hkilobytes hk, hm⟩)
        · have hsame := (hkilobytes hk).symm.trans (hmegabytes hm)
          exact absurd hsame (by decide)

/-!
# Arguments
-/

def Item.IsNumber : Item -> Prop
  | .number _ => True
  | _ => False

theorem Same.saveGroup (h : Same left more p q) (hq : saveGroup q = .ok q') :
    Follows left more (saveGroup p) q' := by
  unfold Sysstat.saveGroup at hq ⊢
  rw [h.groupNr]
  split at hq
  · next hgroup =>
      rw [if_pos hgroup]
      exact h.update hq
  · next hgroup =>
      cases hq
      rw [if_neg hgroup]
      exact h.follows

theorem Same.processGroup {name : Option Text} (h : Same left more p q)
    (hq : processItem env (.group name) q = .ok q') :
    Follows left more (processItem env (.group name) p) q' := by
  rcases ok_of_bind hq with ⟨q1, hq1, hrest⟩
  refine (h.saveGroup hq1).bind (fun p1 h1 => ?_)
  cases name with
  | none =>
      cases hrest
  | some name =>
      cases hrest
      exact Same.follows { h1 with groupNr := congrArg Nat.succ h1.groupNr }

theorem Same.processPersistent {type : Option Text} (h : Same left more p q)
    (hq : processItem env (.persistent type) q = .ok q') :
    Follows left more (processItem env (.persistent type) p) q' := by
  cases type with
  | none =>
      cases hq
  | some type =>
      rw [Sysstat.processItem] at hq ⊢
      split at hq
      · cases hq
      · next hlength =>
          split at hq
          · next hdir =>
              cases hq
              rw [if_neg hlength, if_pos hdir]
              have hflags := h.addFlags {.persistName, .humanRead}
              exact Same.follows { hflags with }
          · cases hq

/-- A number is the interval or, behind one, the count; it replaces what was
left of the interval. -/
theorem Same.processNumber {number : Prop} {text : Text}
    (h : Same left (number ∨ more) p q)
    (hq : processItem env (.number text) q = .ok q') :
    Follows left more (processItem env (.number text) p) q' := by
  rw [Sysstat.processItem] at hq ⊢
  rw [h.it]
  by_cases hfirst : q.it = 0
  · rw [if_pos hfirst] at hq ⊢
    split at hq
    · cases hq
    · next hnegative =>
        cases hq
        rw [if_neg hnegative]
        exact Same.follows
          { h with interval := Or.inl rfl, it := rfl, count := rfl }
  · have hinterval := h.interval.resolve_right
      (fun hreplaced => hfirst hreplaced.left)
    rw [if_neg hfirst] at hq ⊢
    rw [hinterval]
    split at hq
    · next hpositive =>
        split at hq
        · cases hq
        · next hbad =>
            cases hq
            rw [if_pos hpositive, if_neg hbad]
            exact Same.follows
              { h with interval := Or.inl hinterval, it := rfl, count := rfl }
    · cases hq

theorem Same.processItem {item : Item} (h : Same left (item.IsNumber ∨ more) p q)
    (hkilobytes : Flag.kilobytes ∈ left -> Flag.megabytes ∉ item.asks)
    (hmegabytes : Flag.megabytes ∈ left -> Flag.kilobytes ∉ item.asks)
    (hq : processItem env item q = .ok q') :
    Follows left more (processItem env item p) q' := by
  have hbefore : ¬ item.IsNumber -> Same left more p q := by
    intro hnumber
    refine { h with interval := ?_ }
    rcases h.interval with heq | ⟨hit, hleft | hmore⟩
    · exact Or.inl heq
    · exact absurd hleft hnumber
    · exact Or.inr ⟨hit, hmore⟩
  cases item with
  | partitions names =>
      have hsame := hbefore (fun h => h)
      cases names with
      | none =>
          cases hq
          exact (hsame.addFlags _).follows
      | some names =>
          have hstored : Sysstat.storeNames env names
              (q.addFlags {.partitions, .unfiltered}) = .ok q' := hq
          exact (hsame.addFlags _).storeNames hstored
  | group name =>
      exact (hbefore (fun h => h)).processGroup hq
  | persistent type =>
      exact (hbefore (fun h => h)).processPersistent hq
  | output format =>
      rw [Sysstat.processItem] at hq ⊢
      split at hq
      · next hformat =>
          cases hq
          rw [if_pos hformat]
          exact ((hbefore (fun h => h)).addFlags {.jsonOutput}).follows
      · cases hq
  | letters cs =>
      exact (hbefore (fun h => h)).processLetters hkilobytes hmegabytes hq
  | device name =>
      have hstart := (hbefore (fun h => h)).addFlags {.unfiltered}
      rw [Sysstat.processItem] at hq ⊢
      split at hq
      · next hall =>
          cases hq
          rw [if_pos hall]
          exact hstart.follows
      · next hall =>
          rw [if_neg hall]
          exact hstart.update hq
  | number text =>
      exact h.processNumber hq

end Sysstat
end Lepd
