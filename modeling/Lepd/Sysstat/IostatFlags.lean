import Lepd.Sysstat.IostatItems

/-!
# The flags of one call after others

A call goes through its arguments in the same way after other calls, unless it
exceeds its device list, and it ends with the flags that it has by itself, as
long as the flags that are left are among them.
-/

namespace Lepd
namespace Sysstat

open Foundation

variable {left : Finset Flag} {p q q' : Parsing} {env : Environment}

/-!
# All arguments
-/

structure Ready (left asked : Finset Flag) : Prop where
  kilobytes : Flag.kilobytes ∈ left -> Flag.megabytes ∉ asked
  megabytes : Flag.megabytes ∈ left -> Flag.kilobytes ∉ asked

theorem Ready.mono {asked asked' : Finset Flag} (h : Ready left asked)
    (hsub : asked' ⊆ asked) :
    Ready left asked' where
  kilobytes hleft hmem := h.kilobytes hleft (hsub hmem)
  megabytes hleft hmem := h.megabytes hleft (hsub hmem)

theorem Same.processItems {items : List Item}
    (h : Same left (exists item, item ∈ items ∧ item.IsNumber) p q)
    (hready : Ready left (asks items))
    (hq : processItems env items q = .ok q') :
    Follows left False (processItems env items p) q' := by
  induction items generalizing p q with
  | nil =>
      cases hq
      refine Same.follows { h with interval := ?_ }
      rcases h.interval with heq | ⟨_, item, hitem, _⟩
      · exact Or.inl heq
      · cases hitem
  | cons item items ih =>
      rcases ok_of_bind hq with ⟨q1, hq1, hrest⟩
      have hstart : Same left (item.IsNumber ∨ exists item, item ∈ items ∧
        item.IsNumber) p q := by
        refine { h with interval := ?_ }
        rcases h.interval with heq | ⟨hit, x, hx, hnumber⟩
        · exact Or.inl heq
        · rcases List.mem_cons.mp hx with rfl | hx
          · exact Or.inr ⟨hit, Or.inl hnumber⟩
          · exact Or.inr ⟨hit, Or.inr ⟨x, hx, hnumber⟩⟩
      have hitem : Ready left item.asks := hready.mono Finset.subset_union_left
      have hitems : Ready left (asks items) := hready.mono Finset.subset_union_right
      have hfirst := hstart.processItem hitem.kilobytes hitem.megabytes hq1
      exact hfirst.bind (fun p1 h1 => ih h1 hitems hrest)

/-!
# The flags that a call has
-/

def TurnsOn (env : Environment) (items : List Item) (flag : Flag) : Prop :=
  flag ∈ asks items ∨
    ((flag = .cpu ∨ flag = .disk) ∧ Flag.cpu ∉ asks items ∧
    Flag.disk ∉ asks items) ∨
    (flag = .disk ∧
      (Flag.partitions ∈ asks items ∨ Flag.extended ∈ asks items ∨
        Flag.unfiltered ∈ asks items)) ∨
    (flag = .kilobytes ∧ Flag.megabytes ∉ asks items ∧ env.posixlyCorrect = false)

instance (env : Environment) (items : List Item) (flag : Flag) :
    Decidable (TurnsOn env items flag) :=
  inferInstanceAs (Decidable (_ ∨ _))

theorem mem_defaultReports (reportSet : Bool) (flags : Finset Flag) (flag : Flag) :
    flag ∈ defaultReports reportSet flags <->
      flag ∈ flags ∨ ((flag = .cpu ∨ flag = .disk) ∧ reportSet = false) ∨
        (flag = .disk ∧ (Flag.partitions ∈ flags ∨ Flag.extended ∈ flags ∨
          Flag.unfiltered ∈ flags)) := by
  cases reportSet with
  | true =>
      unfold defaultReports
      simp only [if_true]
      split
      · simp only [Finset.mem_union, Finset.mem_singleton]
        tauto
      · tauto
  | false =>
      unfold defaultReports
      simp only [Bool.false_eq_true, if_false, Finset.mem_union,
        Finset.mem_insert, Finset.mem_singleton,
        reduceCtorEq, or_false]
      split
      · simp only [Finset.mem_union, Finset.mem_insert, Finset.mem_singleton]
        tauto
      · simp only [Finset.mem_union, Finset.mem_insert, Finset.mem_singleton]
        tauto

theorem mem_setDiskOutputUnit (env : Environment) (flags : Finset Flag)
    (flag : Flag) :
    flag ∈ setDiskOutputUnit env flags <->
      flag ∈ flags ∨ (flag = .kilobytes ∧ Flag.megabytes ∉ flags ∧
        env.posixlyCorrect = false) := by
  unfold setDiskOutputUnit
  split
  · next hunit =>
      constructor
      · exact Or.inl
      · rintro (hmem | ⟨rfl, hmegabytes, _⟩)
        · exact hmem
        · exact hunit.resolve_right hmegabytes
  · next hunit =>
      rcases not_or.mp hunit with ⟨_, hmegabytes⟩
      cases env.posixlyCorrect with
      | true =>
          simp
      | false =>
          simp only [Bool.false_eq_true, if_false, Finset.mem_union,
            Finset.mem_singleton]
          tauto

def finalFlags (env : Environment) (reportSet : Bool) (flags : Finset Flag) :
    Finset Flag :=
  setDiskOutputUnit env (defaultReports reportSet flags)

theorem mem_finalFlags (env : Environment) (reportSet : Bool)
    (flags : Finset Flag) (flag : Flag) :
    flag ∈ finalFlags env reportSet flags <->
      flag ∈ flags ∨ ((flag = .cpu ∨ flag = .disk) ∧ reportSet = false) ∨
        (flag = .disk ∧ (Flag.partitions ∈ flags ∨ Flag.extended ∈ flags ∨
          Flag.unfiltered ∈ flags)) ∨
        (flag = .kilobytes ∧ Flag.megabytes ∉ flags ∧ env.posixlyCorrect =
          false) := by
  rw [finalFlags, mem_setDiskOutputUnit, mem_defaultReports, mem_defaultReports]
  simp only [reduceCtorEq, false_and, or_false]
  tauto

/-- What an earlier call left adds nothing if the call has it by itself. -/
theorem finalFlags_left {reportSet : Bool} {flags : Finset Flag}
    (hleft : forall flag, flag ∈ left -> flag ∈ systemFlags ∨
    flag ∈ finalFlags env reportSet flags)
    (flag : Flag) (hoption : flag ∉ systemFlags) :
    flag ∈ finalFlags env reportSet (flags ∪ left) <->
      flag ∈ finalFlags env reportSet flags := by
  have hown : forall x, x ∉ systemFlags -> x ≠ .cpu -> x ≠ .disk ->
      x ≠ .kilobytes ->
      x ∈ left -> x ∈ flags := by
    intro x hx hcpu hdisk hkilobytes hmem
    have hfinal := (hleft x hmem).resolve_left hx
    rw [mem_finalFlags] at hfinal
    tauto
  have hpartitions := hown .partitions (by decide) (by decide) (by decide)
    (by decide)
  have hextended := hown .extended (by decide) (by decide) (by decide) (by decide)
  have hunfiltered := hown .unfiltered (by decide) (by decide) (by decide)
    (by decide)
  have hmegabytes := hown .megabytes (by decide) (by decide) (by decide) (by decide)
  have hflag : flag ∈ left -> flag ∈ finalFlags env reportSet flags :=
    fun hmem => (hleft flag hmem).resolve_left hoption
  rw [mem_finalFlags] at hflag ⊢
  rw [mem_finalFlags]
  simp only [Finset.mem_union]
  constructor
  · rintro ((hmem | hmem) | hdefault | ⟨rfl, hshown⟩ | ⟨rfl, hunit, hposix⟩)
    · exact Or.inl hmem
    · exact hflag hmem
    · exact Or.inr (Or.inl hdefault)
    · refine Or.inr (Or.inr (Or.inl ⟨rfl, ?_⟩))
      rcases hshown with (h | h) | (h | h) | (h | h)
      · exact Or.inl h
      · exact Or.inl (hpartitions h)
      · exact Or.inr (Or.inl h)
      · exact Or.inr (Or.inl (hextended h))
      · exact Or.inr (Or.inr h)
      · exact Or.inr (Or.inr (hunfiltered h))
    · exact Or.inr (Or.inr (Or.inr ⟨rfl, fun h => hunit (Or.inl h), hposix⟩))
  · rintro (hmem | hdefault | ⟨rfl, hshown⟩ | ⟨rfl, hunit, hposix⟩)
    · exact Or.inl (Or.inl hmem)
    · exact Or.inr (Or.inl hdefault)
    · refine Or.inr (Or.inr (Or.inl ⟨rfl, ?_⟩))
      rcases hshown with h | h | h
      · exact Or.inl (Or.inl h)
      · exact Or.inr (Or.inl (Or.inl h))
      · exact Or.inr (Or.inr (Or.inl h))
    · refine Or.inr (Or.inr (Or.inr ⟨rfl, ?_, hposix⟩))
      rintro (h | h)
      · exact hunit h
      · exact hunit (hmegabytes h)

/-!
# One call
-/

/-- The arguments of a call, one after the other. -/
def items (argv : List Text) : List Item :=
  readItems (argv.drop 1)

def listFor (argv : List Text) (s : Statics) : List Text :=
  if 1 < argv.length then List.replicate
    ((argv.drop 1).length + countCsvalues (argv.drop 1)) [] else s.devList

def pointerFor (argv : List Text) (s : Statics) : ListPointer :=
  if 1 < argv.length then .allocated else s.listPointer

def begin (argv : List Text) (s : Statics) : Parsing :=
  { statics := { s with devList := listFor argv s,
                        listPointer := pointerFor argv s }
    it := 0, count := 1, reportSet := false }

theorem parseArgs_eq (env : Environment) (argv : List Text) (s : Statics) :
    parseArgs env argv s = processItems env (items argv) (begin argv s) >>=
      finishArgs env := by
  have hstatics : (if 1 < argv.length then
      sallocDevList ((argv.drop 1).length + countCsvalues (argv.drop 1)) s else s) =
        { s with devList := listFor argv s, listPointer := pointerFor argv s } := by
    unfold listFor pointerFor
    split <;> rfl
  rw [begin, ← hstatics]
  rfl

theorem mem_ownFlags {argv : List Text} {q : Parsing}
    (h : Adds (asks (items argv)) (begin argv initial) q) (flag : Flag) :
    flag ∈ finalFlags env q.reportSet q.statics.flags <->
      TurnsOn env (items argv) flag := by
  have hflags : q.statics.flags = asks (items argv) := by
    rw [h.flags]
    exact Finset.empty_union _
  have hreport : q.reportSet = false <->
      Flag.cpu ∉ asks (items argv) ∧ Flag.disk ∉ asks (items argv) := by
    rw [← Bool.not_eq_true, h.reportSet, not_or, not_or]
    exact and_iff_right Bool.false_ne_true
  rw [mem_finalFlags, hflags, hreport]
  rfl

theorem UnitsApart.processItem {item : Item} (h : UnitsApart q)
    (hq : processItem env item q = .ok q') :
    UnitsApart q' := by
  have hadds := (processItem_adds hq).flags
  have hother : Flag.kilobytes ∉ item.asks -> Flag.megabytes ∉ item.asks ->
      UnitsApart q' := by
    intro hk hm
    rw [UnitsApart, hadds, Finset.mem_union, Finset.mem_union]
    rintro ⟨hkilobytes, hmegabytes⟩
    exact h ⟨hkilobytes.resolve_right hk, hmegabytes.resolve_right hm⟩
  cases item with
  | letters cs =>
      exact UnitsApart.processLetters h hq
  | partitions names =>
      cases names with
      | none =>
          exact hother (by decide) (by decide)
      | some names =>
          apply hother
          · rw [Item.asks]
            split <;> decide
          · rw [Item.asks]
            split <;> decide
  | persistent type =>
      exact hother (by decide : Flag.kilobytes ∉ ({.persistName, .humanRead} :
        Finset Flag))
        (by decide : Flag.megabytes ∉ ({.persistName, .humanRead} : Finset Flag))
  | output format =>
      exact hother (by decide : Flag.kilobytes ∉ ({.jsonOutput} : Finset Flag))
        (by decide : Flag.megabytes ∉ ({.jsonOutput} : Finset Flag))
  | device name =>
      exact hother (by decide : Flag.kilobytes ∉ ({.unfiltered} : Finset Flag))
        (by decide : Flag.megabytes ∉ ({.unfiltered} : Finset Flag))
  | group name | number text =>
      exact hother (Finset.notMem_empty _) (Finset.notMem_empty _)

theorem UnitsApart.processItems {items : List Item} (h : UnitsApart q)
    (hq : processItems env items q = .ok q') : UnitsApart q' := by
  induction items generalizing q with
  | nil =>
      cases hq
      exact h
  | cons item items ih =>
      rcases ok_of_bind hq with ⟨q1, hq1, hrest⟩
      exact ih (h.processItem hq1) hrest

theorem units_apart {argv : List Text}
    (h : processItems env (items argv) (begin argv initial) = .ok q) :
    ¬ (Flag.kilobytes ∈ asks (items argv) ∧ Flag.megabytes ∈
      asks (items argv)) := by
  have hstart : UnitsApart (begin argv initial) := by
    rintro ⟨hkilobytes, _⟩
    exact absurd hkilobytes (Finset.notMem_empty _)
  have hend := hstart.processItems h
  have hflags : q.statics.flags = asks (items argv) := by
    rw [(processItems_adds h).flags]
    exact Finset.empty_union _
  rw [UnitsApart, hflags] at hend
  exact hend

end Sysstat
end Lepd
