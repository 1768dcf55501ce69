import Lepd.Sysstat.IostatItems

/-!
# The names in the device list

The device list of a call has the different names that its arguments store,
behind the entries that the index of earlier calls skips.
-/

namespace Lepd
namespace Sysstat

open Foundation

variable {env : Environment} {cap : Nat} {entries : List Text}

/-!
# The names of the arguments
-/

def Statics.nameType (s : Statics) : Option Text :=
  if Flag.persistName ∈ s.flags then some s.persistentNameType else none

def Statics.group (s : Statics) : Option Text :=
  if 0 < s.groupNr then some s.groupName else none

def nameUnder (env : Environment) (type : Option Text) (name : Text) : Text :=
  match type with
  | none => env.deviceName name
  | some type =>
      (env.prettyName type (env.deviceName name)).getD (env.deviceName name)

def Item.names (env : Environment) (type group : Option Text) : Item -> List Text
  | .partitions (some names) =>
      (names.filter (fun name => name ≠ kAll)).map (nameUnder env type)
  | .group _ => group.toList
  | .device name => if name = kAll then [] else [nameUnder env type name]
  | _ => []

def Item.nextType (type : Option Text) : Item -> Option Text
  | .persistent (some name) => some (strtolower name)
  | _ => type

def Item.nextGroup (group : Option Text) : Item -> Option Text
  | .group (some name) => some (32 :: name.take (maxNameLen - 2))
  | _ => group

/-- The names that arguments store, with the type of names and the group in
force before them. -/
def storedNames (env : Environment) (type group : Option Text) :
    List Item -> List Text
  | [] => []
  | item :: items =>
      item.names env type group ++ storedNames env (item.nextType type)
        (item.nextGroup group) items

/-- Store a name behind the entries, if it is not among them. -/
def store (entries : List Text) (name : Text) : List Text :=
  if entries.contains name then entries else entries ++ [name.take (maxNameLen - 1)]

def listed (entries names : List Text) : List Text :=
  names.foldl store entries

theorem listed_append (entries names more : List Text) :
    listed entries (names ++ more) = listed (listed entries names) more :=
  List.foldl_append

theorem length_listed (entries names : List Text) :
    entries.length <= (listed entries names).length := by
  induction names generalizing entries with
  | nil =>
      exact le_refl _
  | cons name names ih =>
      have hstore : entries.length <= (store entries name).length := by
        rw [store]
        split
        · exact le_refl _
        · rw [List.length_append]
          exact Nat.le_add_right _ _
      exact hstore.trans (ih _)

/-!
# The device list of a call
-/

/-- A list for so many names has the entries, as far as there is room for them. -/
structure Listed (cap : Nat) (entries : List Text) (s : Statics) : Prop where
  idx : s.dlistIdx = entries.length
  list : s.devList = (entries ++ List.replicate (cap - entries.length) []).take cap

variable {type group : Option Text}

/-- Names are stored, or there is no room for them; the type of names and the
group are known. -/
def Stores (cap : Nat) (entries names : List Text) (type group : Option Text) :
    Except Stop Parsing -> Prop
  | .ok p =>
      Listed cap (listed entries names) p.statics ∧ p.statics.nameType = type ∧
        p.statics.group = group
  | .error stop =>
      stop = .beyond -> names ≠ [] ∧ cap < (listed entries names).length

theorem Stores.bind {names more : List Text} {type' group' : Option Text}
    {found : Except Stop Parsing}
    {next : Parsing -> Except Stop Parsing}
    (h : Stores cap entries names type group found)
    (hnext : forall p, Listed cap (listed entries names) p.statics ->
    p.statics.nameType = type ->
      p.statics.group = group -> Stores cap (listed entries names) more type'
        group' (next p)) :
    Stores cap entries (names ++ more) type' group' (found >>= next) := by
  cases found with
  | error stop =>
      intro hbeyond
      rcases h hbeyond with ⟨hnames, hcap⟩
      refine ⟨fun hnil => hnames (List.append_eq_nil_iff.mp hnil).left, ?_⟩
      rw [listed_append]
      exact lt_of_lt_of_le hcap (length_listed _ _)
  | ok p =>
      rcases h with ⟨hlisted, htype, hgroup⟩
      have hmore := hnext p hlisted htype hgroup
      show Stores cap entries (names ++ more) type' group' (next p)
      cases hresult : next p with
      | error stop =>
          rw [hresult] at hmore
          intro hbeyond
          rcases hmore hbeyond with ⟨hmore, hcap⟩
          rw [listed_append]
          exact ⟨fun hnil => hmore (List.append_eq_nil_iff.mp hnil).right, hcap⟩
      | ok p' =>
          rw [hresult] at hmore
          show Listed cap (listed entries (names ++ more)) p'.statics ∧ _
          rw [listed_append]
          exact hmore

theorem stores_nothing {p : Parsing} (h : Listed cap entries p.statics)
    (htype : p.statics.nameType = type)
    (hgroup : p.statics.group = group) : Stores cap entries [] type group (.ok p) :=
  ⟨h, htype, hgroup⟩

/-- One name is stored behind the entries, or it would be the first without room. -/
theorem Listed.updateDevList {s : Statics} (h : Listed cap entries s)
    (name : Text) :
    (updateDevList name s = .error .beyond ∧ cap < (store entries name).length) ∨
      exists idx list, updateDevList name s = .ok (s.withList idx list) ∧
        Listed cap (store entries name) (s.withList idx list) := by
  have htaken : s.devList.take s.dlistIdx = entries.take cap := by
    rw [h.idx, h.list, List.take_take, Nat.min_comm, ← List.take_take,
      List.take_left]
  have hlength : s.devList.length = cap := by
    rw [h.list, List.length_take, List.length_append, List.length_replicate]
    omega
  rw [updateDevList_eq, htaken, hlength, h.idx]
  by_cases hfound : name ∈ entries.take cap
  · right
    refine ⟨s.dlistIdx, s.devList, if_pos hfound, ?_⟩
    rw [store, if_pos (List.contains_iff_mem.mpr (List.mem_of_mem_take hfound))]
    exact h
  · rw [if_neg hfound]
    by_cases hroom : entries.length < cap
    · right
      have hnew : name ∉ entries := by
        rwa [List.take_of_length_le (le_of_lt hroom)] at hfound
      refine ⟨_, _, if_pos hroom, ?_⟩
      rw [store, if_neg (mt List.contains_iff_mem.mp hnew)]
      rcases Nat.exists_eq_add_of_lt hroom with ⟨free, rfl⟩
      have hwhole : forall entry : Text,
          (entries ++ entry :: List.replicate free []).take
            (entries.length + free + 1) =
            entries ++ entry :: List.replicate free [] := by
        intro entry
        apply List.take_of_length_le
        rw [List.length_append, List.length_cons, List.length_replicate]
        exact le_refl _
      constructor
      · rw [List.length_append]
        rfl
      · show s.devList.set entries.length (name.take (maxNameLen - 1)) = _
        rw [h.list, Nat.add_assoc, Nat.add_sub_cancel_left, List.replicate_succ,
          ← Nat.add_assoc,
          hwhole, List.set_append_right _ _ (le_refl _), Nat.sub_self,
            List.set_cons_zero,
          List.append_assoc, List.length_append, List.length_singleton,
            List.singleton_append,
          Nat.add_right_comm, Nat.add_sub_cancel_left, Nat.add_right_comm, hwhole]
    · left
      refine ⟨if_neg hroom, ?_⟩
      rw [store]
      split
      · next hmem =>
          by_contra hle
          rw [List.take_of_length_le (Nat.le_of_not_lt hle)] at hfound
          exact hfound (List.contains_iff_mem.mp hmem)
      · rw [List.length_append]
        exact Nat.lt_succ_of_le (Nat.le_of_not_lt hroom)

/-!
# What the arguments store
-/

variable {p : Parsing}

theorem listName_eq (env : Environment) (s : Statics) (name : Text) :
    listName env s name = nameUnder env s.nameType name := by
  unfold listName nameUnder Statics.nameType
  split <;> rfl

theorem nameType_addFlags (p : Parsing) {flags : Finset Flag}
    (hpersist : Flag.persistName ∉ flags) :
    (p.addFlags flags).statics.nameType = p.statics.nameType := by
  have hmem : Flag.persistName ∈ p.statics.flags ∪ flags <-> Flag.persistName ∈
      p.statics.flags := by
    rw [Finset.mem_union, or_iff_left hpersist]
  unfold Statics.nameType Parsing.addFlags
  simp only [hmem]

theorem Listed.addFlags (h : Listed cap entries p.statics) (flags : Finset Flag) :
    Listed cap entries (p.addFlags flags).statics :=
  ⟨h.idx, h.list⟩

theorem Listed.update (h : Listed cap entries p.statics) (name : Statics -> Text) :
    Stores cap entries [name p.statics] p.statics.nameType p.statics.group
      (p.update (fun s => Sysstat.updateDevList (name s) s)) := by
  rcases h.updateDevList (name p.statics) with
    ⟨hbeyond, hcap⟩ | ⟨idx, list, hok, hlisted⟩
  · rw [Parsing.update, hbeyond]
    exact fun _ => ⟨List.cons_ne_nil _ _, hcap⟩
  · rw [Parsing.update, hok]
    exact ⟨hlisted, rfl, rfl⟩

theorem Listed.storeName (h : Listed cap entries p.statics) (name : Text) :
    Stores cap entries [nameUnder env p.statics.nameType name]
      p.statics.nameType p.statics.group
      (storeName env name p) := by
  rw [← listName_eq]
  exact h.update (fun s => listName env s name)

theorem Listed.storeNames (h : Listed cap entries p.statics) (names : List Text) :
    Stores cap entries ((names.filter (fun name => name ≠ kAll)).map
      (nameUnder env p.statics.nameType))
      p.statics.nameType p.statics.group (storeNames env names p) := by
  induction names generalizing p entries with
  | nil =>
      exact stores_nothing h rfl rfl
  | cons name names ih =>
      rw [Sysstat.storeNames]
      by_cases hall : name = kAll
      · rw [if_pos hall, List.filter_cons_of_neg (by simp [hall])]
        have hquiet := nameType_addFlags p
          (by decide : Flag.persistName ∉ ({.partAll} : Finset Flag))
        have hrest := ih (h.addFlags {.partAll})
        rw [hquiet] at hrest
        exact hrest
      · rw [if_neg hall, List.filter_cons_of_pos (by simp [hall]), List.map_cons]
        refine (h.storeName name).bind (fun p1 h1 htype hgroup => ?_)
        have hrest := ih h1
        rw [htype, hgroup] at hrest
        exact hrest

theorem Listed.processLetters (h : Listed cap entries p.statics) (cs : List UInt8) :
    Stores cap entries [] p.statics.nameType p.statics.group
      (processLetters cs p) := by
  induction cs generalizing p with
  | nil =>
      exact stores_nothing h rfl rfl
  | cons c cs ih =>
      rw [Sysstat.processLetters]
      cases hletter : processLetter c p with
      | error stop =>
          intro hbeyond
          unfold processLetter at hletter
          split at hletter
          · cases hletter
            cases hbeyond
          · split at hletter
            · cases hletter
              cases hbeyond
            · cases hletter
      | ok p1 =>
          rcases processLetter_ok hletter with ⟨report, _, rfl, _⟩
          have hquiet := nameType_addFlags p (persistName_not_asked c)
          have hset : Listed cap entries
              { p.addFlags (letterAsks
                c) with reportSet := p.reportSet || report }.statics :=
            h.addFlags _
          have hrest := ih hset
          rw [← hquiet]
          exact hrest

theorem Listed.processGroup (h : Listed cap entries p.statics)
    (name : Option Text) :
    Stores cap entries p.statics.group.toList p.statics.nameType
      ((Item.group name).nextGroup p.statics.group)
        (processItem env (.group name) p) := by
  have hsaved : Stores cap entries p.statics.group.toList p.statics.nameType
      p.statics.group
      (saveGroup p) := by
    unfold saveGroup Statics.group
    split
    · next hgroup =>
        have hstored := h.update (fun s => s.groupName)
        rw [Statics.group, if_pos hgroup] at hstored
        exact hstored
    · exact ⟨h, rfl, if_neg (by assumption)⟩
  rw [← List.append_nil p.statics.group.toList, Sysstat.processItem]
  refine hsaved.bind (fun p1 h1 htype _ => ?_)
  cases name with
  | none =>
      intro hbeyond
      cases hbeyond
  | some name =>
      refine ⟨⟨h1.idx, h1.list⟩, htype, ?_⟩
      exact if_pos (Nat.succ_pos _)

theorem Listed.processPersistent (h : Listed cap entries p.statics)
    (type : Option Text) :
    Stores cap entries [] ((Item.persistent type).nextType p.statics.nameType)
      p.statics.group
      (processItem env (.persistent type) p) := by
  cases type with
  | none =>
      intro hbeyond
      cases hbeyond
  | some type =>
      rw [Sysstat.processItem]
      split
      · intro hbeyond
        cases hbeyond
      · split
        · refine ⟨⟨h.idx, h.list⟩, ?_, rfl⟩
          exact if_pos (Finset.mem_union_right _ (Finset.mem_insert_self _ _))
        · intro hbeyond
          cases hbeyond

theorem Listed.processItem (h : Listed cap entries p.statics) (item : Item) :
    Stores cap entries (item.names env p.statics.nameType p.statics.group)
      (item.nextType p.statics.nameType) (item.nextGroup p.statics.group)
        (processItem env item p) := by
  cases item with
  | partitions names =>
      have hquiet := nameType_addFlags p
        (by decide : Flag.persistName ∉ ({.partitions, .unfiltered} : Finset Flag))
      cases names with
      | none =>
          have hflags : Flag.persistName ∉ ({.partitions, .partAll} :
            Finset Flag) := by
            decide
          exact ⟨h.addFlags _, nameType_addFlags p hflags, rfl⟩
      | some names =>
          have hstored : Stores cap entries _ _ _
              (Sysstat.storeNames env names
                (p.addFlags {.partitions, .unfiltered})) :=
            (h.addFlags _).storeNames names
          rw [hquiet] at hstored
          exact hstored
  | group name =>
      exact h.processGroup name
  | persistent type =>
      exact h.processPersistent type
  | output format =>
      rw [Sysstat.processItem]
      split
      · exact ⟨h.addFlags _, nameType_addFlags p (by decide), rfl⟩
      · intro hbeyond
        cases hbeyond
  | letters cs =>
      exact h.processLetters cs
  | device name =>
      have hquiet := nameType_addFlags p
        (by decide : Flag.persistName ∉ ({.unfiltered} : Finset Flag))
      rw [Sysstat.processItem, Item.names]
      split
      · exact ⟨h.addFlags _, hquiet, rfl⟩
      · have hstored : Stores cap entries _ _ _
            (Sysstat.storeName env name (p.addFlags {.unfiltered})) :=
          (h.addFlags _).storeName name
        rw [hquiet] at hstored
        exact hstored
  | number text =>
      have hexit : Stores cap entries [] p.statics.nameType p.statics.group
          (.error .exit) := by
        intro hbeyond
        cases hbeyond
      rw [Sysstat.processItem]
      split
      · split
        · exact hexit
        · exact ⟨⟨h.idx, h.list⟩, rfl, rfl⟩
      · split
        · split
          · exact hexit
          · exact ⟨⟨h.idx, h.list⟩, rfl, rfl⟩
        · exact hexit

/-- The arguments store their names, one after the other, behind the entries. -/
theorem Listed.processItems (env : Environment)
    (h : Listed cap entries p.statics) (items : List Item) :
    Stores cap entries (storedNames env p.statics.nameType p.statics.group items)
      (items.foldl Item.nextType p.statics.nameType)
        (items.foldl Item.nextGroup p.statics.group)
      (processItems env items p) := by
  induction items generalizing p entries with
  | nil =>
      exact stores_nothing h rfl rfl
  | cons item items ih =>
      rw [Sysstat.processItems, storedNames]
      refine (h.processItem item).bind (fun p1 h1 htype hgroup => ?_)
      have hrest := ih h1
      rw [htype, hgroup] at hrest
      exact hrest

end Sysstat
end Lepd
