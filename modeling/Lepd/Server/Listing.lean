import Lepd.JsonRpc.RegistryRuns
import Lepd.Server.Reply

/-!
# The list of all methods

`list_all` appends the names of the table to an array on its stack. It clears
half of the array, and does not look how much room is left.
-/

namespace Lepd
namespace Server

open Foundation
open CJson
open JsonRpc

variable {function memory : Type}

def appendNames : List (Slot function memory) -> List UInt8 -> Option (List UInt8)
  | [], buff => some buff
  | slot :: slots, buff =>
      match slot.name with
      | .text name => do
          let buff <- Block.strcat nul buff name
          let buff <- Block.strcat nul buff [32]
          appendNames slots buff
      | .null => none
      | .unset => none

def listAll (array : LocalArray cmdBuff) (server : Registry function memory) :
    Reply :=
  createString (do
    let slots <- server.slots
    let buff <- Block.memset array.val 0 nul procBuff
    let buff <- appendNames slots buff
    let buff <- Block.strcat nul buff endstring
    return Block.string nul buff 0)

def withBlanks (names : List (List UInt8)) : List UInt8 :=
  names.flatMap (fun name => name ++ [32])

def listing (names : List (List UInt8)) : List UInt8 :=
  withBlanks names ++ endstring

/-!
# Strings in the array
-/

structure StartsWith (text buff : List UInt8) : Prop where
  length : buff.length = cmdBuff
  null : nul ∉ text
  ended : exists tail, buff = text ++ nul :: tail

/-- Bytes are appended to the string of the array, if there is room for them. -/
def Appends (text more : List UInt8) (result : Option (List UInt8)) : Prop :=
  match result with
  | some buff =>
      text.length + more.length < cmdBuff ∧ StartsWith (text ++ more) buff
  | none => cmdBuff <= text.length + more.length

theorem Appends.bind {text more more' : List UInt8} {result : Option (List UInt8)}
    {f : List UInt8 -> Option (List UInt8)} (h : Appends text more result)
    (hf : forall buff, StartsWith (text ++ more) buff ->
    Appends (text ++ more) more' (f buff)) :
    Appends text (more ++ more') (result >>= f) := by
  cases result with
  | none =>
      show cmdBuff <= text.length + (more ++ more').length
      rw [List.length_append]
      exact Nat.le_trans h (Nat.add_le_add_left (Nat.le_add_right _ _) _)
  | some buff =>
      have hnext := hf buff h.right
      change Appends text (more ++ more') (f buff)
      unfold Appends at hnext ⊢
      rw [List.length_append, Nat.add_assoc] at hnext
      rw [List.length_append, ← List.append_assoc]
      exact hnext

theorem strcat_appends {text buff more : List UInt8} (h : StartsWith text buff)
    (hmore : nul ∉ more) :
    Appends text more (Block.strcat nul buff more) := by
  rcases h.ended with ⟨tail, htail⟩
  by_cases hfits : text.length + more.length + 1 <= buff.length
  · rcases Block.strcat_eq_some more h.null htail hfits with ⟨rest, hrest⟩
    rw [hrest]
    refine ⟨by rw [← h.length]; exact hfits, ?_, ?_, rest, (List.append_assoc _
      _ _).symm⟩
    · have hsame := hrest
      rw [Block.strcat_of_drop h.null htail] at hsame
      rw [Block.write_length hsame, h.length]
    · rw [List.mem_append, not_or]
      exact ⟨h.null, hmore⟩
  · rw [Block.strcat_eq_none more h.null htail (Nat.lt_of_not_le hfits)]
    show cmdBuff <= _
    rw [← h.length]
    exact Nat.le_of_lt_succ (Nat.lt_of_not_le hfits)

theorem memset_starts (array : LocalArray cmdBuff) :
    exists buff, Block.memset array.val 0 nul procBuff = some buff ∧
      StartsWith [] buff := by
  have hfits : 0 + (List.replicate procBuff nul).length <= array.val.length := by
    rw [List.length_replicate, array.property]
    decide
  refine ⟨_, Block.write_of_le hfits, ?_, List.not_mem_nil, ?_⟩
  · rw [Block.write_length (Block.write_of_le hfits), array.property]
  · exact ⟨List.replicate (procBuff - 1) nul ++
      array.val.drop (0 + (List.replicate procBuff nul).length), rfl⟩

/-!
# The answer
-/

theorem appendNames_appends {slots : List (Slot function memory)} :
    forall {names : List (List UInt8)}
    {text buff : List UInt8}, slots.map Slot.name = names.map NameField.text ->
      (forall name, name ∈ names -> nul ∉ name) -> StartsWith text buff ->
        Appends text (withBlanks names) (appendNames slots buff) := by
  induction slots with
  | nil =>
      intro names text buff hnames _ hstarts
      cases List.map_eq_nil_iff.mp hnames.symm
      have hroom := congrArg List.length hstarts.ended.choose_spec
      rw [hstarts.length, List.length_append, List.length_cons] at hroom
      refine ⟨?_, ?_⟩
      · rw [hroom]
        exact Nat.lt_of_le_of_lt (Nat.le_of_eq (Nat.add_zero _))
          (Nat.lt_add_of_pos_right (Nat.succ_pos _))
      · show StartsWith (text ++ []) buff
        rw [List.append_nil]
        exact hstarts
  | cons slot slots ih =>
      intro names text buff hnames hnul hstarts
      cases names with
      | nil => cases hnames
      | cons name names =>
          rw [List.map_cons, List.map_cons] at hnames
          rcases List.cons.inj hnames with ⟨hname, hnames⟩
          have hnames' : forall name, name ∈ names -> nul ∉ name :=
            fun other hother => hnul other (List.mem_cons_of_mem name hother)
          show Appends text (name ++ [32] ++ withBlanks names) _
          unfold appendNames
          rw [hname, List.append_assoc]
          apply (strcat_appends hstarts (hnul name List.mem_cons_self)).bind
          intro buff hbuff
          apply (strcat_appends hbuff (by decide : nul ∉ [32])).bind
          intro buff hbuff
          exact ih hnames hnames' hbuff

theorem slots_of_names {server : Registry function memory}
    {names : List (List UInt8)}
    (h : server.names = some names) :
    exists slots, server.slots = some slots ∧ slots.map Slot.name =
      names.map NameField.text := by
  rcases Option.bind_eq_some_iff.mp h with ⟨slots, hslots, hnames⟩
  refine ⟨slots, hslots, ?_⟩
  clear h hslots
  induction slots generalizing names with
  | nil =>
      cases hnames
      rfl
  | cons slot slots ih =>
      rw [List.mapM_cons] at hnames
      rcases Option.bind_eq_some_iff.mp hnames with ⟨name, hname, hrest⟩
      rcases Option.bind_eq_some_iff.mp hrest with ⟨others, hothers, hsame⟩
      cases hsame
      rw [List.map_cons, List.map_cons, ih hothers]
      cases hslot : slot.name with
      | text own =>
          rw [hslot] at hname
          cases hname
          rfl
      | null =>
          rw [hslot] at hname
          cases hname
      | unset =>
          rw [hslot] at hname
          cases hname

/-- The names are listed in the order of the table, if there is room for all of
them. -/
theorem listAll_eq (array : LocalArray cmdBuff)
    {server : Registry function memory} {names : List (List UInt8)}
    (h : server.names = some names) (hnul : forall name, name ∈ names ->
    nul ∉ name) :
    listAll array server =
      if (listing names).length < cmdBuff then .string (listing names)
      else .undefined := by
  rcases slots_of_names h with ⟨slots, hslots, hnames⟩
  rcases memset_starts array with ⟨buff, hclear, hstarts⟩
  have hall : Appends [] (listing names)
      (appendNames slots buff >>= fun buff => Block.strcat nul buff endstring) :=
    (appendNames_appends hnames hnul hstarts).bind
    (fun _ hbuff => strcat_appends hbuff nul_not_mem_endstring)
  have hanswer : listAll array server =
      createString ((appendNames slots buff >>= fun buff =>
        Block.strcat nul buff endstring).map
        (fun buff => Block.string nul buff 0)) := by
    unfold listAll
    simp only [hslots, hclear, Option.bind_eq_bind, Option.bind_some,
      Option.pure_def, Option.map_eq_bind,
      Option.bind_assoc]
    rfl
  rw [hanswer]
  unfold Appends at hall
  rw [List.length_nil, Nat.zero_add, List.nil_append] at hall
  split at hall
  · next buff hbuff =>
      rcases hall with ⟨hfits, hstring⟩
      rcases hstring.ended with ⟨tail, htail⟩
      rw [hbuff, if_pos hfits, Option.map_some,
        Block.string_of_drop hstring.null (by rw [List.drop_zero]; exact htail)]
      rfl
  · next hnone =>
      rw [hnone, if_neg (Nat.not_lt.mpr hall)]
      rfl

theorem listAll_undefined (array : LocalArray cmdBuff)
    {server : Registry function memory}
    (h : server.names = none) : listAll array server = .undefined := by
  have hnames : forall slots : List (Slot function memory),
      (slots.mapM (fun slot => match slot.name with
      | .text name => some name
      | .null => none
      | .unset => none)) = none -> forall buff, appendNames slots buff = none := by
    intro slots
    induction slots with
    | nil =>
        intro hnone
        cases hnone
    | cons slot slots ih =>
        intro hnone buff
        rw [List.mapM_cons] at hnone
        unfold appendNames
        cases hslot : slot.name with
        | null => rfl
        | unset => rfl
        | text name =>
            rw [hslot] at hnone
            have hothers : forall buff, appendNames slots buff = none := by
              apply ih
              by_contra hsome
              rcases Option.ne_none_iff_exists'.mp hsome with ⟨others, hothers⟩
              rw [hothers] at hnone
              cases hnone
            show (Block.strcat nul buff name).bind (fun buff =>
              (Block.strcat nul buff [32]).bind (appendNames slots)) =
              none
            rw [Option.bind_eq_none_iff]
            intro buff _
            rw [Option.bind_eq_none_iff]
            intro buff _
            exact hothers buff
  unfold listAll
  unfold Registry.names at h
  cases hslots : server.slots with
  | none => rfl
  | some slots =>
      rw [hslots] at h
      rcases memset_starts array with ⟨buff, hclear, _⟩
      simp only [hclear, Option.bind_eq_bind, Option.bind_some,
        hnames slots h buff, Option.bind_none]
      rfl

/--
Behind registrations and deregistrations `list_all` answers the names that are
left, in the order in which they were registered, if there is room for them.
-/
theorem listAll_operate [DecidableEq memory] (array : LocalArray cmdBuff)
    {storage : memory -> Storage}
    {operations : List (Operation function memory)} {s : Machine function memory}
    (h : operate storage operations = some s)
    (hnul : forall binding, binding ∈ remaining operations -> nul ∉ binding.name) :
    listAll array s.table =
      if (listing ((remaining operations).map Binding.name)).length < cmdBuff then
        .string (listing ((remaining operations).map Binding.name))
      else .undefined := by
  apply listAll_eq array (operate_holds h).names
  intro name hname
  rcases List.mem_map.mp hname with ⟨binding, hbinding, rfl⟩
  exact hnul binding hbinding

end Server
end Lepd
