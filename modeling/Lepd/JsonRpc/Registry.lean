import Lepd.JsonRpc.EvalRequest

/-!
# The table of procedures

An array that is allocated anew with each registration, and a count. A result of
`none` stands for undefined behaviour: a write or a read outside the array, a
name that is no string, or a call of `free` for what was not allocated or is
free already.
-/

namespace Lepd
namespace JsonRpc

variable {function memory : Type}

/-!
# The functions of the source
-/

inductive NameField where
  | unset
  | null
  | text (name : List UInt8)
deriving DecidableEq

structure Slot (function memory : Type) where
  name : NameField
  function : Option function
  data : Option memory
deriving DecidableEq

/-- The table in the server: the array, or a null pointer, and the count, for
which an `int` is taken to be enough. -/
structure Registry (function memory : Type) where
  procedures : Option (List (Slot function memory))
  procedureCount : Nat
deriving DecidableEq

def unsetSlot : Slot function memory :=
  { name := .unset, function := none, data := none }

/-- Which allocations of a registration succeed: that of the array, and that of
the name. -/
structure Allocation where
  table : Bool
  name : Bool

def resize (count : Nat) (table : List (Slot function memory)) :
    List (Slot function memory) :=
  table.take count ++ List.replicate (count - table.length) unsetSlot

def storeProcedure (alloc : Allocation) (functionPointer : function)
    (name : List UInt8) (data : Option memory)
    (i : Nat) (table : List (Slot function memory)) :
    Option (Int × Registry function memory) :=
  match table[i]? with
  | none => none
  | some slot =>
      if alloc.name then
        some (0, { procedures := some (table.set i
                     { name := .text name, function := some functionPointer,
                       data := data }),
                   procedureCount := i + 1 })
      else
        some (-1, { procedures := some (table.set i { slot with name := .null }),
                    procedureCount := i + 1 })

def jrpcRegisterProcedure (alloc : Allocation) (functionPointer : function)
    (name : List UInt8)
    (data : Option memory) (server : Registry function memory) :
    Option (Int × Registry function memory) :=
  let i := server.procedureCount
  match server.procedures with
  | none =>
      if alloc.table then storeProcedure alloc functionPointer name data i
        [unsetSlot]
      else none
  | some table =>
      if alloc.table then storeProcedure alloc functionPointer name data i
        (resize (i + 1) table)
      else some (-1, { server with procedureCount := i + 1 })

def sameName (name : List UInt8) : NameField -> Option Bool
  | .text other => some (name == other)
  | .null => none
  | .unset => none

/-- What memory is that a procedure has as its data. -/
inductive Storage where
  | static
  | allocated
  | freed
deriving DecidableEq

section Destroy

variable [DecidableEq memory]

def free (storage : memory -> Storage) : Option memory -> Option (memory -> Storage)
  | none => some storage
  | some data =>
      if storage data = .allocated then
        some (Function.update storage data .freed) else none

/-- Free what the entry points to; its name was allocated when it was registered. -/
def jrpcProcedureDestroy (storage : memory -> Storage)
    (slot : Slot function memory) :
    Option (Slot function memory × (memory -> Storage)) :=
  (free storage slot.data).map (fun storage =>
    ({ slot with name := .null, data := none }, storage))

/--
The loop over the entries. The first list are those that it is done with, the
second those to come. Once the procedure is found each entry is copied over the
one before it.
-/
def deregisterLoop (name : List UInt8) (storage : memory -> Storage) :
    Bool -> List (Slot function memory) -> List (Slot function memory) ->
      Option (Bool × List (Slot function memory) × (memory -> Storage))
  | found, done, [] => some (found, done, storage)
  | true, done, slot :: slots =>
      deregisterLoop name storage true (done.dropLast ++ [slot, slot]) slots
  | false, done, slot :: slots =>
      match sameName name slot.name with
      | none => none
      | some true =>
          match jrpcProcedureDestroy storage slot with
          | none => none
          | some (slot, storage) =>
              deregisterLoop name storage true (done ++ [slot]) slots
      | some false => deregisterLoop name storage false (done ++ [slot]) slots

end Destroy

def shrink (allocated : Bool) (count : Nat) (table : List (Slot function memory)) :
    Int × Registry function memory :=
  if count ≠ 0 then
    if allocated then
      (0, { procedures := some (resize count table), procedureCount := count })
    else (-1, { procedures := some table, procedureCount := count })
  else (0, { procedures := none, procedureCount := 0 })

def jrpcDeregisterProcedure [DecidableEq memory] (allocated : Bool)
    (name : List UInt8)
    (storage : memory -> Storage) (server : Registry function memory) :
    Option (Int × Registry function memory × (memory -> Storage)) :=
  match server.procedures with
  | none => some (-1, server, storage)
  | some table =>
      if table.length < server.procedureCount then none
      else
        match deregisterLoop name storage false []
          (table.take server.procedureCount) with
        | none => none
        | some (false, _) => some (0, server, storage)
        | some (true, slots, storage) =>
            let result := shrink allocated (server.procedureCount - 1)
              (slots ++ table.drop server.procedureCount)
            some (result.1, result.2, storage)

def searchProcedures (name : List UInt8) :
    List (Slot function memory) -> Option (Option (function × Option memory))
  | [] => some none
  | slot :: slots =>
      match sameName name slot.name with
      | none => none
      | some false => searchProcedures name slots
      | some true => slot.function.map (fun function => some (function, slot.data))

def Registry.slots (server : Registry function memory) :
    Option (List (Slot function memory)) :=
  let table := server.procedures.getD []
  if table.length < server.procedureCount then none
  else some (table.take server.procedureCount)

def Registry.invoked (server : Registry function memory) (name : List UInt8) :
    Option (Option (function × Option memory)) :=
  server.slots.bind (fun slots => searchProcedures name slots.reverse)

def Registry.names (server : Registry function memory) :
    Option (List (List UInt8)) :=
  server.slots.bind (fun slots => slots.mapM (fun slot =>
    match slot.name with
    | .text name => some name
    | .null => none
    | .unset => none))

def Registry.empty : Registry function memory :=
  { procedures := none, procedureCount := 0 }

/-!
# Tables whose entries are all initialised
-/

structure Binding (function memory : Type) where
  name : List UInt8
  function : function
  data : Option memory
deriving DecidableEq

def Binding.slot (binding : Binding function memory) : Slot function memory :=
  { name := .text binding.name, function := some binding.function,
    data := binding.data }

structure Registry.Holds (server : Registry function memory)
    (bindings : List (Binding function memory)) :
    Prop where
  count : server.procedureCount = bindings.length
  table : exists spare, server.procedures.getD [] = bindings.map Binding.slot ++
    spare
  null : server.procedures = none -> bindings = []

/-- Every index below the count designates an initialised entry with a name. -/
def Registry.Valid (server : Registry function memory) : Prop :=
  exists bindings, server.Holds bindings

def bound (bindings : List (Binding function memory)) (name : List UInt8) :
    Option (function × Option memory) :=
  (bindings.reverse.find? (fun binding => name == binding.name)).map
    (fun b => (b.function, b.data))

theorem Registry.Holds.slots {server : Registry function memory}
    {bindings : List (Binding function memory)}
    (h : server.Holds bindings) :
    server.slots = some (bindings.map Binding.slot) := by
  rcases h.table with ⟨spare, htable⟩
  unfold Registry.slots
  rw [htable, h.count]
  have hlength : ¬ (bindings.map Binding.slot ++ spare).length <
      bindings.length := by
    rw [List.length_append, List.length_map]
    omega
  rw [if_neg hlength, ← List.length_map (f := Binding.slot), List.take_left]

theorem searchProcedures_slots (name : List UInt8)
    (bindings : List (Binding function memory)) :
    searchProcedures name (bindings.map Binding.slot) =
      some ((bindings.find? (fun binding => name == binding.name)).map
        (fun b => (b.function, b.data))) := by
  induction bindings with
  | nil =>
      rfl
  | cons binding bindings ih =>
      rw [List.map_cons, searchProcedures, List.find?_cons]
      show (match some (name == binding.name) with
        | none => none
        | some false => searchProcedures name (bindings.map Binding.slot)
        | some true => _) = _
      cases name == binding.name with
      | false =>
          exact ih
      | true =>
          rfl

theorem Registry.Holds.invoked {server : Registry function memory}
    {bindings : List (Binding function memory)}
    (h : server.Holds bindings) (name : List UInt8) :
    server.invoked name = some (bound bindings name) := by
  unfold Registry.invoked
  rw [h.slots]
  show searchProcedures name (bindings.map Binding.slot).reverse = _
  rw [← List.map_reverse, searchProcedures_slots]
  rfl

theorem Registry.Holds.names {server : Registry function memory}
    {bindings : List (Binding function memory)}
    (h : server.Holds bindings) :
    server.names = some (bindings.map Binding.name) := by
  unfold Registry.names
  rw [h.slots]
  show (bindings.map Binding.slot).mapM _ = _
  clear h
  induction bindings with
  | nil =>
      rfl
  | cons binding bindings ih =>
      rw [List.map_cons, List.mapM_cons, ih]
      rfl

theorem bound_eq_procedure {double memory : Type}
    (bindings :
    List (Binding (Option memory -> Option (CJson.Item double) ->
    Option (CJson.Item double) ->
      Returned double) memory)) (name : List UInt8) :
    bound bindings name =
      ((JrpcServer.mk
        (bindings.map (fun b => JrpcProcedure.mk b.name b.function
        b.data))).procedure name).map
        (fun p => (p.function, p.data)) := by
  unfold bound JrpcServer.procedure
  rw [← List.map_reverse, List.find?_map, Option.map_map]
  have hsame : (fun binding : Binding _ _ => name == binding.name) =
      (fun procedure : JrpcProcedure double (Option memory) =>
        decide (procedure.name = name)) ∘
        fun b => JrpcProcedure.mk b.name b.function b.data := by
    funext binding
    show (name == binding.name) = decide (binding.name = name)
    rw [beq_eq_decide]
    exact decide_eq_decide.mpr eq_comm
  rw [hsame]
  rfl

/-!
# Registration
-/

theorem resize_of_le {count : Nat} {table : List (Slot function memory)}
    (h : count <= table.length) :
    resize count table = table.take count := by
  unfold resize
  rw [Nat.sub_eq_zero_of_le h]
  exact List.append_nil _

theorem resize_succ (slots spare : List (Slot function memory)) :
    exists slot spare', resize (slots.length + 1) (slots ++ spare) = slots ++
      (slot :: spare') := by
  cases spare with
  | nil =>
      refine ⟨unsetSlot, [], ?_⟩
      have hone : slots.length + 1 - (slots ++ []).length = 1 := by
        rw [List.append_nil]
        exact Nat.add_sub_cancel_left _ _
      unfold resize
      rw [hone, List.append_nil, List.take_of_length_le (Nat.le_succ _)]
      rfl
  | cons slot spare =>
      refine ⟨slot, [], ?_⟩
      have hlong : slots.length + 1 <= (slots ++ slot :: spare).length := by
        rw [List.length_append, List.length_cons]
        omega
      rw [resize_of_le hlong, List.take_length_add_append]
      rfl

variable {server : Registry function memory} {bindings :
  List (Binding function memory)}

theorem Registry.Holds.store (h : server.Holds bindings) {alloc : Allocation}
    (htable : alloc.table = true)
    (functionPointer : function) (name : List UInt8) (data : Option memory) :
    exists slot spare, jrpcRegisterProcedure alloc functionPointer name data
      server =
      storeProcedure alloc functionPointer name data bindings.length
        (bindings.map Binding.slot ++ (slot :: spare)) := by
  unfold jrpcRegisterProcedure
  cases hprocedures : server.procedures with
  | none =>
      have hnil := h.null hprocedures
      refine ⟨unsetSlot, [], ?_⟩
      rw [h.count, hnil]
      exact if_pos htable
  | some table =>
      rcases h.table with ⟨spare, hspare⟩
      rw [hprocedures, Option.getD_some] at hspare
      rcases resize_succ (bindings.map Binding.slot) spare with
        ⟨slot, spare', hresize⟩
      rw [List.length_map, ← hspare] at hresize
      refine ⟨slot, spare', ?_⟩
      rw [h.count, ← hresize]
      exact if_pos htable

theorem getElem?_behind (slots spare : List (Slot function memory))
    (slot : Slot function memory) {i : Nat}
    (h : i = slots.length) : (slots ++ slot :: spare)[i]? = some slot := by
  rw [h, List.getElem?_append_right (le_refl _), Nat.sub_self]
  rfl

theorem set_behind (slots spare : List (Slot function memory))
    (slot new : Slot function memory) {i : Nat}
    (h : i = slots.length) : (slots ++ slot :: spare).set i new = slots ++
    (new :: spare) := by
  rw [h, List.set_append_right _ _ (le_refl _), Nat.sub_self]
  rfl

/-- A registration whose allocations succeed puts the procedure behind the
others. -/
theorem Registry.Holds.register (h : server.Holds bindings) (alloc : Allocation)
    (htable : alloc.table = true)
    (hname : alloc.name = true) (functionPointer : function) (name : List UInt8)
    (data : Option memory) :
    exists server', jrpcRegisterProcedure alloc functionPointer name data
      server = some (0, server') ∧
      server'.Holds (bindings ++ [⟨name, functionPointer, data⟩]) := by
  rcases h.store htable functionPointer name data with ⟨slot, spare, hstore⟩
  have hlength : bindings.length = (bindings.map Binding.slot).length := by
    rw [List.length_map]
  rw [storeProcedure, getElem?_behind _ _ _ hlength] at hstore
  refine ⟨_, hstore.trans (if_pos hname), ?_, ?_, ?_⟩
  · rw [List.length_append]
    rfl
  · refine ⟨spare, ?_⟩
    show (bindings.map Binding.slot ++ slot :: spare).set bindings.length _ = _
    rw [set_behind _ _ _ _ hlength, List.map_append, List.append_assoc]
    rfl
  · intro hnull
    cases hnull

/-!
# Deregistration
-/

section Deregistration

variable [DecidableEq memory] {storage storage' : memory -> Storage}

theorem deregisterLoop_found (name : List UInt8)
    (slots : List (Slot function memory)) :
    forall (before : List (Slot function memory)) (hole : Slot function memory),
      exists last,
      deregisterLoop name storage true (before ++ [hole]) slots =
        some (true, before ++ (slots ++ [last]), storage) := by
  induction slots with
  | nil =>
      intro before hole
      exact ⟨hole, rfl⟩
  | cons slot slots ih =>
      intro before hole
      rcases ih (before ++ [slot]) slot with ⟨last, hlast⟩
      refine ⟨last, ?_⟩
      rw [deregisterLoop, List.dropLast_concat]
      rw [List.append_assoc, List.append_assoc] at hlast
      exact hlast

theorem deregisterLoop_first (name : List UInt8) (binding : Binding function memory)
    (before slots : List (Slot function memory)) (hname : name = binding.name) :
    deregisterLoop name storage false before (binding.slot :: slots) =
      (free storage binding.data).bind (fun storage' =>
        deregisterLoop name storage' true
        (before ++ [{ binding.slot with name := .null, data := none }]) slots) := by
  have hsame : sameName name binding.slot.name = some true :=
    congrArg some (beq_iff_eq.mpr hname)
  rw [deregisterLoop]
  simp only [hsame, jrpcProcedureDestroy]
  show _ = (free storage binding.slot.data).bind _
  cases free storage binding.slot.data with
  | none => rfl
  | some storage' => rfl

theorem deregisterLoop_other (name : List UInt8) (binding : Binding function memory)
    (before slots : List (Slot function memory)) (hname : name ≠ binding.name) :
    deregisterLoop name storage false before (binding.slot :: slots) =
      deregisterLoop name storage false (before ++ [binding.slot]) slots := by
  have hother : sameName name binding.slot.name = some false :=
    congrArg some (beq_false_of_ne hname)
  rw [deregisterLoop]
  simp only [hother]

theorem deregisterLoop_absent {name : List UInt8}
    (h : forall b, b ∈ bindings -> name ≠ b.name) :
    forall before : List (Slot function memory),
      deregisterLoop name storage false before (bindings.map Binding.slot) =
        some (false, before ++ bindings.map Binding.slot, storage) := by
  induction bindings with
  | nil =>
      intro before
      rw [List.map_nil, List.append_nil]
      rfl
  | cons binding bindings ih =>
      intro before
      have hrest := ih (fun b hb => h b (List.mem_cons_of_mem _ hb))
        (before ++ [binding.slot])
      rw [List.append_assoc] at hrest
      rw [List.map_cons, deregisterLoop_other _ _ _ _
        (h binding List.mem_cons_self)]
      exact hrest

/-- The data of the procedure that is found is freed, and the others move up. -/
theorem deregisterLoop_present (storage : memory -> Storage) (name : List UInt8)
    (first others : List (Binding function memory))
    {binding : Binding function memory} (hname : name = binding.name)
    (hfirst : forall b, b ∈ first -> name ≠ b.name) :
    forall before : List (Slot function memory), exists last,
      deregisterLoop name storage false before
        ((first ++ binding :: others).map Binding.slot) =
        (free storage binding.data).map (fun storage' =>
          (true, before ++ ((first ++ others).map Binding.slot ++ [last]),
            storage')) := by
  induction first with
  | nil =>
      intro before
      rw [List.nil_append, List.nil_append, List.map_cons,
        deregisterLoop_first _ _ _ _ hname]
      cases free storage binding.data with
      | none => exact ⟨binding.slot, rfl⟩
      | some storage' =>
          exact deregisterLoop_found name (others.map Binding.slot) before _
  | cons b first ih =>
      intro before
      rcases ih (fun b hb => hfirst b (List.mem_cons_of_mem _ hb))
        (before ++ [b.slot]) with ⟨last, hlast⟩
      refine ⟨last, ?_⟩
      rw [List.append_assoc] at hlast
      rw [List.cons_append, List.map_cons, deregisterLoop_other _ _ _ _
        (hfirst b List.mem_cons_self)]
      exact hlast

omit [DecidableEq memory] in
theorem split_first (name : List UInt8)
    (bindings : List (Binding function memory)) :
    (forall b, b ∈ bindings -> name ≠ b.name) ∨
      exists first binding others, bindings = first ++ binding :: others ∧
        name = binding.name ∧
        forall b, b ∈ first -> name ≠ b.name := by
  induction bindings with
  | nil =>
      left
      intro b hb
      cases hb
  | cons binding bindings ih =>
      by_cases hname : name = binding.name
      · exact Or.inr ⟨[], binding, bindings, rfl, hname, fun b hb => nomatch hb⟩
      · rcases ih with hnone | ⟨first, other, others, hsplit, hother, hfirst⟩
        · left
          intro b hb
          rcases List.mem_cons.mp hb with rfl | hb
          · exact hname
          · exact hnone b hb
        · refine Or.inr ⟨binding :: first, other, others,
            congrArg (List.cons binding) hsplit, hother, ?_⟩
          intro b hb
          rcases List.mem_cons.mp hb with rfl | hb
          · exact hname
          · exact hfirst b hb

def without (name : List UInt8) (bindings : List (Binding function memory)) :
    List (Binding function memory) :=
  bindings.eraseP (fun binding => name == binding.name)

omit [DecidableEq memory] in
theorem without_absent {name : List UInt8}
    (h : forall b, b ∈ bindings -> name ≠ b.name) :
    without name bindings = bindings := by
  apply List.eraseP_of_forall_not
  intro b hb hsame
  exact h b hb (beq_iff_eq.mp hsame)

omit [DecidableEq memory] in
theorem without_present {name : List UInt8}
    {first others : List (Binding function memory)}
    {binding : Binding function memory} (hname : name = binding.name)
    (hfirst : forall b, b ∈ first -> name ≠ b.name) :
    without name (first ++ binding :: others) = first ++ others := by
  have hnot : forall b, b ∈ first -> ¬ (name == b.name) = true :=
    fun b hb hsame => hfirst b hb (beq_iff_eq.mp hsame)
  have hsame : (name == binding.name) = true := beq_iff_eq.mpr hname
  rw [without, List.eraseP_append_right _ hnot]
  exact congrArg (first ++ ·) (List.eraseP_cons_of_pos hsame)

omit [DecidableEq memory] in
theorem Registry.Holds.table_length (h : server.Holds bindings)
    {table : List (Slot function memory)}
    (htable : server.procedures = some table) :
    ¬ table.length < server.procedureCount ∧ table.take server.procedureCount =
      bindings.map Binding.slot := by
  rcases h.table with ⟨spare, hspare⟩
  rw [htable, Option.getD_some] at hspare
  have hlength : (bindings.map Binding.slot).length = bindings.length :=
    List.length_map _
  rw [h.count, hspare, ← hlength, List.take_left, List.length_append]
  exact ⟨Nat.not_lt.mpr (Nat.le_add_right _ _), rfl⟩

def firstData (name : List UInt8) (bindings : List (Binding function memory)) :
    Option memory :=
  (bindings.find? (fun binding => name == binding.name)).bind Binding.data

omit [DecidableEq memory] in
theorem firstData_absent {name : List UInt8}
    (h : forall b, b ∈ bindings -> name ≠ b.name) :
    firstData name bindings = none := by
  have hnone : bindings.find? (fun binding => name == binding.name) = none :=
    List.find?_eq_none.mpr (fun b hb hsame => h b hb (beq_iff_eq.mp hsame))
  rw [firstData, hnone]
  rfl

omit [DecidableEq memory] in
theorem firstData_present {name : List UInt8}
    {first others : List (Binding function memory)}
    {binding : Binding function memory} (hname : name = binding.name)
    (hfirst : forall b, b ∈ first -> name ≠ b.name) :
    firstData name (first ++ binding :: others) = binding.data := by
  have hnone : first.find? (fun binding => name == binding.name) = none :=
    List.find?_eq_none.mpr (fun b hb hsame => hfirst b hb (beq_iff_eq.mp hsame))
  have hsame : (name == binding.name) = true := beq_iff_eq.mpr hname
  rw [firstData, List.find?_append, hnone, Option.none_or, List.find?_cons, hsame]
  rfl

/-- A deregistration frees the data of the first procedure of a name, and takes
it out. -/
theorem Registry.Holds.deregister (h : server.Holds bindings)
    (storage : memory -> Storage) (name : List UInt8) :
    exists r server', jrpcDeregisterProcedure true name storage server =
        (free storage (firstData name bindings)).map
          (fun storage' => (r, server', storage')) ∧
      server'.Holds (without name bindings) := by
  unfold jrpcDeregisterProcedure
  cases hprocedures : server.procedures with
  | none =>
      have hnil := h.null hprocedures
      subst hnil
      exact ⟨-1, server, rfl, h⟩
  | some table =>
      rcases h.table_length hprocedures with ⟨hlength, htake⟩
      simp only [if_neg hlength, htake]
      rcases split_first name bindings with
        hnone | ⟨first, binding, others, rfl, hname, hfirst⟩
      · rw [deregisterLoop_absent hnone, without_absent hnone,
          firstData_absent hnone]
        exact ⟨0, server, rfl, h⟩
      · rcases deregisterLoop_present storage name first others hname hfirst [] with
          ⟨last, hloop⟩
        rw [hloop, without_present hname hfirst, firstData_present hname hfirst,
          List.nil_append]
        have hcount : server.procedureCount - 1 = (first ++ others).length := by
          rw [h.count, List.length_append, List.length_append, List.length_cons]
          omega
        let result := shrink true (server.procedureCount - 1)
          ((first ++ others).map Binding.slot ++ [last] ++
            table.drop server.procedureCount)
        refine ⟨result.1, result.2, ?_, ?_⟩
        · cases free storage binding.data with
          | none => rfl
          | some storage' => rfl
        · show (shrink true (server.procedureCount - 1) _).2.Holds _
          unfold shrink
          rw [hcount]
          split
          · next hne =>
              refine ⟨rfl, ⟨[], ?_⟩, fun hnull => nomatch hnull⟩
              show resize (first ++ others).length _ = _
              rw [← List.length_map (f := Binding.slot), List.append_assoc,
                resize_of_le (by simp),
                List.take_left, List.append_nil]
          · next hzero =>
              have hnil : first ++ others = [] :=
                List.length_eq_zero_iff.mp (not_not.mp hzero)
              rw [hnil]
              exact ⟨rfl, ⟨[], rfl⟩, fun _ => rfl⟩

end Deregistration

end JsonRpc
end Lepd
