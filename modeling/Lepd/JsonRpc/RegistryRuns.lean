import Mathlib.Data.List.Induction
import Lepd.JsonRpc.Registry

/-!
# Registering and deregistering

A map from names to procedures says what the table is for. Registration refines
the map, and keeps the table valid, as long as its allocations succeed.
Deregistration takes out the procedure that was registered first under a name,
while a name stands for the one that was registered last.
-/

namespace Lepd
namespace JsonRpc

variable {function memory : Type}

/-!
# One registration
-/

variable {server : Registry function memory} {bindings :
  List (Binding function memory)}

structure Registry.Safe (server : Registry function memory) : Prop where
  valid : server.Valid
  invoked : forall name, exists found, server.invoked name = some found
  names : exists names, server.names = some names

theorem Registry.Valid.safe (h : server.Valid) : server.Safe where
  valid := h
  invoked name := by
    rcases h with ⟨bindings, hbindings⟩
    exact ⟨_, hbindings.invoked name⟩
  names := by
    rcases h with ⟨bindings, hbindings⟩
    exact ⟨_, hbindings.names⟩

def SameTable (server server' : Registry function memory) : Prop :=
  server'.procedureCount = server.procedureCount ∧ server'.slots = server.slots

/-- A call returns, a failed one leaves the table as it was, and the table is
safe. -/
def Atomic (server : Registry function memory)
    (result : Option (Int × Registry function memory)) : Prop :=
  exists r server', result = some (r, server') ∧
    (r ≠ 0 -> SameTable server server') ∧ server'.Safe

theorem not_atomic_of_count {server' : Registry function memory} {r : Int}
    (hr : r ≠ 0)
    (hcount : server'.procedureCount ≠ server.procedureCount) :
    ¬ Atomic server (some (r, server')) := by
  rintro ⟨_, _, heq, hsame, _⟩
  cases heq
  exact hcount (hsame hr).left

theorem take_resize (count : Nat) (table : List (Slot function memory)) :
    (resize (count + 1) table).take count = resize count table := by
  unfold resize
  rcases Nat.lt_or_ge count table.length with hlt | hge
  · rw [Nat.sub_eq_zero_of_le (Nat.succ_le_of_lt hlt),
      Nat.sub_eq_zero_of_le (Nat.le_of_lt hlt)]
    rw [List.replicate_zero, List.append_nil, List.append_nil, List.take_take,
      min_eq_left (Nat.le_succ _)]
  · rw [List.take_of_length_le hge, List.take_of_length_le
      (Nat.le_succ_of_le hge), List.take_append,
      List.take_of_length_le hge, List.take_replicate, min_eq_left (by omega)]

theorem le_length_of_resize {count : Nat} {table : List (Slot function memory)}
    (h : resize count table = bindings.map Binding.slot) :
    count <= table.length := by
  by_contra hlong
  have hmem : (unsetSlot : Slot function memory) ∈ resize count table :=
    List.mem_append_right _ (List.mem_replicate.mpr ⟨by omega, rfl⟩)
  rw [h] at hmem
  rcases List.mem_map.mp hmem with ⟨binding, _, heq⟩
  cases heq

theorem valid_of_registered {table : List (Slot function memory)}
    {new : Slot function memory}
    (hprocedures : server.procedures = some table)
    (h : (⟨some ((resize (server.procedureCount + 1) table).set
    server.procedureCount new),
      server.procedureCount + 1⟩ : Registry function memory).Holds bindings) :
        server.Valid := by
  rcases h.table with ⟨spare, hspare⟩
  have hlength : bindings.length = server.procedureCount + 1 := h.count.symm
  have htake : resize server.procedureCount table =
      (bindings.take server.procedureCount).map Binding.slot := by
    have hfront := congrArg (List.take server.procedureCount) hspare
    rw [Option.getD_some, List.take_set_of_le (le_refl _), take_resize] at hfront
    rw [hfront, List.take_append_of_le_length (by rw [List.length_map]; omega),
      List.map_take]
  have hlong := le_length_of_resize htake
  rw [resize_of_le hlong] at htake
  refine ⟨bindings.take server.procedureCount, ?_,
    ⟨table.drop server.procedureCount, ?_⟩, ?_⟩
  · rw [List.length_take, hlength]
    exact (min_eq_left (Nat.le_succ _)).symm
  · rw [hprocedures, Option.getD_some, ← htake, List.take_append_drop]
  · intro hnull
    rw [hprocedures] at hnull
    cases hnull

theorem valid_of_atomic {alloc : Allocation} {functionPointer : function}
    {name : List UInt8}
    {data : Option memory}
    (h : Atomic server (jrpcRegisterProcedure alloc functionPointer name data
    server)) :
    server.Valid ∧ alloc.table = true ∧ alloc.name = true := by
  unfold jrpcRegisterProcedure at h
  cases hprocedures : server.procedures with
  | none =>
      rw [hprocedures] at h
      cases htable : alloc.table with
      | false =>
          rw [htable] at h
          rcases h with ⟨_, _, heq, _⟩
          cases heq
      | true =>
          rw [htable] at h
          cases hcount : server.procedureCount with
          | succ count =>
              rw [hcount] at h
              rcases h with ⟨_, _, heq, _⟩
              cases heq
          | zero =>
              rw [hcount] at h
              refine ⟨⟨[], hcount, ⟨[], ?_⟩, fun _ => rfl⟩, rfl, ?_⟩
              · rw [hprocedures]
                rfl
              · cases hname : alloc.name with
                | true =>
                    rfl
                | false =>
                    unfold storeProcedure at h
                    rw [hname] at h
                    refine absurd h (not_atomic_of_count (by decide) ?_)
                    rw [hcount]
                    exact Nat.succ_ne_self 0
  | some table =>
      rw [hprocedures] at h
      cases htable : alloc.table with
      | false =>
          rw [htable] at h
          exact absurd h (not_atomic_of_count (by decide) (Nat.succ_ne_self _))
      | true =>
          rw [htable] at h
          change Atomic server (storeProcedure alloc functionPointer name data
            server.procedureCount
            (resize (server.procedureCount + 1) table)) at h
          unfold storeProcedure at h
          cases hslot :
            (resize (server.procedureCount + 1) table)[server.procedureCount]? with
          | none =>
              rw [hslot] at h
              rcases h with ⟨_, _, heq, _⟩
              cases heq
          | some slot =>
              rw [hslot] at h
              cases hname : alloc.name with
              | false =>
                  rw [hname] at h
                  exact absurd h (not_atomic_of_count (by decide)
                    (Nat.succ_ne_self _))
              | true =>
                  rw [hname] at h
                  rcases h with ⟨_, server', heq, _, hsafe⟩
                  cases heq
                  rcases hsafe.valid with ⟨bindings, hbindings⟩
                  exact ⟨valid_of_registered hprocedures hbindings, rfl, rfl⟩

/-- A registration is atomic exactly if the table was valid and its allocations
succeed. -/
theorem jrpcRegisterProcedure_atomic_iff (server : Registry function memory)
    (alloc : Allocation)
    (functionPointer : function) (name : List UInt8) (data : Option memory) :
    Atomic server (jrpcRegisterProcedure alloc functionPointer name data server) <->
      server.Valid ∧ alloc.table = true ∧ alloc.name = true := by
  constructor
  · exact valid_of_atomic
  · rintro ⟨⟨bindings, hbindings⟩, htable, hname⟩
    rcases hbindings.register alloc htable hname functionPointer name data with
      ⟨server', hregister, hholds⟩
    exact ⟨0, server', hregister, fun hr => absurd rfl hr,
      Registry.Valid.safe ⟨_, hholds⟩⟩

/-- A procedure under the name `a`. -/
def oneProcedure : Registry Unit Unit :=
  { procedures := some [{ name := .text [97], function := some (),
                          data := none }], procedureCount := 1 }

/-- Where `realloc` or `strdup` fails the count is left behind the entries. -/
theorem jrpcRegisterProcedure_not_atomic :
    ¬ Atomic oneProcedure (jrpcRegisterProcedure ⟨false, true⟩ ()
      [98] none oneProcedure) ∧
      ¬ Atomic oneProcedure (jrpcRegisterProcedure ⟨true, false⟩ ()
        [98] none oneProcedure) := by
  constructor
  · exact not_atomic_of_count (by decide) (by decide)
  · exact not_atomic_of_count (by decide) (by decide)

/-!
# Runs
-/

inductive Operation (function memory : Type) where
  | register (binding : Binding function memory)
  | deregister (name : List UInt8)

def Operation.name : Operation function memory -> List UInt8
  | .register binding => binding.name
  | .deregister name => name

/-- The table, and the memory that the data of its procedures lies in. -/
structure Machine (function memory : Type) where
  table : Registry function memory
  storage : memory -> Storage

/-- What `invoke_procedure` runs; a procedure is not given data that has been
freed. -/
def Machine.invoked (s : Machine function memory) (name : List UInt8) :
    Option (Option (function × Option memory)) :=
  match s.table.invoked name with
  | some (some (function, some data)) =>
      if s.storage data = .freed then none else some (some (function, some data))
  | found => found

section Operations

variable [DecidableEq memory]

def Operation.apply (operation : Operation function memory)
    (s : Machine function memory) :
    Option (Machine function memory) :=
  match operation with
  | .register binding =>
      (jrpcRegisterProcedure ⟨true, true⟩ binding.function binding.name
        binding.data s.table).map
        (fun result => ⟨result.2, s.storage⟩)
  | .deregister name =>
      (jrpcDeregisterProcedure true name s.storage s.table).map
        (fun result => ⟨result.2.1, result.2.2⟩)

/-- The operations one after the other, on the table of a new server. -/
def operate (storage : memory -> Storage)
    (operations : List (Operation function memory)) :
    Option (Machine function memory) :=
  operations.foldlM (fun s operation => operation.apply s) ⟨.empty, storage⟩

end Operations

def meaning (operations : List (Operation function memory)) :
    List UInt8 -> Option (function × Option memory) :=
  operations.foldl
    (fun map operation =>
      match operation with
      | .register binding =>
          Function.update map binding.name (some (binding.function, binding.data))
      | .deregister name => Function.update map name none)
    (fun _ => none)

/-- What the operations leave of the procedures that were registered. -/
def remaining (operations : List (Operation function memory)) :
    List (Binding function memory) :=
  operations.foldl
    (fun bindings operation =>
      match operation with
      | .register binding => bindings ++ [binding]
      | .deregister name => without name bindings)
    []

theorem remaining_snoc (operations : List (Operation function memory))
    (operation : Operation function memory) :
    remaining (operations ++ [operation]) =
      match operation with
      | .register binding => remaining operations ++ [binding]
      | .deregister name => without name (remaining operations) :=
  List.foldl_append

theorem meaning_snoc (operations : List (Operation function memory))
    (operation : Operation function memory) :
    meaning (operations ++ [operation]) =
      match operation with
      | .register binding =>
          Function.update (meaning operations) binding.name
            (some (binding.function, binding.data))
      | .deregister name => Function.update (meaning operations) name none :=
  List.foldl_append

section Steps

variable [DecidableEq memory] {storage : memory -> Storage}
  {s s' : Machine function memory}

theorem operate_snoc (operations : List (Operation function memory))
    (operation : Operation function memory) :
    operate storage (operations ++ [operation]) =
      (operate storage operations).bind operation.apply := by
  unfold operate
  rw [List.foldlM_append]
  cases List.foldlM (fun s operation => Operation.apply operation s)
    ⟨.empty, storage⟩ operations with
  | none =>
      rfl
  | some server =>
      show (operation.apply server >>= fun s => pure s) = _
      rw [bind_pure]
      rfl

theorem apply_register (h : s.table.Holds bindings)
    (binding : Binding function memory) :
    exists table, Operation.apply (.register binding) s = some ⟨table, s.storage⟩ ∧
      table.Holds (bindings ++ [binding]) := by
  rcases h.register ⟨true, true⟩ rfl rfl binding.function binding.name
    binding.data with
    ⟨table, hregister, hholds⟩
  refine ⟨table, ?_, hholds⟩
  rw [Operation.apply, hregister]
  rfl

theorem apply_deregister (h : s.table.Holds bindings) (name : List UInt8) :
    exists table, Operation.apply (.deregister name) s =
        (free s.storage (firstData name bindings)).map
          (fun storage => ⟨table, storage⟩) ∧
      table.Holds (without name bindings) := by
  rcases h.deregister s.storage name with ⟨r, table, hderegister, hholds⟩
  refine ⟨table, ?_, hholds⟩
  rw [Operation.apply, hderegister, Option.map_map]
  rfl

theorem operate_holds {operations : List (Operation function memory)}
    (h : operate storage operations = some s) :
    s.table.Holds (remaining operations) := by
  induction operations using List.reverseRecOn generalizing s with
  | nil =>
      cases h
      exact ⟨rfl, ⟨[], rfl⟩, fun _ => rfl⟩
  | append_singleton operations operation ih =>
      rw [operate_snoc] at h
      rcases Option.bind_eq_some_iff.mp h with ⟨before, hbefore, happly⟩
      rw [remaining_snoc]
      cases operation with
      | register binding =>
          rcases apply_register (ih hbefore) binding with ⟨table, heq, hholds⟩
          cases heq.symm.trans happly
          exact hholds
      | deregister name =>
          rcases apply_deregister (ih hbefore) name with ⟨table, heq, hholds⟩
          rcases Option.map_eq_some_iff.mp (heq.symm.trans happly) with ⟨_, _, rfl⟩
          exact hholds

end Steps

/-!
# What is bound
-/

theorem bound_eq_none {name : List UInt8} :
    bound bindings name = none <-> forall b, b ∈ bindings -> name ≠ b.name := by
  rw [bound, Option.map_eq_none_iff, List.find?_eq_none]
  simp only [List.mem_reverse, beq_iff_eq, ne_eq]

theorem bound_append (bindings : List (Binding function memory))
    (binding : Binding function memory) :
    bound (bindings ++ [binding]) =
      Function.update (bound bindings) binding.name
        (some (binding.function, binding.data)) := by
  funext name
  rw [bound, List.reverse_append, List.reverse_singleton, List.singleton_append,
    List.find?_cons]
  by_cases hname : name = binding.name
  · have hsame : (name == binding.name) = true := beq_iff_eq.mpr hname
    rw [hsame, hname, Function.update_self]
    rfl
  · have hsame : (name == binding.name) = false := beq_false_of_ne hname
    rw [hsame, Function.update_of_ne hname]
    rfl

def others (name : List UInt8) (bindings : List (Binding function memory)) :
    List (Binding function memory) :=
  bindings.filter (fun binding => name != binding.name)

theorem others_without (name : List UInt8)
    (bindings : List (Binding function memory)) :
    others name (without name bindings) = others name bindings := by
  rcases split_first name bindings with
    hnone | ⟨first, binding, rest, rfl, hname, hfirst⟩
  · rw [without_absent hnone]
  · have hsame : (name != binding.name) = false := bne_eq_false_iff_eq.mpr hname
    rw [without_present hname hfirst, others, others, List.filter_append,
      List.filter_append,
      List.filter_cons_of_neg (by rw [hsame]; decide)]

theorem others_append (bindings : List (Binding function memory))
    (binding : Binding function memory) :
    others binding.name (bindings ++ [binding]) = others binding.name bindings := by
  have hsame : (binding.name != binding.name) = false := bne_eq_false_iff_eq.mpr rfl
  rw [others, others, List.filter_append,
    List.filter_cons_of_neg (by rw [hsame]; decide)]
  exact List.append_nil _

theorem bound_of_others {name other : List UInt8}
    {bindings' : List (Binding function memory)}
    (h : others name bindings' = others name bindings) (hne : other ≠ name) :
    bound bindings' other = bound bindings other := by
  have hfind : forall bindings : List (Binding function memory),
      bindings.reverse.find? (fun b => other == b.name) =
        (others name bindings).reverse.find? (fun b => other == b.name) := by
    intro bindings
    rw [others, ← List.filter_reverse, List.find?_filter]
    congr 1
    funext b
    by_cases hother : other = b.name
    · have hname : (name != b.name) = true :=
        bne_iff_ne.mpr (fun heq => hne (hother.trans heq.symm))
      rw [hname]
      simp [beq_eq_decide]
    · have hother' : (other == b.name) = false := beq_false_of_ne hother
      rw [hother']
      simp
  rw [bound, bound, hfind bindings', hfind bindings, h]

def occurrences (name : List UInt8)
    (bindings : List (Binding function memory)) : Nat :=
  bindings.countP (fun binding => name == binding.name)

theorem occurrences_eq_zero {name : List UInt8} :
    occurrences name bindings = 0 <-> forall b, b ∈ bindings -> name ≠ b.name := by
  rw [occurrences, List.countP_eq_zero]
  simp only [beq_iff_eq, ne_eq]

/-- A name is free behind its deregistration exactly if it was in the table once
at most. -/
theorem bound_without_self {name : List UInt8} :
    bound (without name bindings) name = none <-> occurrences name bindings <=
      1 := by
  rw [bound_eq_none, ← occurrences_eq_zero]
  rcases split_first name bindings with
    hnone | ⟨first, binding, rest, rfl, hname, hfirst⟩
  · rw [without_absent hnone, occurrences_eq_zero.mpr hnone]
    exact ⟨fun _ => Nat.zero_le 1, fun _ => rfl⟩
  · have hsame : (name == binding.name) = true := beq_iff_eq.mpr hname
    have hcount : occurrences name (first ++ binding :: rest) =
        occurrences name (first ++ rest) + 1 := by
      have hcons : occurrences name (binding :: rest) = occurrences name rest + 1 :=
        List.countP_cons_of_pos hsame
      unfold occurrences at hcons ⊢
      rw [List.countP_append, List.countP_append, hcons]
      rfl
    rw [without_present hname hfirst, hcount]
    omega

/-!
# The table and the map
-/

theorem others_remaining (operations : List (Operation function memory))
    (operation : Operation function memory) :
    others operation.name (remaining (operations ++ [operation])) =
      others operation.name (remaining operations) := by
  rw [remaining_snoc]
  cases operation with
  | register binding =>
      exact others_append _ _
  | deregister name =>
      exact others_without _ _

def Registry.others (server : Registry function memory) (name : List UInt8) :
    Option (List (Slot function memory)) :=
  server.slots.map (fun slots => slots.filter (fun slot =>
    sameName name slot.name != some true))

theorem Registry.Holds.others (h : server.Holds bindings) (name : List UInt8) :
    server.others name =
      some ((JsonRpc.others name bindings).map Binding.slot) := by
  rw [Registry.others, h.slots, Option.map_some, List.filter_map]
  congr 3
  funext binding
  show (some (name == binding.name) != some true) = (name != binding.name)
  unfold bne
  cases name == binding.name with
  | false =>
      rfl
  | true =>
      rfl

def Registry.entries (server : Registry function memory) (name : List UInt8) :
    Nat :=
  (server.slots.getD []).countP (fun slot => sameName name slot.name == some true)

theorem Registry.Holds.entries (h : server.Holds bindings) (name : List UInt8) :
    server.entries name = occurrences name bindings := by
  rw [Registry.entries, h.slots, Option.getD_some, List.countP_map, occurrences]
  congr 1
  funext binding
  show (some (name == binding.name) == some true) = (name == binding.name)
  cases name == binding.name with
  | false =>
      rfl
  | true =>
      rfl

theorem Registry.Holds.machine_invoked {s : Machine function memory}
    (h : s.table.Holds bindings)
    (name : List UInt8) :
    s.invoked name = some (bound bindings name) <->
      forall f data, bound bindings name = some (f, some data) ->
        s.storage data ≠ .freed := by
  unfold Machine.invoked
  rw [h.invoked]
  match hbound : bound bindings name with
  | none => simp
  | some (f, none) => simp
  | some (f, some data) =>
      show (if s.storage data = .freed then none
        else some (some (f, some data))) = _ <-> _
      constructor
      · intro heq g d hgd hfreed
        cases hgd
        rw [if_pos hfreed] at heq
        cases heq
      · intro hlive
        rw [if_neg (hlive f data rfl)]

section Map

variable [DecidableEq memory] {storage : memory -> Storage} {operations :
  List (Operation function memory)}
  {s s' : Machine function memory} {name : List UInt8}

/--
Behind each of the operations a name invokes what the map has for it, and each
operation leaves the entries of other names as they are.
-/
structure FollowsMap (storage : memory -> Storage)
    (operations : List (Operation function memory)) :
    Prop where
  invoked : forall before, before <+: operations -> exists s,
    operate storage before = some s ∧
    forall name, s.invoked name = some (meaning before name)
  others : forall before operation, before ++ [operation] <+: operations ->
    exists s s',
    operate storage before = some s ∧ operation.apply s = some s' ∧
      s'.table.others operation.name = s.table.others operation.name

/--
A name is deregistered while the table has at most one entry of it, with data
that can be freed and that no other name stands for; a name is registered with
data that is not freed.
-/
def Machine.Allows (s : Machine function memory) : Operation function memory -> Prop
  | .register binding =>
      forall data, binding.data = some data -> s.storage data ≠ .freed
  | .deregister name =>
      s.table.entries name <= 1 ∧
        forall f data, s.table.invoked name = some (some (f, some data)) ->
          s.storage data = .allocated ∧
            forall other g, s.table.invoked other =
              some (some (g, some data)) -> other = name

/-- Each operation is allowed in the state that it finds. -/
def Allowed (storage : memory -> Storage)
    (operations : List (Operation function memory)) : Prop :=
  forall before operation, before ++ [operation] <+: operations ->
    forall s, operate storage before = some s -> s.Allows operation

omit [DecidableEq memory] in
theorem bound_of_once (honce : occurrences name bindings <= 1) :
    bound bindings name = (bindings.find? (fun binding => name == binding.name)).map
      (fun b => (b.function, b.data)) := by
  rcases split_first name bindings with
    hnone | ⟨first, binding, rest, rfl, hname, hfirst⟩
  · rw [bound_eq_none.mpr hnone, List.find?_eq_none.mpr (fun b hb hsame =>
      hnone b hb (beq_iff_eq.mp hsame))]
    rfl
  · have hsame : (name == binding.name) = true := beq_iff_eq.mpr hname
    have hnot : forall {l : List (Binding function memory)},
        (forall b, b ∈ l -> name ≠ b.name) ->
        l.find? (fun binding => name == binding.name) = none :=
      fun h => List.find?_eq_none.mpr (fun b hb heq => h b hb (beq_iff_eq.mp heq))
    have hrest : forall b, b ∈ rest.reverse -> name ≠ b.name := by
      have hcount := bound_without_self.mpr honce
      rw [without_present hname hfirst, bound_eq_none] at hcount
      exact fun b hb => hcount b (List.mem_append_right _ (List.mem_reverse.mp hb))
    rw [bound, List.reverse_append, List.reverse_cons, List.find?_append,
      List.find?_append, hnot hrest,
      List.find?_append, hnot hfirst, List.find?_cons, List.find?_cons, hsame]
    rfl

omit [DecidableEq memory] in
theorem firstData_of_once (honce : occurrences name bindings <= 1) :
    firstData name bindings = (bound bindings name).bind Prod.snd := by
  rw [bound_of_once honce, firstData]
  cases bindings.find? (fun binding => name == binding.name) with
  | none => rfl
  | some binding => rfl

theorem free_ne {data : Option memory} {storage' : memory -> Storage}
    (h : free storage data = some storage')
    {d : memory} (hd : data ≠ some d) : storage' d = storage d := by
  cases data with
  | none =>
      cases h
      rfl
  | some data =>
      rw [free] at h
      split at h
      · cases h
        exact Function.update_of_ne (fun heq => hd (congrArg some heq.symm)) _ _
      · cases h

theorem free_allocated {data : memory} {storage' : memory -> Storage}
    (h : free storage (some data) = some storage') : storage data = .allocated ∧
    storage' data = .freed := by
  rw [free] at h
  split at h
  · next hallocated =>
      cases h
      exact ⟨hallocated, Function.update_self _ _ _⟩
  · cases h

/-- The machine runs what the map has, and no name stands for data that has been
freed. -/
structure Machine.Follows (s : Machine function memory)
    (operations : List (Operation function memory)) :
    Prop where
  holds : s.table.Holds (remaining operations)
  bound : bound (remaining operations) = meaning operations
  live : forall name f data, meaning operations name = some (f, some data) ->
    s.storage data ≠ .freed

omit [DecidableEq memory] in
theorem Machine.Follows.invoked (h : s.Follows operations) (name : List UInt8) :
    s.invoked name = some (meaning operations name) := by
  rw [← h.bound]
  apply (h.holds.machine_invoked name).mpr
  rw [h.bound]
  exact h.live name

theorem follows_register (h : s.Follows operations)
    {binding : Binding function memory}
    (hallows : s.Allows (.register binding)) :
    exists s', Operation.apply (.register binding) s = some s' ∧
      s'.Follows (operations ++ [.register binding]) := by
  rcases apply_register h.holds binding with ⟨table, happly, hholds⟩
  refine ⟨_, happly, ?_, ?_, ?_⟩
  · rw [remaining_snoc]
    exact hholds
  · rw [remaining_snoc, meaning_snoc, ← h.bound]
    exact bound_append _ _
  · intro name f data hdata
    rw [meaning_snoc] at hdata
    change Function.update (meaning operations) binding.name _ name = _ at hdata
    by_cases hname : name = binding.name
    · rw [hname, Function.update_self] at hdata
      exact hallows data (congrArg Prod.snd (Option.some.inj hdata))
    · rw [Function.update_of_ne hname] at hdata
      exact h.live name f data hdata

theorem follows_deregister (h : s.Follows operations)
    (hallows : s.Allows (.deregister name)) :
    exists s', Operation.apply (.deregister name) s = some s' ∧
      s'.Follows (operations ++ [.deregister name]) := by
  rcases hallows with ⟨honce, hdata⟩
  rw [h.holds.entries] at honce
  have hfirst := firstData_of_once honce
  have hbound : forall name, s.table.invoked name =
      some (meaning operations name) := by
    intro name
    rw [h.holds.invoked, h.bound]
  have hlive : forall data, firstData name (remaining operations) = some data ->
      s.storage data = .allocated ∧ forall other g, meaning operations other =
        some (g, some data) -> other = name := by
    intro data heq
    rw [hfirst] at heq
    rcases Option.bind_eq_some_iff.mp heq with ⟨⟨f, _⟩, hfound, rfl⟩
    rw [h.bound] at hfound
    rcases hdata f data (by rw [hbound, hfound]) with ⟨hallocated, hown⟩
    exact ⟨hallocated, fun other g hother => hown other g (by rw [hbound, hother])⟩
  have hfreed : exists storage', free s.storage
      (firstData name (remaining operations)) = some storage' := by
    cases hcase : firstData name (remaining operations) with
    | none => exact ⟨_, rfl⟩
    | some data => exact ⟨_, if_pos (hlive data hcase).left⟩
  rcases apply_deregister h.holds name with ⟨table, happly, hholds⟩
  rcases hfreed with ⟨storage', hfree⟩
  rw [hfree] at happly
  have hmap : meaning (operations ++ [.deregister name]) =
      Function.update (meaning operations) name none :=
    meaning_snoc operations (.deregister name)
  refine ⟨_, happly, ?_, ?_, ?_⟩
  · rw [remaining_snoc]
    exact hholds
  · rw [remaining_snoc, hmap, ← h.bound]
    funext other
    by_cases hother : other = name
    · rw [hother, Function.update_self]
      exact bound_without_self.mpr honce
    · rw [Function.update_of_ne hother]
      exact bound_of_others (others_without name _) hother
  · intro other g data hother
    rw [hmap] at hother
    by_cases hsame : other = name
    · rw [hsame, Function.update_self] at hother
      cases hother
    · rw [Function.update_of_ne hsame] at hother
      have hkept : firstData name (remaining operations) ≠ some data :=
        fun heq => hsame ((hlive data heq).right other g hother)
      show storage' data ≠ .freed
      rw [free_ne hfree hkept]
      exact h.live other g data hother

theorem follows_of_allowed (h : Allowed storage operations) :
    exists s, operate storage operations = some s ∧ s.Follows operations := by
  induction operations using List.reverseRecOn with
  | nil =>
      exact ⟨_, rfl, ⟨rfl, ⟨[], rfl⟩, fun _ => rfl⟩, rfl,
        fun _ _ _ heq => nomatch heq⟩
  | append_singleton operations operation ih =>
      rcases ih (fun before op hstarts =>
        h before op (hstarts.trans (List.prefix_append _ _))) with
        ⟨s, hs, hfollows⟩
      have hallows := h operations operation (List.prefix_refl _) s hs
      rw [operate_snoc, hs]
      cases operation with
      | register binding => exact follows_register hfollows hallows
      | deregister name => exact follows_deregister hfollows hallows

/-- Where the map is followed behind a registration, its data is not freed. -/
theorem allows_of_registered (hholds : s.table.Holds bindings)
    {binding : Binding function memory}
    (happly : Operation.apply (.register binding) s = some s')
    (hinvoked : exists found, s'.invoked binding.name = some found) :
    s.Allows (.register binding) := by
  intro data hdata hfreed
  rcases apply_register hholds binding with ⟨table, heq, hholds'⟩
  cases heq.symm.trans happly
  rcases hinvoked with ⟨found, hfound⟩
  have hown : bound (bindings ++ [binding]) binding.name =
      some (binding.function, some data) := by
    rw [bound_append, Function.update_self, hdata]
  have hnone : Machine.invoked ⟨table, s.storage⟩ binding.name = none := by
    unfold Machine.invoked
    rw [hholds'.invoked, hown]
    exact if_pos hfreed
  cases hnone.symm.trans hfound

/-- Where the map is followed behind a deregistration, the name had one entry,
with data of its own. -/
theorem allows_of_deregistered (hholds : s.table.Holds bindings)
    (happly : Operation.apply (.deregister name) s = some s')
    (hfree : s'.invoked name = some none)
    (hinvoked : forall other, exists found, s'.invoked other = some found) :
    s.Allows (.deregister name) := by
  rcases apply_deregister hholds name with ⟨table, heq, hholds'⟩
  rcases Option.map_eq_some_iff.mp (heq.symm.trans happly) with
    ⟨storage', hstorage, rfl⟩
  have hgone : bound (without name bindings) name = none := by
    unfold Machine.invoked at hfree
    rw [hholds'.invoked] at hfree
    split at hfree
    · split at hfree <;> cases hfree
    · exact Option.some.inj hfree
  have honce := bound_without_self.mp hgone
  refine ⟨by rw [hholds.entries]; exact honce, ?_⟩
  intro f data hdata
  rw [hholds.invoked] at hdata
  have hfirst : firstData name bindings = some data := by
    rw [firstData_of_once honce, Option.some.inj hdata]
    rfl
  rw [hfirst] at hstorage
  rcases free_allocated hstorage with ⟨hallocated, hfreed⟩
  refine ⟨hallocated, ?_⟩
  intro other g hother
  by_contra hne
  rw [hholds.invoked] at hother
  rcases hinvoked other with ⟨found, hfound⟩
  have hnone : Machine.invoked ⟨table, storage'⟩ other = none := by
    unfold Machine.invoked
    rw [hholds'.invoked, bound_of_others (others_without name bindings) hne,
      Option.some.inj hother]
    exact if_pos hfreed
  cases hnone.symm.trans hfound

theorem others_unchanged {operation : Operation function memory}
    (hs : operate storage operations = some s)
    (happly : operation.apply s = some s') :
    s'.table.others operation.name = s.table.others operation.name := by
  have hs' : operate storage (operations ++ [operation]) = some s' := by
    rw [operate_snoc, hs]
    exact happly
  rw [(operate_holds hs).others, (operate_holds hs').others, others_remaining]

/-- The table follows the map exactly if each operation is allowed in the state
that it finds. -/
theorem followsMap_iff (storage : memory -> Storage)
    (operations : List (Operation function memory)) :
    FollowsMap storage operations <-> Allowed storage operations := by
  constructor
  · intro h before operation hstarts s hs
    rcases h.invoked _ hstarts with ⟨s', hs', hinvoked⟩
    have happly : operation.apply s = some s' := by
      rw [operate_snoc, hs] at hs'
      exact hs'
    cases operation with
    | register binding =>
        exact allows_of_registered (operate_holds hs) happly
          ⟨_, hinvoked binding.name⟩
    | deregister name =>
        apply allows_of_deregistered (operate_holds hs) happly
        · rw [hinvoked name, meaning_snoc]
          exact congrArg some (Function.update_self _ _ _)
        · exact fun other => ⟨_, hinvoked other⟩
  · intro h
    have hbefore : forall {before}, before <+: operations ->
        Allowed storage before :=
      fun hstarts first op hfirst => h first op (hfirst.trans hstarts)
    constructor
    · intro before hstarts
      rcases follows_of_allowed (hbefore hstarts) with ⟨s, hs, hfollows⟩
      exact ⟨s, hs, hfollows.invoked⟩
    · intro before operation hstarts
      rcases follows_of_allowed
        (hbefore ((List.prefix_append _ _).trans hstarts)) with ⟨s, hs, _⟩
      rcases follows_of_allowed (hbefore hstarts) with ⟨s', hs', _⟩
      have happly : operation.apply s = some s' := by
        rw [operate_snoc, hs] at hs'
        exact hs'
      exact ⟨s, s', hs, happly, others_unchanged hs happly⟩

end Map

/--
A name that was registered twice is still bound when it is deregistered, and
data that was not allocated can not be freed.
-/
theorem deregistered_still_bound :
    ¬ FollowsMap (fun _ => .static) [Operation.register (⟨[97], 1, none⟩ :
      Binding Nat Unit),
        .register ⟨[97], 2, none⟩, .deregister [97]] ∧
      ¬ FollowsMap (fun _ => .static)
        [Operation.register (⟨[97], 1, some ()⟩ : Binding Nat Unit),
        .deregister [97]] := by
  constructor
  · intro h
    rcases h.invoked _ (List.prefix_refl _) with ⟨s, hs, hinvoked⟩
    cases hs
    have hfree := hinvoked [97]
    revert hfree
    decide
  · intro h
    rcases h.invoked _ (List.prefix_refl _) with ⟨s, hs, _⟩
    cases hs

end JsonRpc
end Lepd
