import Lepd.JsonRpc.HeapRequests
import Mathlib.Data.List.Forall2

/-!
# Responses from memory

The requests that are evaluated in memory get the responses that they should
get, and nothing that is put into memory for a response stays there.
-/

namespace Lepd
namespace JsonRpc
namespace Heap

open Foundation
open Foundation.Program (Settles Gives Fails)
open CJson
open CJson.Heap (Memory Routine Allocator Trees SameValues shown shownAll
  readItem readText typeOf cJSONPrint cJSONDelete)

variable {double : Type} {mem mem' : Memory double} {a p : Nat}
  {t u : RoseTree Nat} {o : Option (RoseTree Nat)}
  {ts us rest : List (RoseTree Nat)} {item : Option (Item double)}
    {name : Option (List UInt8)}
  {members : List (List UInt8 × Item double)}

inductive Shows (mem : Memory double) : Option (RoseTree Nat) ->
    Option (Item double) -> Prop where
  | none : Shows mem none none
  | some {t : RoseTree Nat} {name : Option (List UInt8)} {item : Item double} :
      shown mem t = some (name, item) -> Shows mem (some t) (some item)

theorem Shows.same (h : Shows mem o item) (hsame : SameValues mem mem' ts)
    (hsub : o.toList ⊆ ts) : Shows mem' o item := by
  cases h with
  | none => exact .none
  | some hshown =>
      rw [← hsame.shown (hsub List.mem_cons_self)] at hshown
      exact .some hshown

/-!
# Building a response
-/

section Build

variable {alloc : Allocator double}

theorem addOptional_trees (hgenerous : alloc.Generous)
    (h : Trees mem (.node a us :: (o.toList ++ rest)))
    (hobject : shown mem (.node a us) = some (name, .object members))
    (ho : Shows mem o item) (string : List UInt8) :
    exists us' mem', Gives (fun fuel =>
      alloc.cJSONAddItemToObject fuel (some a) string (o.map RoseTree.root)) mem
      () mem' ∧
      Trees mem' (.node a us' :: rest) ∧
      shown mem' (.node a us') =
        some (name, .object (JsonRpc.cJSONAddItemToObject members string item)) ∧
      SameValues mem mem' rest := by
  cases ho with
  | none => exact ⟨us, mem, Settles.of rfl, h, hobject, SameValues.refl mem rest⟩
  | some hshown =>
      rcases CJson.Heap.addItemToObject_trees hgenerous h hobject hshown
        string with ⟨mem', hgives, htrees, hnew, hsame⟩
      exact ⟨_, mem', hgives, htrees, hnew, hsame⟩

/-- What is written is what the response shows, and the response is gone then. -/
theorem sendResponse_trees {response : Item double} (h : Trees mem (t :: rest))
    (hshown : shown mem t = some (name, response)) :
    exists mem', Gives (fun fuel => sendResponse fuel (some t.root)) mem
      response mem' ∧ Trees mem' rest ∧
      SameValues mem mem' rest := by
  have hprint := CJson.Heap.print_trees h List.mem_cons_self hshown
  rcases CJson.Heap.delete_trees h with ⟨mem', hdelete, htrees, hsame⟩
  refine ⟨mem', ?_, htrees, hsame⟩
  unfold sendResponse
  apply Settles.bind hprint
  apply Settles.bind hdelete
  exact Settles.of rfl

variable [CDouble double]

theorem addNumber_trees (hgenerous : alloc.Generous)
    (h : Trees mem (.node a us :: rest))
    (hobject : shown mem (.node a us) = some (name, .object members))
    (string : List UInt8) (n : double) :
    exists us' mem', Gives (fun fuel =>
      cJSONAddNumberToObject alloc fuel (some a) string n) mem () mem' ∧
      Trees mem' (.node a us' :: rest) ∧
      shown mem' (.node a us') =
        some (name, .object (members ++ [(string, cJSONCreateNumber n)])) ∧
      SameValues mem mem' rest := by
  rcases CJson.Heap.createNumber_trees hgenerous h n with
    ⟨p, mem₁, hcreate, htrees, hnumber, hsame⟩
  have hobject₁ := hobject
  rw [← hsame.shown List.mem_cons_self] at hobject₁
  rcases CJson.Heap.addItemToObject_trees hgenerous
    (htrees.perm (List.Perm.swap _ _ _)) hobject₁ hnumber string with
    ⟨mem', hadd, htrees', hnew, hsame'⟩
  refine ⟨_, mem', ?_, htrees', hnew,
    (hsame.sub (List.subset_cons_self _ _)).trans hsame'⟩
  unfold cJSONAddNumberToObject
  apply Settles.bind (Settles.of hcreate)
  exact hadd

theorem addString_trees (hgenerous : alloc.Generous)
    (h : Trees mem (.node a us :: rest))
    (hobject : shown mem (.node a us) = some (name, .object members))
    (string s : List UInt8) :
    exists us' mem', Gives (fun fuel =>
      cJSONAddStringToObject alloc fuel (some a) string (some s)) mem () mem' ∧
      Trees mem' (.node a us' :: rest) ∧
      shown mem' (.node a us') =
        some (name, .object (members ++ [(string, .string s)])) ∧
        SameValues mem mem' rest := by
  rcases CJson.Heap.createString_trees hgenerous h s with
    ⟨p, mem₁, hcreate, htrees, hstring, hsame⟩
  have hobject₁ := hobject
  rw [← hsame.shown List.mem_cons_self] at hobject₁
  rcases CJson.Heap.addItemToObject_trees hgenerous
    (htrees.perm (List.Perm.swap _ _ _)) hobject₁ hstring string with
    ⟨mem', hadd, htrees', hnew, hsame'⟩
  refine ⟨_, mem', ?_, htrees', hnew,
    (hsame.sub (List.subset_cons_self _ _)).trans hsame'⟩
  unfold cJSONAddStringToObject
  apply Settles.bind (Settles.of hcreate)
  exact hadd

theorem errorRoot_trees (hgenerous : alloc.Generous)
    (h : Trees mem (.node a us :: rest))
    (hobject : shown mem (.node a us) = some (name, .object [])) (code : Int)
    (message : List UInt8) :
    exists us' mem₁ mem', Gives (fun fuel =>
      cJSONAddNumberToObject alloc fuel (some a) codeName (CDouble.ofInt code))
      mem () mem₁ ∧
      Gives (fun fuel => cJSONAddStringToObject alloc fuel (some a) messageName
        (some message)) mem₁ () mem' ∧
      Trees mem' (.node a us' :: rest) ∧ shown mem' (.node a us') =
        some (name, errorObject code message) ∧
      SameValues mem mem' rest := by
  rcases addNumber_trees hgenerous h hobject codeName (CDouble.ofInt code) with
    ⟨us₁, mem₁, hnumber, htrees₁, hobject₁, hsame₁⟩
  rcases addString_trees hgenerous htrees₁ hobject₁ messageName message with
    ⟨us', mem', hstring, htrees, hobject', hsame⟩
  exact ⟨us', mem₁, mem', hnumber, hstring, htrees, hobject', hsame₁.trans hsame⟩

theorem sendError_trees (hgenerous : alloc.Generous)
    (h : Trees mem (o.toList ++ rest)) (ho : Shows mem o item) (code : Int)
    (message : List UInt8) :
    exists mem', Gives (fun fuel => sendError alloc fuel code (some message)
      (o.map RoseTree.root)) mem
        (.object (JsonRpc.cJSONAddItemToObject
          [(errorName, errorObject code message)] idName item)) mem' ∧
      Trees mem' rest ∧ SameValues mem mem' rest := by
  rcases CJson.Heap.createObject_trees hgenerous h with
    ⟨p, mem₁, hcreate₁, htrees₁, hroot₁, hsame₁⟩
  rcases CJson.Heap.createObject_trees hgenerous htrees₁ with
    ⟨q, mem₂, hcreate₂, htrees₂, hroot₂, hsame₂⟩
  rcases errorRoot_trees hgenerous htrees₂ hroot₂ code message with
    ⟨us, mem₃, mem₄, hnumber, hstring, htrees₄, herror, hsame₄⟩
  have hroot₄ := hroot₁
  rw [← hsame₂.shown List.mem_cons_self,
    ← hsame₄.shown List.mem_cons_self] at hroot₄
  rcases CJson.Heap.addItemToObject_trees hgenerous
    (htrees₄.perm (List.Perm.swap _ _ _)) hroot₄ herror errorName with
    ⟨mem₅, hadd, htrees₅, hroot₅, hsame₅⟩
  have hothers : SameValues mem mem₅ (o.toList ++ rest) :=
    ((hsame₁.trans (hsame₂.sub (List.subset_cons_self _ _))).trans
    (hsame₄.sub (List.subset_cons_self _ _))).trans hsame₅
  rcases addOptional_trees hgenerous htrees₅ hroot₅
    (ho.same hothers (List.subset_append_left _ _)) idName with
    ⟨us', mem₆, hid, htrees₆, hroot₆, hsame₆⟩
  rcases sendResponse_trees htrees₆ hroot₆ with ⟨mem', hsend, htrees, hsame⟩
  refine ⟨mem', ?_, htrees,
    ((hothers.sub (List.subset_append_right _ _)).trans hsame₆).trans hsame⟩
  unfold sendError
  apply Settles.bind (Settles.of hcreate₁)
  apply Settles.bind (Settles.of hcreate₂)
  apply Settles.bind hnumber
  apply Settles.bind hstring
  apply Settles.bind hadd
  apply Settles.bind hid
  exact hsend

/-- An error without a message is no response: the null pointer is used as a
string. -/
theorem sendError_fails (hgenerous : alloc.Generous) (h : Trees mem ts)
    (code : Int) (id : Option Nat) :
    Fails (fun fuel => sendError alloc fuel code none id) mem := by
  rcases CJson.Heap.createObject_trees hgenerous h with
    ⟨p, mem₁, hcreate₁, htrees₁, _, _⟩
  rcases CJson.Heap.createObject_trees hgenerous htrees₁ with
    ⟨q, mem₂, hcreate₂, htrees₂, hroot₂, _⟩
  rcases addNumber_trees hgenerous htrees₂ hroot₂ codeName
    (CDouble.ofInt code) with ⟨us, mem₃, hnumber, _, _, _⟩
  unfold sendError
  apply Settles.bind (Settles.of hcreate₁)
  apply Settles.bind (Settles.of hcreate₂)
  apply Settles.bind hnumber
  apply Settles.bind_none
  exact ⟨0, fun _ _ => rfl⟩

theorem sendResult_trees {result : Option (RoseTree Nat)}
    {resultItem : Option (Item double)} (hgenerous : alloc.Generous)
    (h : Trees mem (result.toList ++ (o.toList ++ rest)))
    (hresult : Shows mem result resultItem) (ho : Shows mem o item) :
    exists mem',
      Gives (fun fuel => sendResult alloc fuel (result.map RoseTree.root)
      (o.map RoseTree.root)) mem
        (.object (JsonRpc.cJSONAddItemToObject
          (JsonRpc.cJSONAddItemToObject [] resultName resultItem) idName item))
          mem' ∧
      Trees mem' rest ∧ SameValues mem mem' rest := by
  rcases CJson.Heap.createObject_trees hgenerous h with
    ⟨p, mem₁, hcreate, htrees₁, hroot₁, hsame₁⟩
  rcases addOptional_trees hgenerous htrees₁ hroot₁
    (hresult.same hsame₁ (List.subset_append_left _ _)) resultName with
    ⟨us₂, mem₂, hadd, htrees₂, hroot₂, hsame₂⟩
  have hothers : SameValues mem mem₂ (o.toList ++ rest) :=
    (hsame₁.sub (List.subset_append_right _ _)).trans hsame₂
  rcases addOptional_trees hgenerous htrees₂ hroot₂
    (ho.same hothers (List.subset_append_left _ _)) idName with
    ⟨us₃, mem₃, hid, htrees₃, hroot₃, hsame₃⟩
  rcases sendResponse_trees htrees₃ hroot₃ with ⟨mem', hsend, htrees, hsame⟩
  refine ⟨mem', ?_, htrees,
    ((hothers.sub (List.subset_append_right _ _)).trans hsame₃).trans hsame⟩
  unfold sendResult
  apply Settles.bind (Settles.of hcreate)
  apply Settles.bind hadd
  apply Settles.bind hid
  exact hsend

end Build

/-!
# Procedures that do what they should
-/

/-- What the procedure leaves in memory beside its result; a result is not sent
together with an error. -/
def lostBy (answer : Returned double) : Option (Item double) :=
  if answer.errorCode ≠ 0 then answer.returned else none

variable {data : Type}

/--
The procedure answers as the function does. It leaves the trees in memory as
they are, and it adds the result to them and nothing else.
-/
def Implements (procedure : JrpcProcedure double data)
    (function : Option (Item double) -> Option (Item double) ->
    Returned double) : Prop :=
  forall (mem : Memory double) (ts : List (RoseTree Nat)) (params id :
    Option (RoseTree Nat))
    (paramsItem idItem : Option (Item double)), Trees mem ts ->
      Shows mem params paramsItem ->
        (forall u, u ∈ params.toList -> exists t, t ∈ ts ∧ RoseTree.Part u t) ->
      Shows mem id idItem -> id.toList ⊆ ts ->
      exists result mem', Gives (fun fuel =>
        procedure.function fuel procedure.data (params.map RoseTree.root)
        (id.map RoseTree.root)) mem
          ⟨result.map RoseTree.root, (function paramsItem idItem).errorCode,
            (function paramsItem idItem).errorMessage⟩ mem' ∧
        Trees mem' (result.toList ++ ts) ∧ SameValues mem mem' ts ∧
          Shows mem' result (function paramsItem idItem).returned

def Refines (server : JrpcServer double data)
    (spec : JsonRpc.JrpcServer double data) : Prop :=
  List.Forall₂ (fun p q => p.name = q.name ∧ Implements p (q.function q.data))
    server.procedures spec.procedures

theorem find_refines {ps : List (JrpcProcedure double data)}
    {qs : List (JsonRpc.JrpcProcedure double data)} (name : List UInt8)
    (h : List.Forall₂ (fun p q => p.name = q.name ∧
    Implements p (q.function q.data)) ps qs) :
    (ps.find? (fun p => p.name = name) = none ∧
    qs.find? (fun q => q.name = name) = none) ∨
      exists p q, ps.find? (fun p => p.name = name) = some p ∧
        qs.find? (fun q => q.name = name) = some q ∧
        Implements p (q.function q.data) := by
  induction h with
  | nil => exact Or.inl ⟨rfl, rfl⟩
  | @cons p q ps qs hfirst _ ih =>
      by_cases hname : p.name = name
      · have hname' : q.name = name := hfirst.left ▸ hname
        refine Or.inr ⟨p, q, ?_, ?_, hfirst.right⟩
        · exact List.find?_cons_of_pos (decide_eq_true hname)
        · exact List.find?_cons_of_pos (decide_eq_true hname')
      · have hname' : q.name ≠ name := hfirst.left ▸ hname
        rw [List.find?_cons, List.find?_cons, decide_eq_false hname,
          decide_eq_false hname']
        exact ih

theorem procedure_refines {server : JrpcServer double data}
    {spec : JsonRpc.JrpcServer double data} (h : Refines server spec)
    (name : List UInt8) :
    (server.procedure name = none ∧ spec.procedure name = none) ∨
      exists p q, server.procedure name = some p ∧ spec.procedure name =
        some q ∧ Implements p (q.function q.data) :=
  find_refines name (List.forall₂_reverse_iff.mpr h)

/-!
# Evaluating a request
-/

section Eval

variable [CDouble double]

def lostOf (spec : JsonRpc.JrpcServer double data)
    (root : List (List UInt8 × Item double)) : Option (Item double) :=
  match cJSONGetObjectItem methodName root with
  | some (.string method) =>
      if paramsOk (cJSONGetObjectItem paramsName root) &&
        idOk (cJSONGetObjectItem idName root) then
        (spec.procedure method).bind (fun procedure =>
          lostBy (procedure.function procedure.data
            (cJSONGetObjectItem paramsName root)
            (idCopy (cJSONGetObjectItem idName root))))
      else none
  | _ => none

/--
The program sends the one response of `sent`, or has no answer if that is
undefined, and leaves the trees as they are, but for `lost`.
-/
def Responds (program : Nat -> Routine double (Item double))
    (mem : Memory double) (ts : List (RoseTree Nat))
    (sent : List (Sent double)) (lost : Option (Item double)) : Prop :=
  (exists response left mem', sent = [.response response] ∧
    Settles program mem (some (response, mem')) ∧
      Trees mem' (left.toList ++ ts) ∧ SameValues mem mem' ts ∧
        Shows mem' left lost) ∨
    (sent = [.undefined] ∧ Settles program mem none)

omit [CDouble double] in
theorem Responds.after {value : Type} {program : Nat -> Routine double value}
    {f : Nat -> value -> Routine double (Item double)}
    {sent : List (Sent double)} {lost : Option (Item double)} {v : value}
    {mem₁ : Memory double} (hfirst : Gives program mem v mem₁)
    (hsame : SameValues mem mem₁ ts)
    (h : Responds (fun fuel => f fuel v) mem₁ ts sent lost) :
    Responds (fun fuel => program fuel >>= f fuel) mem ts sent lost := by
  rcases h with ⟨response, left, mem', hsent, hgives, htrees, hsame',
    hleft⟩ | ⟨hsent, hfails⟩
  · exact Or.inl ⟨response, left, mem', hsent, Settles.bind hfirst hgives,
      htrees, hsame.trans hsame', hleft⟩
  · exact Or.inr ⟨hsent, Settles.bind hfirst hfails⟩

variable {alloc : Allocator double} {server : JrpcServer double data}
  {spec : JsonRpc.JrpcServer double data}

theorem sendError_responds (hgenerous : alloc.Generous)
    {left : Option (RoseTree Nat)} {lost : Option (Item double)}
    (h : Trees mem (o.toList ++ (left.toList ++ ts))) (ho : Shows mem o item)
    (hleft : Shows mem left lost) (code : Int)
    (message : Option (List UInt8)) :
    Responds (fun fuel => sendError alloc fuel code message
      (o.map RoseTree.root)) mem ts (JsonRpc.sendError code message item) lost := by
  cases message with
  | none => exact Or.inr ⟨rfl, sendError_fails hgenerous h code _⟩
  | some message =>
      rcases sendError_trees hgenerous h ho code message with
        ⟨mem', hgives, htrees, hsame⟩
      exact Or.inl ⟨_, left, mem', rfl, hgives, htrees,
        hsame.sub (List.subset_append_right _ _),
        hleft.same hsame (List.subset_append_left _ _)⟩

theorem sendAnswer_responds (hgenerous : alloc.Generous)
    {result : Option (RoseTree Nat)} {answer : Returned double}
    (h : Trees mem (result.toList ++ (o.toList ++ ts)))
    (hresult : Shows mem result answer.returned) (ho : Shows mem o item) :
    Responds (fun fuel => sendAnswer alloc fuel (o.map RoseTree.root)
      ⟨result.map RoseTree.root, answer.errorCode, answer.errorMessage⟩)
      mem ts (if answer.errorCode ≠ 0 then
        JsonRpc.sendError answer.errorCode answer.errorMessage item
        else JsonRpc.sendResult answer.returned item) (lostBy answer) := by
  unfold sendAnswer lostBy
  by_cases hcode : answer.errorCode ≠ 0
  · simp only [if_pos hcode]
    have hperm : (result.toList ++ (o.toList ++ ts)).Perm
        (o.toList ++ (result.toList ++ ts)) := by
      rw [← List.append_assoc, ← List.append_assoc]
      exact List.perm_append_comm.append_right ts
    exact sendError_responds hgenerous (h.perm hperm) ho hresult
      answer.errorCode answer.errorMessage
  · simp only [if_neg hcode]
    rcases sendResult_trees hgenerous h hresult ho with
      ⟨mem', hgives, htrees, hsame⟩
    exact Or.inl ⟨_, none, mem', rfl, hgives, htrees, hsame, .none⟩

theorem invokeProcedure_responds (hgenerous : alloc.Generous)
    (hserver : Refines server spec) {params : Option (RoseTree Nat)}
    {paramsItem : Option (Item double)} (h : Trees mem (o.toList ++ ts))
    (hparams : Shows mem params paramsItem)
    (hparts : forall u, u ∈ params.toList -> exists t, t ∈ ts ∧
    RoseTree.Part u t) (ho : Shows mem o item) (name : List UInt8) :
    Responds (fun fuel => invokeProcedure alloc fuel server name
      (params.map RoseTree.root) (o.map RoseTree.root)) mem ts
      (JsonRpc.invokeProcedure spec name paramsItem item)
      ((spec.procedure name).bind (fun procedure =>
        lostBy (procedure.function procedure.data paramsItem item))) := by
  unfold invokeProcedure JsonRpc.invokeProcedure
  rcases procedure_refines hserver name with ⟨hp, hq⟩ | ⟨p, q, hp, hq, himplements⟩
  · simp only [hp, hq]
    exact sendError_responds hgenerous h ho .none jrpcMethodNotFound
      (some methodNotFoundText)
  · simp only [hp, hq]
    have hparts' : forall u, u ∈ params.toList -> exists t, t ∈ o.toList ++ ts ∧
        RoseTree.Part u t := by
      intro u hu
      rcases hparts u hu with ⟨t, ht, hpart⟩
      exact ⟨t, List.mem_append_right _ ht, hpart⟩
    rcases himplements mem _ params o paramsItem item h hparams hparts' ho
      (List.subset_append_left _ _) with
      ⟨result, mem₁, hgives, htrees, hsame, hresult⟩
    apply Responds.after hgives (hsame.sub (List.subset_append_right _ _))
    exact sendAnswer_responds hgenerous htrees hresult
      (ho.same hsame (List.subset_append_left _ _))

/-!
# The checks
-/

def kind : Item double -> Nat
  | .false => CJson.Heap.cJSONFalse
  | .true => CJson.Heap.cJSONTrue
  | .null => CJson.Heap.cJSONNULL
  | .number _ _ => CJson.Heap.cJSONNumber
  | .string _ => CJson.Heap.cJSONString
  | .array _ => CJson.Heap.cJSONArray
  | .object _ => CJson.Heap.cJSONObject

omit [CDouble double] in
theorem readItem_shown {root : Item double} (h : shown mem t = some (name, root)) :
    exists r children, readItem t.root mem = some (r, mem) ∧ r.type = kind root ∧
      CJson.Heap.Says root r.type r.valueint
        (r.valuestring.bind (CJson.Heap.textAt mem)) children := by
  cases t with
  | node p us =>
      rcases CJson.Heap.shown_node h with
        ⟨type, valueint, valuedouble, valuestring, children, hvalues, _, hitem⟩
      unfold CJson.Heap.valuesOf at hvalues
      rcases Option.map_eq_some_iff.mp hvalues with ⟨r, hr, heq⟩
      cases heq
      have hsays := CJson.Heap.says_of_itemOf hitem
      refine ⟨r, children, CJson.Heap.readItem_apply hr, ?_, hsays⟩
      cases root with
      | null => exact hsays
      | false => exact hsays
      | true => exact hsays
      | number d n => exact hsays.left
      | string text => exact hsays.left
      | array items => exact hsays
      | object members => exact hsays.left

omit [CDouble double] in
theorem typeOf_shows (h : Shows mem o item) :
    typeOf (o.map RoseTree.root) mem = some (item.map kind, mem) := by
  cases h with
  | none => rfl
  | @some t name root hshown =>
      rcases readItem_shown hshown with ⟨r, children, hread, htype, _⟩
      show (readItem t.root >>= _) mem = _
      rw [Program.bind_apply, hread]
      show some (some r.type, mem) = some (some (kind root), mem)
      rw [htype]

omit [CDouble double] in
theorem kind_string (root : Item double) :
    kind root = CJson.Heap.cJSONString <-> exists text, root = .string text := by
  cases root <;> simp [kind, CJson.Heap.cJSONFalse, CJson.Heap.cJSONTrue,
    CJson.Heap.cJSONNULL, CJson.Heap.cJSONNumber,
    CJson.Heap.cJSONString, CJson.Heap.cJSONArray, CJson.Heap.cJSONObject]

omit [CDouble double] in
theorem paramsOk_kind (item : Option (Item double)) : paramsOk item = true <->
    item.map kind = none ∨ item.map kind = some CJson.Heap.cJSONArray ∨
      item.map kind = some CJson.Heap.cJSONObject := by
  cases item with
  | none => simp [paramsOk]
  | some root =>
      cases root <;> simp [paramsOk, kind, CJson.Heap.cJSONFalse,
        CJson.Heap.cJSONTrue, CJson.Heap.cJSONNULL,
        CJson.Heap.cJSONNumber, CJson.Heap.cJSONString, CJson.Heap.cJSONArray,
          CJson.Heap.cJSONObject]

omit [CDouble double] in
theorem idOk_kind (item : Option (Item double)) : idOk item = true <->
    item.map kind = none ∨ item.map kind = some CJson.Heap.cJSONString ∨
      item.map kind = some CJson.Heap.cJSONNumber := by
  cases item with
  | none => simp [idOk]
  | some root =>
      cases root <;> simp [idOk, kind, CJson.Heap.cJSONFalse,
        CJson.Heap.cJSONTrue, CJson.Heap.cJSONNULL,
        CJson.Heap.cJSONNumber, CJson.Heap.cJSONString, CJson.Heap.cJSONArray,
          CJson.Heap.cJSONObject]

omit [CDouble double] in
theorem readString_shown {root : List UInt8} {r : CJson.Heap.Record double}
    (h : r.valuestring.bind (CJson.Heap.textAt mem) = some root) :
    readString r.valuestring mem = some (root, mem) := by
  rcases Option.bind_eq_some_iff.mp h with ⟨q, hq, htext⟩
  rw [hq]
  show readText q mem = _
  unfold readText
  rw [htext]
  rfl

theorem copyId_trees (hgenerous : alloc.Generous) (h : Trees mem ts)
    (ho : Shows mem o item) (hok : idOk item = true) :
    exists copy mem', copyId alloc (o.map RoseTree.root) mem =
      some (copy.map RoseTree.root, mem') ∧
      Trees mem' (copy.toList ++ ts) ∧ SameValues mem mem' ts ∧
        Shows mem' copy (idCopy item) := by
  cases ho with
  | none => exact ⟨none, mem, rfl, h, SameValues.refl mem ts, .none⟩
  | @some t name root hshown =>
      rcases readItem_shown hshown with ⟨r, children, hread, htype, hsays⟩
      have hrun : copyId alloc (some t.root) mem =
          (if r.type = CJson.Heap.cJSONString then do
              let text <- readString r.valuestring
              alloc.cJSONCreateString (some text)
            else alloc.cJSONCreateNumber (CDouble.ofInt r.valueint)) mem := by
        show (readItem t.root >>= _) mem = _
        rw [Program.bind_apply, hread]
        rfl
      cases root with
      | string text =>
          rcases CJson.Heap.createString_trees hgenerous h text with
            ⟨p, mem', hcreate, htrees, hnew, hsame⟩
          refine ⟨some (.node p []), mem', ?_, htrees, hsame, .some hnew⟩
          refine hrun.trans ?_
          rw [if_pos (show r.type = CJson.Heap.cJSONString from htype),
            Program.bind_apply, readString_shown hsays.right]
          exact hcreate
      | number d n =>
          have hne : ¬ r.type = CJson.Heap.cJSONString := by
            rw [htype]
            exact fun heq => nomatch (show 3 = 4 from heq)
          rcases CJson.Heap.createNumber_trees hgenerous h
            (CDouble.ofInt n) with ⟨p, mem', hcreate, htrees, hnew, hsame⟩
          refine ⟨some (.node p []), mem', ?_, htrees, hsame, .some hnew⟩
          refine hrun.trans ?_
          rw [if_neg hne, hsays.right]
          exact hcreate
      | null => cases hok
      | false => cases hok
      | true => cases hok
      | array items => cases hok
      | object members => cases hok

/-!
# The request
-/

theorem invalidRequest_responds (hgenerous : alloc.Generous) (h : Trees mem ts) :
    Responds (fun fuel => invalidRequest alloc fuel) mem ts
      (JsonRpc.sendError jrpcInvalidRequest (some invalidRequestText) none) none :=
  sendError_responds hgenerous h .none .none jrpcInvalidRequest
    (some invalidRequestText)

omit [CDouble double] in
theorem member_trees (h : Trees mem ts) (ht : .node p us ∈ ts)
    (hshown : shown mem (.node p us) = some (name, .object members))
    (string : List UInt8) :
    exists o, Shows mem o (JsonRpc.cJSONGetObjectItem string members) ∧
    o.toList ⊆ us ∧
      Gives (fun fuel => CJson.Heap.cJSONGetObjectItem fuel p string) mem
        (o.map RoseTree.root) mem := by
  rcases CJson.Heap.getObjectItem_trees h ht hshown string with
    ⟨hnone, hgives⟩ | ⟨u, root, hu, ⟨name', hshown'⟩, hsome, hgives⟩
  · rw [hnone]
    exact ⟨none, .none, List.nil_subset us, hgives⟩
  · rw [hsome]
    refine ⟨some u, .some hshown', ?_, hgives⟩
    intro v hv
    rw [List.mem_singleton.mp hv]
    exact hu

theorem evalValid_responds (hgenerous : alloc.Generous)
    (hserver : Refines server spec) {params : Option (RoseTree Nat)}
    {paramsItem : Option (Item double)} (h : Trees mem ts) {method : List UInt8}
    (ht : exists v, v ∈ ts ∧ RoseTree.Part t v)
    (hmethod : shown mem t = some (name, .string method))
    (hparams : Shows mem params paramsItem)
    (hparts : forall u, u ∈ params.toList -> exists v, v ∈ ts ∧
    RoseTree.Part u v) (ho : Shows mem o item) (hok : idOk item = true) :
    Responds (fun fuel => evalValid alloc fuel server t.root
      (params.map RoseTree.root) (o.map RoseTree.root)) mem ts
      (JsonRpc.invokeProcedure spec method paramsItem (idCopy item))
      ((spec.procedure method).bind (fun procedure =>
        lostBy (procedure.function procedure.data paramsItem (idCopy item)))) := by
  rcases copyId_trees hgenerous h ho hok with
    ⟨copy, mem₁, hcopy, htrees, hsame, hshows⟩
  have hkept : forall u, (exists v, v ∈ ts ∧ RoseTree.Part u v) ->
      shown mem₁ u = shown mem u := by
    intro u hu
    rcases hu with ⟨v, hv, hpart⟩
    exact CJson.Heap.shown_congr (fun b hb => hsame v b hv (hpart.items_subset hb))
  have hmethod₁ := hmethod
  rw [← hkept t ht] at hmethod₁
  rcases readItem_shown hmethod₁ with ⟨r, children, hread, _, hsays⟩
  have hparams₁ : Shows mem₁ params paramsItem := by
    cases hparams with
    | none => exact .none
    | some hshown =>
        rw [← hkept _ (hparts _ List.mem_cons_self)] at hshown
        exact .some hshown
  apply Responds.after (Settles.of hcopy) hsame
  apply Responds.after (Settles.of hread) (SameValues.refl mem₁ ts)
  apply Responds.after (Settles.of (readString_shown hsays.right))
    (SameValues.refl mem₁ ts)
  exact invokeProcedure_responds hgenerous hserver htrees hparams₁ hparts hshows
    method

theorem evalId_responds (hgenerous : alloc.Generous)
    (hserver : Refines server spec) {params : Option (RoseTree Nat)}
    {paramsItem : Option (Item double)} (h : Trees mem ts) (hroot : .node p us ∈ ts)
    (hmembers : shown mem (.node p us) = some (name, .object members))
    {method : List UInt8} {name' : Option (List UInt8)}
    (ht : t ∈ us) (hmethod : shown mem t = some (name', .string method))
    (hparams : Shows mem params paramsItem)
    (hparts : params.toList ⊆ us) :
    Responds (fun fuel => evalId alloc fuel server p t.root
      (params.map RoseTree.root)) mem ts
      (if idOk (JsonRpc.cJSONGetObjectItem idName members) then
        JsonRpc.invokeProcedure spec method paramsItem
          (idCopy (JsonRpc.cJSONGetObjectItem idName members))
      else JsonRpc.sendError jrpcInvalidRequest (some invalidRequestText) none)
      (if idOk (JsonRpc.cJSONGetObjectItem idName members) then
        (spec.procedure method).bind (fun procedure =>
          lostBy (procedure.function procedure.data paramsItem
            (idCopy (JsonRpc.cJSONGetObjectItem idName members))))
      else none) := by
  have hpart : forall u, u ∈ us -> exists v, v ∈ ts ∧ RoseTree.Part u v :=
    fun u hu => ⟨_, hroot, .child hu .self⟩
  rcases member_trees h hroot hmembers idName with ⟨o, ho, hsub, hgives⟩
  apply Responds.after hgives (SameValues.refl mem ts)
  apply Responds.after (Settles.of (typeOf_shows ho)) (SameValues.refl mem ts)
  cases hok : idOk (JsonRpc.cJSONGetObjectItem idName members) with
  | true =>
      simp only [if_pos ((idOk_kind _).mp hok), if_true]
      exact evalValid_responds hgenerous hserver h (hpart t ht) hmethod hparams
        (fun u hu => hpart u (hparts hu)) ho hok
  | false =>
      have hnot := fun hkind => Bool.false_ne_true
        (hok.symm.trans ((idOk_kind _).mpr hkind))
      simp only [if_neg hnot, Bool.false_eq_true, if_false]
      exact invalidRequest_responds hgenerous h

theorem evalParams_responds (hgenerous : alloc.Generous)
    (hserver : Refines server spec) (h : Trees mem ts) (hroot : .node p us ∈ ts)
    (hmembers : shown mem (.node p us) = some (name, .object members))
    {method : List UInt8} {name' : Option (List UInt8)}
    (ht : t ∈ us) (hmethod : shown mem t = some (name', .string method))
    (hfound : JsonRpc.cJSONGetObjectItem methodName members =
    some (.string method)) :
    Responds (fun fuel => evalParams alloc fuel server p t.root) mem ts
      (JsonRpc.evalRequest spec members) (lostOf spec members) := by
  rcases member_trees h hroot hmembers paramsName with ⟨o, ho, hsub, hgives⟩
  unfold JsonRpc.evalRequest lostOf
  simp only [hfound]
  apply Responds.after hgives (SameValues.refl mem ts)
  apply Responds.after (Settles.of (typeOf_shows ho)) (SameValues.refl mem ts)
  cases hok : paramsOk (JsonRpc.cJSONGetObjectItem paramsName members) with
  | true =>
      simp only [if_pos ((paramsOk_kind _).mp hok), if_true, Bool.true_and]
      exact evalId_responds hgenerous hserver h hroot hmembers ht hmethod ho hsub
  | false =>
      have hnot := fun hkind => Bool.false_ne_true
        (hok.symm.trans ((paramsOk_kind _).mpr hkind))
      simp only [if_neg hnot, Bool.false_and, Bool.false_eq_true, if_false]
      exact invalidRequest_responds hgenerous h

/--
A request in memory gets the response that it should get. All that is put into
memory for it is gone then, but for the result of a procedure that has also
reported an error.
-/
theorem evalRequest_responds (hgenerous : alloc.Generous)
    (hserver : Refines server spec) (h : Trees mem ts) (hroot : .node p us ∈ ts)
    (hmembers : shown mem (.node p us) = some (name, .object members)) :
    Responds (fun fuel => evalRequest alloc fuel server p) mem ts
      (JsonRpc.evalRequest spec members) (lostOf spec members) := by
  rcases member_trees h hroot hmembers methodName with ⟨o, ho, hsub, hgives⟩
  apply Responds.after hgives (SameValues.refl mem ts)
  have hinvalid :
      (forall method, JsonRpc.cJSONGetObjectItem methodName members ≠
    some (.string method)) ->
      Responds (fun fuel => invalidRequest alloc fuel) mem ts
        (JsonRpc.evalRequest spec members) (lostOf spec members) := by
    intro hnone
    have heq : JsonRpc.evalRequest spec members =
        JsonRpc.sendError jrpcInvalidRequest (some invalidRequestText) none ∧
        lostOf spec members = none := by
      unfold JsonRpc.evalRequest lostOf
      cases hget : JsonRpc.cJSONGetObjectItem methodName members with
      | none => exact ⟨rfl, rfl⟩
      | some root =>
          cases root with
          | string method => exact absurd hget (hnone method)
          | _ => exact ⟨rfl, rfl⟩
    rw [heq.left, heq.right]
    exact invalidRequest_responds hgenerous h
  generalize hfound : JsonRpc.cJSONGetObjectItem methodName members = found at ho
  cases ho with
  | none => exact hinvalid (fun method heq => nomatch hfound.symm.trans heq)
  | @some t name' root hshown =>
      rcases readItem_shown hshown with ⟨r, children, hread, htype, _⟩
      apply Responds.after (Settles.of hread) (SameValues.refl mem ts)
      by_cases hstring : r.type = CJson.Heap.cJSONString
      · simp only [if_pos hstring]
        rcases (kind_string root).mp (htype.symm.trans hstring) with ⟨method, rfl⟩
        exact evalParams_responds hgenerous hserver h hroot hmembers
          (hsub List.mem_cons_self) hshown hfound
      · simp only [if_neg hstring]
        apply hinvalid
        intro method heq
        cases Option.some.inj (hfound.symm.trans heq)
        exact hstring (htype.trans rfl)

end Eval

end Heap
end JsonRpc
end Lepd
