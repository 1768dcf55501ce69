import Lepd.CJson.Printer

/-!
# Evaluating a request

A request object is checked, its procedure is looked up and called, and one
response is sent.
-/

namespace Lepd
namespace JsonRpc

open CJson

variable {double : Type}

/-!
# Members of an object
-/

def tolower (c : UInt8) : UInt8 :=
  if 65 <= c ∧ c <= 90 then c + 32 else c

def cJSONStrcasecmp : List UInt8 -> List UInt8 -> Int
  | [], [] => 0
  | [], d :: _ => -(tolower d).toNat
  | c :: _, [] => (tolower c).toNat
  | c :: s1, d :: s2 =>
      if tolower c = tolower d then cJSONStrcasecmp s1 s2
      else (tolower c).toNat - (tolower d).toNat

/-- The first member with a name. -/
def cJSONGetObjectItem (string : List UInt8) :
    List (List UInt8 × Item double) -> Option (Item double)
  | [] => none
  | (name, c) :: members =>
      if cJSONStrcasecmp name string ≠ 0 then cJSONGetObjectItem string members
      else some c

def cJSONAddItemToObject (members : List (List UInt8 × Item double))
    (string : List UInt8)
    (item : Option (Item double)) : List (List UInt8 × Item double) :=
  match item with
  | none => members
  | some item => members ++ [(string, item)]

/-- The name `method`. -/
abbrev methodName : List UInt8 := [109, 101, 116, 104, 111, 100]

abbrev paramsName : List UInt8 := [112, 97, 114, 97, 109, 115]

/-- The name `id`. -/
abbrev idName : List UInt8 := [105, 100]

abbrev resultName : List UInt8 := [114, 101, 115, 117, 108, 116]

abbrev errorName : List UInt8 := [101, 114, 114, 111, 114]

abbrev codeName : List UInt8 := [99, 111, 100, 101]

abbrev messageName : List UInt8 := [109, 101, 115, 115, 97, 103, 101]

def methodNotFoundText : List UInt8 :=
  [77, 101, 116, 104, 111, 100, 32, 110, 111, 116, 32, 102, 111, 117, 110, 100, 46]

def invalidRequestText : List UInt8 :=
  [84, 104, 101, 32, 74, 83, 79, 78, 32, 115, 101, 110, 116, 32, 105, 115, 32,
    110, 111, 116, 32, 97,
    32, 118, 97, 108, 105, 100, 32, 82, 101, 113, 117, 101, 115, 116, 32, 111,
      98, 106, 101, 99, 116, 46]

def jrpcInvalidRequest : Int := -32600

def jrpcMethodNotFound : Int := -32601

/-!
# Procedures
-/

/-- What a procedure answers, and what it has left in its context. -/
structure Returned (double : Type) where
  returned : Option (Item double)
  errorCode : Int
  errorMessage : Option (List UInt8)

structure JrpcProcedure (double data : Type) where
  name : List UInt8
  function : data -> Option (Item double) -> Option (Item double) -> Returned double
  data : data

/-- The table of procedures. -/
structure JrpcServer (double data : Type) where
  procedures : List (JrpcProcedure double data)

/-- What is sent for a request. -/
inductive Sent (double : Type) where
  | response (root : Item double)
  /-- A null pointer was used as a string. -/
  | undefined

def sendResponse [CPrintf double] (root : Item double) : List UInt8 :=
  cJSONPrint root ++ [newline]

theorem mem_addItem {m : List UInt8 × Item double}
    {members : List (List UInt8 × Item double)}
    (h : m ∈ members) (string : List UInt8) (item : Option (Item double)) :
    m ∈ cJSONAddItemToObject members string item := by
  cases item with
  | none =>
      exact h
  | some item =>
      exact List.mem_append_left _ h

def outcomes (root : List (List UInt8 × Item double)) : Nat :=
  (root.filter (fun m => m.1 = resultName ∨ m.1 = errorName)).length

theorem outcomes_id (members : List (List UInt8 × Item double))
    (id : Option (Item double)) :
    outcomes (cJSONAddItemToObject members idName id) = outcomes members := by
  cases id with
  | none =>
      rfl
  | some id =>
      rw [cJSONAddItemToObject, outcomes, List.filter_append, List.length_append]
      rfl

section Eval

variable {data : Type}

def JrpcServer.procedure (server : JrpcServer double data) (name : List UInt8) :
    Option (JrpcProcedure double data) :=
  server.procedures.reverse.find? (fun procedure => procedure.name = name)

theorem procedure_none {server : JrpcServer double data} {name : List UInt8} :
    server.procedure name = none <->
      forall procedure, procedure ∈ server.procedures -> procedure.name ≠ name := by
  unfold JrpcServer.procedure
  rw [List.find?_eq_none]
  simp only [List.mem_reverse, decide_eq_true_eq]

variable [CDouble double]

def cJSONCreateNumber (num : double) : Item double :=
  .number num (CDouble.toInt num)

def errorObject (code : Int) (message : List UInt8) : Item double :=
  .object [(codeName, cJSONCreateNumber (CDouble.ofInt code)),
    (messageName, .string message)]

def sendError (code : Int) (message : Option (List UInt8))
    (id : Option (Item double)) : List (Sent double) :=
  match message with
  | none => [.undefined]
  | some message =>
      [.response
      (.object (cJSONAddItemToObject [(errorName, errorObject code message)]
      idName id))]

def sendResult (result id : Option (Item double)) : List (Sent double) :=
  [.response
    (.object (cJSONAddItemToObject (cJSONAddItemToObject [] resultName result)
    idName id))]

def invokeProcedure (server : JrpcServer double data) (name : List UInt8)
    (params id : Option (Item double)) :
    List (Sent double) :=
  match server.procedure name with
  | none => sendError jrpcMethodNotFound (some methodNotFoundText) id
  | some procedure =>
      let answer := procedure.function procedure.data params id
      if answer.errorCode ≠ 0 then sendError answer.errorCode answer.errorMessage id
      else sendResult answer.returned id

def paramsOk : Option (Item double) -> Bool
  | none => true
  | some (.array _) => true
  | some (.object _) => true
  | _ => false

def idOk : Option (Item double) -> Bool
  | none => true
  | some (.string _) => true
  | some (.number _ _) => true
  | _ => false

def idCopy : Option (Item double) -> Option (Item double)
  | some (.string valuestring) => some (.string valuestring)
  | some (.number _ valueint) => some (cJSONCreateNumber (CDouble.ofInt valueint))
  | _ => none

def evalRequest (server : JrpcServer double data)
    (root : List (List UInt8 × Item double)) :
    List (Sent double) :=
  match cJSONGetObjectItem methodName root with
  | some (.string method) =>
      if paramsOk (cJSONGetObjectItem paramsName root) then
        if idOk (cJSONGetObjectItem idName root) then
          invokeProcedure server method (cJSONGetObjectItem paramsName root)
            (idCopy (cJSONGetObjectItem idName root))
        else sendError jrpcInvalidRequest (some invalidRequestText) none
      else sendError jrpcInvalidRequest (some invalidRequestText) none
  | _ => sendError jrpcInvalidRequest (some invalidRequestText) none

/-!
# What a request asks for
-/

/-- The request is one that `eval_request` passes on. -/
def Valid (root : List (List UInt8 × Item double)) : Prop :=
  (exists method, cJSONGetObjectItem methodName root = some (.string method)) ∧
    paramsOk (cJSONGetObjectItem paramsName root) = true ∧
      idOk (cJSONGetObjectItem idName root) = true

def Unknown (server : JrpcServer double data)
    (root : List (List UInt8 × Item double)) : Prop :=
  Valid root ∧ exists method, cJSONGetObjectItem methodName root =
    some (.string method) ∧
    forall procedure, procedure ∈ server.procedures -> procedure.name ≠ method

/-- The procedure that the request names answers this. -/
def Asks (server : JrpcServer double data) (root : List (List UInt8 × Item double))
    (answer : Returned double) : Prop :=
  Valid root ∧ exists method procedure, cJSONGetObjectItem methodName root =
    some (.string method) ∧
    server.procedure method = some procedure ∧
    answer = procedure.function procedure.data (cJSONGetObjectItem paramsName root)
      (idCopy (cJSONGetObjectItem idName root))

/-- One response is sent, with one outcome, and it is the one that the request
asks for. -/
def Shaped (server : JrpcServer double data)
    (root : List (List UInt8 × Item double))
    (sent : List (Sent double)) : Prop :=
  exists response, sent = [.response (.object response)] ∧ outcomes response = 1 ∧
    (¬ Valid root -> exists message,
    (errorName, errorObject jrpcInvalidRequest message) ∈ response) ∧
    (Unknown server root -> exists message,
    (errorName, errorObject jrpcMethodNotFound message) ∈ response) ∧
    (forall answer, Asks server root answer -> answer.errorCode ≠ 0 ->
      exists message, answer.errorMessage = some message ∧
        (errorName, errorObject answer.errorCode message) ∈ response) ∧
    (forall answer, Asks server root answer -> answer.errorCode = 0 ->
      exists result, answer.returned = some result ∧ (resultName, result) ∈
        response)

theorem request_cases (server : JrpcServer double data)
    (root : List (List UInt8 × Item double)) :
    (¬ Valid root ∧ evalRequest server root = sendError jrpcInvalidRequest
    (some invalidRequestText) none) ∨
      (exists method, Valid root ∧ cJSONGetObjectItem methodName root =
        some (.string method) ∧
        evalRequest server root = invokeProcedure server method
          (cJSONGetObjectItem paramsName root)
          (idCopy (cJSONGetObjectItem idName root))) := by
  unfold evalRequest
  split
  · next method hmethod =>
      by_cases hparams : paramsOk (cJSONGetObjectItem paramsName root) = true
      · by_cases hid : idOk (cJSONGetObjectItem idName root) = true
        · rw [if_pos hparams, if_pos hid]
          exact Or.inr ⟨method, ⟨⟨method, hmethod⟩, hparams, hid⟩, hmethod, rfl⟩
        · rw [if_pos hparams, if_neg hid]
          exact Or.inl ⟨fun h => hid h.right.right, rfl⟩
      · rw [if_neg hparams]
        exact Or.inl ⟨fun h => hparams h.right.left, rfl⟩
  · next hmethod =>
      refine Or.inl ⟨?_, rfl⟩
      rintro ⟨⟨method, hstring⟩, _⟩
      exact hmethod method hstring

section Shapes

variable {server : JrpcServer double data}
  {root : List (List UInt8 × Item double)} {answer answer' : Returned double}

theorem Asks.eq (h : Asks server root answer) (h' : Asks server root answer') :
    answer' = answer := by
  rcases h with ⟨_, method, procedure, hmethod, hprocedure, rfl⟩
  rcases h' with ⟨_, method', procedure', hmethod', hprocedure', rfl⟩
  cases hmethod.symm.trans hmethod'
  cases hprocedure.symm.trans hprocedure'
  rfl

theorem Asks.not_unknown (h : Asks server root answer) : ¬ Unknown server root := by
  intro hunknown
  rcases h with ⟨_, method, procedure, hmethod, hprocedure, _⟩
  rcases hunknown with ⟨_, method', hmethod', hnone⟩
  cases hmethod.symm.trans hmethod'
  rw [procedure_none.mpr hnone] at hprocedure
  cases hprocedure

/-- A valid request names a method that is unknown, or asks a procedure. -/
theorem unknown_or_asks (hvalid : Valid root) :
    Unknown server root ∨ exists answer, Asks server root answer := by
  rcases hvalid.left with ⟨method, hmethod⟩
  cases hfound : server.procedure method with
  | none =>
      exact Or.inl ⟨hvalid, method, hmethod, procedure_none.mp hfound⟩
  | some procedure =>
      exact Or.inr ⟨_, hvalid, method, procedure, hmethod, hfound, rfl⟩

theorem Asks.sent (h : Asks server root answer) : evalRequest server root =
    if answer.errorCode ≠ 0 then
      sendError answer.errorCode answer.errorMessage
        (idCopy (cJSONGetObjectItem idName root))
    else sendResult answer.returned (idCopy (cJSONGetObjectItem idName root)) := by
  rcases h with ⟨hvalid, method, procedure, hmethod, hprocedure, rfl⟩
  rcases request_cases server root with
    ⟨hinvalid, _⟩ | ⟨method', _, hmethod', hsent⟩
  · exact absurd hvalid hinvalid
  · cases hmethod.symm.trans hmethod'
    rw [hsent, invokeProcedure, hprocedure]

theorem shaped_of_invalid (hinvalid : ¬ Valid root) :
    Shaped server root (evalRequest server root) := by
  rcases request_cases server root with ⟨_, hsent⟩ | ⟨_, hvalid, _⟩
  · refine ⟨_, hsent, rfl, ?_, ?_, ?_, ?_⟩
    · intro _
      exact ⟨invalidRequestText, List.mem_cons_self⟩
    · intro hunknown
      exact absurd hunknown.left hinvalid
    · intro answer hasks
      exact absurd hasks.left hinvalid
    · intro answer hasks
      exact absurd hasks.left hinvalid
  · exact absurd hvalid hinvalid

theorem shaped_of_unknown (hunknown : Unknown server root) :
    Shaped server root (evalRequest server root) := by
  rcases request_cases server root with ⟨hinvalid, _⟩ | ⟨method, _, hmethod, hsent⟩
  · exact absurd hunknown.left hinvalid
  · rcases hunknown with ⟨hvalid, method', hmethod', hnone⟩
    cases hmethod.symm.trans hmethod'
    rw [invokeProcedure, procedure_none.mpr hnone] at hsent
    refine ⟨_, hsent, ?_, ?_, ?_, ?_, ?_⟩
    · rw [outcomes_id]
      rfl
    · intro hinvalid
      exact absurd hvalid hinvalid
    · intro _
      exact ⟨methodNotFoundText, mem_addItem List.mem_cons_self _ _⟩
    · intro answer hasks
      exact absurd ⟨hvalid, method, hmethod, hnone⟩ hasks.not_unknown
    · intro answer hasks
      exact absurd ⟨hvalid, method, hmethod, hnone⟩ hasks.not_unknown

theorem Asks.shaped_error (h : Asks server root answer) {message : List UInt8}
    (hcode : answer.errorCode ≠ 0)
    (hmessage : answer.errorMessage = some message) :
    Shaped server root (evalRequest server root) := by
  have hsent := h.sent
  rw [if_pos hcode, hmessage] at hsent
  refine ⟨_, hsent, ?_, ?_, ?_, ?_, ?_⟩
  · rw [outcomes_id]
    rfl
  · intro hinvalid
    exact absurd h.left hinvalid
  · intro hunknown
    exact absurd hunknown h.not_unknown
  · intro answer' hasks' _
    rw [h.eq hasks']
    exact ⟨message, hmessage, mem_addItem List.mem_cons_self _ _⟩
  · intro answer' hasks' hcode'
    rw [h.eq hasks'] at hcode'
    exact absurd hcode' hcode

theorem Asks.shaped_result (h : Asks server root answer) {result : Item double}
    (hcode : answer.errorCode = 0)
    (hreturned : answer.returned = some result) :
    Shaped server root (evalRequest server root) := by
  have hsent := h.sent
  rw [if_neg (not_not.mpr hcode), hreturned] at hsent
  refine ⟨_, hsent, ?_, ?_, ?_, ?_, ?_⟩
  · rw [outcomes_id]
    rfl
  · intro hinvalid
    exact absurd h.left hinvalid
  · intro hunknown
    exact absurd hunknown h.not_unknown
  · intro answer' hasks' hcode'
    rw [h.eq hasks'] at hcode'
    exact absurd hcode hcode'
  · intro answer' hasks' _
    rw [h.eq hasks']
    exact ⟨result, hreturned, mem_addItem List.mem_cons_self _ _⟩

end Shapes

/--
The response has the shape that the request asks for exactly if the procedure
that is called leaves a result or an error with its message.
-/
theorem evalRequest_shaped_iff (server : JrpcServer double data)
    (root : List (List UInt8 × Item double)) :
    Shaped server root (evalRequest server root) <->
      forall answer, Asks server root answer ->
        (answer.errorCode = 0 -> answer.returned ≠ none) ∧
          (answer.errorCode ≠ 0 -> answer.errorMessage ≠ none) := by
  constructor
  · intro hshaped answer hasks
    rcases hshaped with ⟨response, _, _, _, _, herror, hresult⟩
    constructor
    · intro hcode hnone
      rcases hresult answer hasks hcode with ⟨result, hsome, _⟩
      rw [hnone] at hsome
      cases hsome
    · intro hcode hnone
      rcases herror answer hasks hcode with ⟨message, hsome, _⟩
      rw [hnone] at hsome
      cases hsome
  · intro hanswers
    by_cases hvalid : Valid root
    · rcases unknown_or_asks hvalid with hunknown | ⟨answer, hasks⟩
      · exact shaped_of_unknown hunknown
      · rcases hanswers answer hasks with ⟨hresult, herror⟩
        by_cases hcode : answer.errorCode = 0
        · rcases Option.ne_none_iff_exists'.mp (hresult hcode) with
            ⟨result, hreturned⟩
          exact hasks.shaped_result hcode hreturned
        · rcases Option.ne_none_iff_exists'.mp (herror hcode) with
            ⟨message, hmessage⟩
          exact hasks.shaped_error hcode hmessage
    · exact shaped_of_invalid hvalid

end Eval

/-- One procedure, that returns no item and no error: it could not open its file. -/
def nullServer : JrpcServer Rat Unit :=
  { procedures := [{ name := [112], data := (),
                     function := fun _ _ _ =>
                       { returned := none, errorCode := 0,
                         errorMessage := none } }] }

/-- The response to that procedure has neither a result nor an error. -/
theorem response_without_outcome :
    ¬ Shaped nullServer [(methodName, .string [112])]
      (evalRequest nullServer [(methodName, .string [112])]) := by
  rintro ⟨response, hsent, hone, _⟩
  cases hsent
  cases hone

end JsonRpc
end Lepd
