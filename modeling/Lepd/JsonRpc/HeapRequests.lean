import Lepd.CJson.HeapTrees

/-!
# Requests in memory

Here a request is evaluated with the trees in memory: the members are found
through pointers, the response is put together from new items, printed and given
back.
-/

namespace Lepd
namespace JsonRpc
namespace Heap

open Foundation
open Foundation.Program (Agrees Stable Gives Fails)
open CJson
open CJson.Heap (Memory Routine Allocator Trees SameValues shown shownAll
  readItem readText typeOf cJSONPrint cJSONDelete)

variable {double : Type}

/-!
# Procedures
-/

structure Answer where
  returned : Option Nat
  errorCode : Int
  errorMessage : Option (List UInt8)

structure JrpcProcedure (double data : Type) where
  name : List UInt8
  function : Nat -> data -> Option Nat -> Option Nat -> Routine double Answer
  data : data
  stable : forall params id, Stable (fun fuel => function fuel data params id)

structure JrpcServer (double data : Type) where
  procedures : List (JrpcProcedure double data)

def JrpcServer.procedure {data : Type} (server : JrpcServer double data)
    (name : List UInt8) : Option (JrpcProcedure double data) :=
  server.procedures.reverse.find? (fun procedure => procedure.name = name)

/-!
# Responses
-/

section Eval

variable [CDouble double] (alloc : Allocator double) (fuel : Nat)

def cJSONAddNumberToObject (object : Option Nat) (name : List UInt8)
    (n : double) : Routine double Unit := do
  let item <- alloc.cJSONCreateNumber n
  alloc.cJSONAddItemToObject fuel object name item

def cJSONAddStringToObject (object : Option Nat) (name : List UInt8)
    (s : Option (List UInt8)) : Routine double Unit := do
  let item <- alloc.cJSONCreateString s
  alloc.cJSONAddItemToObject fuel object name item

/-- The end of `send_error` and `send_result`: the response is written and given
back. -/
def sendResponse (root : Option Nat) : Routine double (Item double) := do
  let response <- cJSONPrint fuel root
  cJSONDelete fuel root
  return response

def sendError (code : Int) (message : Option (List UInt8)) (id : Option Nat) :
    Routine double (Item double) := do
  let resultRoot <- alloc.cJSONCreateObject
  let errorRoot <- alloc.cJSONCreateObject
  cJSONAddNumberToObject alloc fuel errorRoot codeName (CDouble.ofInt code)
  cJSONAddStringToObject alloc fuel errorRoot messageName message
  alloc.cJSONAddItemToObject fuel resultRoot errorName errorRoot
  alloc.cJSONAddItemToObject fuel resultRoot idName id
  sendResponse fuel resultRoot

/-- `send_result`; adding no result and adding a null pointer are the same. -/
def sendResult (result id : Option Nat) : Routine double (Item double) := do
  let resultRoot <- alloc.cJSONCreateObject
  alloc.cJSONAddItemToObject fuel resultRoot resultName result
  alloc.cJSONAddItemToObject fuel resultRoot idName id
  sendResponse fuel resultRoot

variable {data : Type} (server : JrpcServer double data)

def sendAnswer (id : Option Nat) (answer : Answer) : Routine double (Item double) :=
  if answer.errorCode ≠ 0 then sendError alloc fuel answer.errorCode
    answer.errorMessage id
  else sendResult alloc fuel answer.returned id

def invokeProcedure (name : List UInt8) (params id : Option Nat) :
    Routine double (Item double) :=
  match server.procedure name with
  | none => sendError alloc fuel jrpcMethodNotFound (some methodNotFoundText) id
  | some procedure => do
      let answer <- procedure.function fuel procedure.data params id
      sendAnswer alloc fuel id answer

/-- The text of an item; a null pointer has none. -/
def readString : Option Nat -> Routine double (List UInt8)
  | none => StateT.lift none
  | some p => readText p

def copyId (id : Option Nat) : Routine double (Option Nat) :=
  match id with
  | none => pure none
  | some p => do
      let r <- readItem p
      if r.type = CJson.Heap.cJSONString then do
        let text <- readString r.valuestring
        alloc.cJSONCreateString (some text)
      else alloc.cJSONCreateNumber (CDouble.ofInt r.valueint)

def invalidRequest : Routine double (Item double) :=
  sendError alloc fuel jrpcInvalidRequest (some invalidRequestText) none

def evalValid (method : Nat) (params id : Option Nat) :
    Routine double (Item double) := do
  let idCopy <- copyId alloc id
  let r <- readItem method
  let name <- readString r.valuestring
  invokeProcedure alloc fuel server name params idCopy

def evalId (root method : Nat) (params : Option Nat) :
    Routine double (Item double) := do
  let id <- CJson.Heap.cJSONGetObjectItem fuel root idName
  let type <- typeOf id
  if type = none ∨ type = some CJson.Heap.cJSONString ∨
    type = some CJson.Heap.cJSONNumber then
    evalValid alloc fuel server method params id
  else invalidRequest alloc fuel

def evalParams (root method : Nat) : Routine double (Item double) := do
  let params <- CJson.Heap.cJSONGetObjectItem fuel root paramsName
  let type <- typeOf params
  if type = none ∨ type = some CJson.Heap.cJSONArray ∨
    type = some CJson.Heap.cJSONObject then
    evalId alloc fuel server root method params
  else invalidRequest alloc fuel

def evalMethod (root : Nat) (method : Option Nat) : Routine double (Item double) :=
  match method with
  | none => invalidRequest alloc fuel
  | some method => do
      let r <- readItem method
      if r.type = CJson.Heap.cJSONString then
        evalParams alloc fuel server root method else invalidRequest alloc fuel

/-- `eval_request`, and the response that it sends. -/
def evalRequest (root : Nat) : Routine double (Item double) := do
  let method <- CJson.Heap.cJSONGetObjectItem fuel root methodName
  evalMethod alloc fuel server root method

def evalRoot (root : Nat) : Routine double (Option (Item double)) := do
  let r <- readItem root
  if r.type = CJson.Heap.cJSONObject then do
    let response <- evalRequest alloc fuel server root
    return some response
  else return none

def handleRoot (root : Nat) : Routine double (Option (Item double)) := do
  let response <- evalRoot alloc fuel server root
  cJSONDelete fuel (some root)
  return response

end Eval

/-!
# More fuel
-/

section Stable

variable [CDouble double] (alloc : Allocator double) {data : Type}
  (server : JrpcServer double data)

theorem cJSONAddNumberToObject_stable (object : Option Nat) (name : List UInt8)
    (n : double) :
    Stable (fun fuel => cJSONAddNumberToObject alloc fuel object name n) := by
  intro fuel
  apply (Agrees.refl (alloc.cJSONCreateNumber n)).bind
  intro item
  exact alloc.cJSONAddItemToObject_stable object name item fuel

theorem cJSONAddStringToObject_stable (object : Option Nat) (name : List UInt8)
    (s : Option (List UInt8)) :
    Stable (fun fuel => cJSONAddStringToObject alloc fuel object name s) := by
  intro fuel
  apply (Agrees.refl (alloc.cJSONCreateString s)).bind
  intro item
  exact alloc.cJSONAddItemToObject_stable object name item fuel

omit [CDouble double] in
theorem sendResponse_stable (root : Option Nat) :
    Stable (fun fuel => (sendResponse fuel root : Routine double _)) := by
  intro fuel
  apply (CJson.Heap.cJSONPrint_stable root fuel).bind
  intro response
  exact (CJson.Heap.cJSONDelete_stable root fuel).bind (fun _ => Agrees.refl _)

theorem sendError_stable (code : Int) (message : Option (List UInt8))
    (id : Option Nat) :
    Stable (fun fuel => sendError alloc fuel code message id) := by
  intro fuel
  apply (Agrees.refl alloc.cJSONCreateObject).bind
  intro resultRoot
  apply (Agrees.refl alloc.cJSONCreateObject).bind
  intro errorRoot
  apply (cJSONAddNumberToObject_stable alloc errorRoot codeName
    (CDouble.ofInt code) fuel).bind
  intro _
  apply (cJSONAddStringToObject_stable alloc errorRoot messageName message
    fuel).bind
  intro _
  apply (alloc.cJSONAddItemToObject_stable resultRoot errorName errorRoot fuel).bind
  intro _
  apply (alloc.cJSONAddItemToObject_stable resultRoot idName id fuel).bind
  intro _
  exact sendResponse_stable resultRoot fuel

theorem sendResult_stable (result id : Option Nat) :
    Stable (fun fuel => sendResult alloc fuel result id) := by
  intro fuel
  apply (Agrees.refl alloc.cJSONCreateObject).bind
  intro resultRoot
  apply (alloc.cJSONAddItemToObject_stable resultRoot resultName result fuel).bind
  intro _
  apply (alloc.cJSONAddItemToObject_stable resultRoot idName id fuel).bind
  intro _
  exact sendResponse_stable resultRoot fuel

theorem invokeProcedure_stable (name : List UInt8) (params id : Option Nat) :
    Stable (fun fuel => invokeProcedure alloc fuel server name params id) := by
  intro fuel
  show Agrees (invokeProcedure alloc fuel server name params id)
    (invokeProcedure alloc (fuel + 1) server name params id)
  unfold invokeProcedure
  cases server.procedure name with
  | none => exact sendError_stable alloc _ _ id fuel
  | some procedure =>
      apply (procedure.stable params id fuel).bind
      intro answer
      exact Agrees.ite (sendError_stable alloc _ _ id fuel)
        (sendResult_stable alloc _ id fuel)

theorem invalidRequest_stable : Stable (fun fuel => invalidRequest alloc fuel) :=
  sendError_stable alloc _ _ none

theorem evalId_stable (root method : Nat) (params : Option Nat) :
    Stable (fun fuel => evalId alloc fuel server root method params) := by
  intro fuel
  apply (CJson.Heap.cJSONGetObjectItem_stable root idName fuel).bind
  intro id
  apply (Agrees.refl (typeOf id)).bind
  intro type
  apply Agrees.ite
  · apply (Agrees.refl (copyId alloc id)).bind
    intro idCopy
    apply (Agrees.refl (readItem method)).bind
    intro r
    apply (Agrees.refl (readString r.valuestring)).bind
    intro name
    exact invokeProcedure_stable alloc server name params idCopy fuel
  · exact invalidRequest_stable alloc fuel

theorem evalParams_stable (root method : Nat) :
    Stable (fun fuel => evalParams alloc fuel server root method) := by
  intro fuel
  apply (CJson.Heap.cJSONGetObjectItem_stable root paramsName fuel).bind
  intro params
  apply (Agrees.refl (typeOf params)).bind
  intro type
  exact Agrees.ite (evalId_stable alloc server root method params fuel)
    (invalidRequest_stable alloc fuel)

theorem evalRequest_stable (root : Nat) :
    Stable (fun fuel => evalRequest alloc fuel server root) := by
  intro fuel
  apply (CJson.Heap.cJSONGetObjectItem_stable root methodName fuel).bind
  intro method
  cases method with
  | none => exact invalidRequest_stable alloc fuel
  | some method =>
      apply (Agrees.refl (readItem method)).bind
      intro r
      exact Agrees.ite (evalParams_stable alloc server root method fuel)
        (invalidRequest_stable alloc fuel)

theorem evalRoot_stable (root : Nat) :
    Stable (fun fuel => evalRoot alloc fuel server root) := by
  intro fuel
  apply (Agrees.refl (readItem root)).bind
  intro r
  exact Agrees.ite ((evalRequest_stable alloc server root fuel).bind
    (fun _ => Agrees.refl _)) (Agrees.refl _)

theorem handleRoot_stable (root : Nat) :
    Stable (fun fuel => handleRoot alloc fuel server root) := by
  intro fuel
  apply (evalRoot_stable alloc server root fuel).bind
  intro response
  exact (CJson.Heap.cJSONDelete_stable (some root) fuel).bind
    (fun _ => Agrees.refl _)

end Stable

end Heap
end JsonRpc
end Lepd
