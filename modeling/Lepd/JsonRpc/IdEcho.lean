import Lepd.CJson.Transcoding
import Lepd.JsonRpc.EvalRequest

/-!
# The id of a response

A request's id is written as a number or a string, it is copied into the
response, and the client reads it back from the text of the response.
-/

namespace Lepd
namespace JsonRpc

open CJson

/-- How the id of a request is written. -/
inductive IdText where
  | number (n : NumberText) (h : n.Complete)
  | string (s : List StringChar)

/-- The exact value of a `double`, if it is a number. -/
class DoubleValue (double : Type) [CPrintf double] where
  val : double -> Option Rat
  val_ofInt : forall i : Int, IsInt i -> val (CDouble.ofInt i) = some (i : Rat)

instance : DoubleValue Rat where
  val := some
  val_ofInt _ _ := rfl

/-- What the server's own code makes of a request: C strings, `int` codes, and
trees of them. -/
structure JrpcServer.Answers {double data : Type} [CDouble double]
    (server : JrpcServer double data) :
    Prop where
  results : forall procedure, procedure ∈ server.procedures ->
    forall params id result,
    (procedure.function procedure.data params id).returned = some result ->
    OnWire result
  codes : forall procedure, procedure ∈ server.procedures -> forall params id,
    IsInt (procedure.function procedure.data params id).errorCode
  messages : forall procedure, procedure ∈ server.procedures ->
    forall params id message,
    (procedure.function procedure.data params id).errorMessage = some message ->
    nul ∉ message

section Echo

variable {double data : Type}

theorem procedure_mem {server : JrpcServer double data} {name : List UInt8}
    {procedure : JrpcProcedure double data}
    (h : server.procedure name = some procedure) :
    procedure ∈ server.procedures :=
  List.mem_reverse.mp (List.mem_of_find?_eq_some h)

variable [CPrintf double]

/-- The item that the parser makes of the id. -/
def IdText.item : IdText -> Item double
  | .number n _ => n.item
  | .string s => .string (stringValue s)

def IdText.text : IdText -> List UInt8
  | .number n _ => n.text
  | .string s => stringText s

def IdText.Equals [DoubleValue double] : IdText -> Item double -> Prop
  | .number n _, .number d _ => DoubleValue.val d = some n.exact
  | .string s, .string v => v.map Spelled.byte = spelled s
  | _, _ => False

/-- The text written for the response is read back as an object with the id of
the request. -/
def Echoes [DoubleValue double] (stack : Stack) (id : IdText)
    (response : Item double) : Prop :=
  forall following, exists members rest, exists item : Item double,
    cJSONParseStream stack (sendResponse response ++ nul :: following) =
      .ok (.object members) rest ∧
      cJSONGetObjectItem idName members = some item ∧ id.Equals item

/--
The ids that the response can hold: the whole numbers that are an `int`, if they are
converted to it, and the strings that are decoded to what they spell.
-/
def IdText.Fits (double : Type) [CPrintf double] : IdText -> Prop
  | .number n _ =>
      exists i : Int, IsInt i ∧ n.exact = i ∧
        (n.Plain ∨ CDouble.toInt (n.value : double) = i)
  | .string s => Kept s

def Carries (response copy : Item double) : Prop :=
  exists members, response = .object members ∧ OnWire response ∧
    cJSONGetObjectItem idName members = some copy

theorem onWire_addItem {members : List (List UInt8 × Item double)}
    {string : List UInt8} {item : Item double}
    (h : OnWire (.object members)) (hstring : nul ∉ string) (hitem : OnWire item) :
    OnWire (.object (cJSONAddItemToObject members string (some item))) := by
  cases h with
  | object hnames hvalues =>
      constructor
      · intro m hm
        rcases List.mem_append.mp hm with hm | hm
        · exact hnames m hm
        · rw [List.mem_singleton.mp hm]
          exact hstring
      · intro m hm
        rcases List.mem_append.mp hm with hm | hm
        · exact hvalues m hm
        · rw [List.mem_singleton.mp hm]
          exact hitem

theorem onWire_empty : OnWire (.object [] : Item double) := by
  constructor
  · intro m hm
    cases hm
  · intro m hm
    cases hm

theorem result_carries {result copy : Item double} (hresult : OnWire result)
    (hcopy : OnWire copy) :
    Carries (.object (cJSONAddItemToObject
      (cJSONAddItemToObject [] resultName (some result)) idName
      (some copy))) copy :=
  ⟨_, rfl, onWire_addItem (onWire_addItem onWire_empty (by decide) hresult)
    (by decide) hcopy, rfl⟩

variable [LawfulDouble double]

theorem onWire_createNumber {i : Int} (h : IsInt i) :
    OnWire (cJSONCreateNumber (CDouble.ofInt i) : Item double) := by
  rw [cJSONCreateNumber, LawfulDouble.toInt_ofInt i h]
  exact .number h

theorem onWire_error {code : Int} {message : List UInt8} (hcode : IsInt code)
    (hmessage : nul ∉ message) :
    OnWire (errorObject code message : Item double) := by
  have hobject : OnWire (.object (cJSONAddItemToObject [] codeName
      (some (cJSONCreateNumber (CDouble.ofInt code)))) : Item double) :=
    onWire_addItem onWire_empty (by decide) (onWire_createNumber hcode)
  exact onWire_addItem hobject (by decide) (.string hmessage)

theorem error_carries {code : Int} {message : List UInt8} {copy : Item double}
    (hcode : IsInt code)
    (hmessage : nul ∉ message) (hcopy : OnWire copy) :
    Carries (.object (cJSONAddItemToObject
      [(errorName, errorObject code message)] idName (some copy))) copy := by
  have hobject : OnWire (.object (cJSONAddItemToObject [] errorName
      (some (errorObject code message))) : Item double) :=
    onWire_addItem onWire_empty (by decide) (onWire_error hcode hmessage)
  exact ⟨_, rfl, onWire_addItem hobject (by decide) hcopy, rfl⟩

theorem response_carries {server : JrpcServer double data}
    (hanswers : server.Answers)
    {root : List (List UInt8 × Item double)} (hvalid : Valid root)
    {copy response : Item double}
    (hid : idCopy (cJSONGetObjectItem idName root) = some copy)
    (hcopy : OnWire copy)
    (hsent : .response response ∈ evalRequest server root) :
    Carries response copy := by
  rcases request_cases server root with ⟨hinvalid, _⟩ | ⟨method, _, _, heval⟩
  · exact absurd hvalid hinvalid
  rw [heval, hid, invokeProcedure] at hsent
  cases hfound : server.procedure method with
  | none =>
      rw [hfound] at hsent
      cases List.mem_singleton.mp hsent
      exact error_carries ⟨by decide, by decide⟩ (by decide) hcopy
  | some procedure =>
      have hmem := procedure_mem hfound
      rw [hfound] at hsent
      simp only at hsent
      split at hsent
      · next hcode =>
          cases hmessage :
            (procedure.function procedure.data (cJSONGetObjectItem paramsName root)
              (some copy)).errorMessage with
          | none =>
              rw [hmessage] at hsent
              cases List.mem_singleton.mp hsent
          | some message =>
              rw [hmessage] at hsent
              cases List.mem_singleton.mp hsent
              exact error_carries (hanswers.codes procedure hmem _ _)
                (hanswers.messages procedure hmem _ _ message hmessage) hcopy
      · cases hresult :
          (procedure.function procedure.data (cJSONGetObjectItem paramsName root)
            (some copy)).returned with
        | none =>
            rw [hresult] at hsent
            cases List.mem_singleton.mp hsent
            exact ⟨_, rfl, onWire_addItem onWire_empty (by decide) hcopy, rfl⟩
        | some result =>
            rw [hresult] at hsent
            cases List.mem_singleton.mp hsent
            exact result_carries (hanswers.results procedure hmem _ _ result
              hresult) hcopy

def IdText.copy : IdText -> Item double
  | .number n _ =>
      .number (CDouble.ofInt (CDouble.toInt (n.value : double)))
      (CDouble.toInt (n.value : double))
  | .string s => .string (stringValue s)

theorem idCopy_item (id : IdText) : idCopy (some (id.item : Item double)) =
    some id.copy := by
  cases id with
  | number n hn =>
      show some (cJSONCreateNumber _) = some _
      rw [cJSONCreateNumber, LawfulDouble.toInt_ofInt _
        (LawfulDouble.toInt_range _)]
      rfl
  | string s =>
      rfl

theorem onWire_copy (id : IdText) : OnWire (id.copy : Item double) := by
  cases id with
  | number n hn =>
      exact .number (LawfulDouble.toInt_range _)
  | string s =>
      apply OnWire.string
      rw [stringValue_eq]
      exact nul_not_mem_decodeChars s

variable [DoubleValue double]

theorem echoes_iff_equals (stack : Stack) {id : IdText}
    {copy response : Item double}
    (h : Carries response copy) : Echoes stack id response <-> id.Equals copy := by
  rcases h with ⟨members, rfl, hwire, hcopy⟩
  have hread : forall following, cJSONParseStream stack
      (sendResponse (.object members) ++ nul :: following) =
        .ok (.object members) (newline :: nul :: following) := by
    intro following
    rw [sendResponse, List.append_assoc]
    exact cJSONParseStream_container stack .object ws_nil
      (denotes_printValue hwire 0 true)
      (List.mem_cons_of_mem newline List.mem_cons_self)
  constructor
  · intro hechoes
    rcases hechoes [] with ⟨members', rest, item, hparse, hitem, hequals⟩
    rw [hread []] at hparse
    cases hparse
    rw [hcopy] at hitem
    cases hitem
    exact hequals
  · intro hequals following
    exact ⟨members, _, copy, hread following, hcopy, hequals⟩

theorem equals_copy_iff (id : IdText) : id.Equals (id.copy : Item double) <->
    id.Fits double := by
  cases id with
  | number n hn =>
      have hrange : IsInt (CDouble.toInt (n.value : double)) :=
        LawfulDouble.toInt_range _
      show DoubleValue.val _ = some n.exact <-> _
      rw [DoubleValue.val_ofInt _ hrange]
      constructor
      · intro hexact
        exact ⟨_, hrange, (Option.some.inj hexact).symm, Or.inr rfl⟩
      · rintro ⟨i, hi, hexact, hplain | hvalue⟩
        · rw [exact_whole hplain] at hexact
          have hwhole : n.whole = i := Int.cast_injective hexact
          rw [toInt_whole hplain (hwhole ▸ hi), exact_whole hplain]
        · rw [hvalue, hexact]
  | string s =>
      exact stringValue_spelled_iff s

/--
A response has the id of its request exactly if the id is a string that is
decoded to what it spells, or a number that is an `int`.
-/
theorem response_echoes_iff (stack : Stack) {server : JrpcServer double data}
    (hanswers : server.Answers)
    {root : List (List UInt8 × Item double)} (hvalid : Valid root) {id : IdText}
    (hid : cJSONGetObjectItem idName root = some id.item) {response : Item double}
    (hsent : .response response ∈ evalRequest server root) :
    Echoes stack id response <-> id.Fits double := by
  have hcopied : idCopy (cJSONGetObjectItem idName root) =
      some (id.copy : Item double) := by
    rw [hid]
    exact idCopy_item id
  have hcarries := response_carries hanswers hvalid hcopied (onWire_copy id) hsent
  rw [echoes_iff_equals stack hcarries]
  exact equals_copy_iff id

end Echo

theorem singleton_digits {c : UInt8} (h : isDigit c = true) : Digits [c] := by
  intro d hd
  rw [List.mem_singleton.mp hd]
  exact h

/-- The id `1.5`. -/
def fractionId : IdText :=
  .number
    { negative := false, int := [49], frac := [53], exp := none,
      int_digits := singleton_digits rfl, int_leading :=
        Or.inr (Or.inr ⟨49, [], rfl, by decide⟩),
      frac_digits := singleton_digits rfl }
    ⟨List.cons_ne_nil 49 [], fun _ h => nomatch h⟩

/-- A request with an id. -/
def requestWith (id : IdText) : List (List UInt8 × Item Rat) :=
  [(methodName, .string [109]), (idName, id.item)]

/-- A server without procedures. -/
def emptyServer : JrpcServer Rat Unit :=
  { procedures := [] }

theorem emptyServer_answers : emptyServer.Answers where
  results _ h := absurd h List.not_mem_nil
  codes _ h := absurd h List.not_mem_nil
  messages _ h := absurd h List.not_mem_nil

/-- What is sent for a method that the server does not have. -/
def unknownMethod (id : IdText) : Item Rat :=
  .object [(errorName, errorObject jrpcMethodNotFound methodNotFoundText),
    (idName, id.copy)]

theorem unknownMethod_sent (id : IdText) :
    Valid (requestWith id) ∧
      Sent.response (unknownMethod id) ∈ evalRequest emptyServer
        (requestWith id) := by
  have hcopied : idCopy (some (id.item : Item Rat)) = some id.copy := idCopy_item id
  have heval : evalRequest emptyServer (requestWith id) =
      sendError jrpcMethodNotFound (some methodNotFoundText)
        (idCopy (some (id.item : Item Rat))) := by
    cases id <;> rfl
  constructor
  · cases id with
    | number n hn =>
        exact ⟨⟨[109], rfl⟩, rfl, rfl⟩
    | string s =>
        exact ⟨⟨[109], rfl⟩, rfl, rfl⟩
  · rw [heval, hcopied]
    exact List.mem_singleton_self _

/-- The response to a request with the id `1.5` does not have this id. -/
theorem fraction_not_echoed :
    Valid (requestWith fractionId) ∧
      Sent.response (unknownMethod fractionId) ∈ evalRequest emptyServer
        (requestWith fractionId) ∧
      ¬ Echoes (fun _ => (0, 0)) fractionId (unknownMethod fractionId) := by
  rcases unknownMethod_sent fractionId with ⟨hvalid, hsent⟩
  refine ⟨hvalid, hsent, ?_⟩
  have hcarries := response_carries emptyServer_answers hvalid
    (idCopy_item fractionId)
    (onWire_copy fractionId) hsent
  rw [echoes_iff_equals _ hcarries, equals_copy_iff]
  rintro ⟨i, _, hexact, _⟩
  have hdigits : digitsValue 0 [49, 53] = 15 := rfl
  have hhalf : (i : Rat) * 2 = 3 := by
    rw [← hexact]
    show (1 : Rat) * digitsValue 0 [49, 53] * 10 ^ ((0 : Int) - (1 : Nat)) * 2 = 3
    rw [hdigits]
    norm_num
  have hint : i * 2 = 3 := by
    exact_mod_cast hhalf
  omega

def letterId : IdText :=
  .string [.raw 97 (by decide)]

/-- The response to a request with the id `"a"` has this id. -/
theorem letter_echoed : Echoes (fun _ => (0, 0)) letterId
    (unknownMethod letterId) := by
  rcases unknownMethod_sent letterId with ⟨hvalid, hsent⟩
  exact (response_echoes_iff _ emptyServer_answers hvalid rfl hsent).mpr (.raw .nil)

end JsonRpc
end Lepd
