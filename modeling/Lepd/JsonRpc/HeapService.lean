import Lepd.CJson.HeapParsing
import Lepd.Foundation.Runs
import Lepd.JsonRpc.HeapResponses
import Lepd.Server.Reply

/-!
# Serving requests in memory

Buffer after buffer is parsed into memory, and what is parsed is evaluated and
given back. As long as no allocation is refused, and whatever the procedures
answer, memory then holds what it has held before, and the results of procedures
that have also reported an error.
-/

namespace Lepd
namespace JsonRpc
namespace Heap

open Foundation
open Foundation.Program (Agrees Stable Settles Gives Fails)
open CJson
open CJson.Heap (Memory Routine Allocator Trees SameValues shown shownAll
  cJSONDelete)

variable {double data : Type} {mem mem' : Memory double} {p : Nat}
  {t : RoseTree Nat} {ts : List (RoseTree Nat)}

section Roots

variable [CDouble double] {alloc : Allocator double}
  {server : JrpcServer double data} {spec : JsonRpc.JrpcServer double data}
  {item : Item double} {name : Option (List UInt8)}

/-- What is sent for a root; nothing is sent for one that is no object, and none
is what is undefined. -/
def responseTo (spec : JsonRpc.JrpcServer double data) :
    Item double -> Option (Option (Item double))
  | .object members =>
      match JsonRpc.evalRequest spec members with
      | [.response response] => some (some response)
      | _ => none
  | _ => some none

def lostTo (spec : JsonRpc.JrpcServer double data) :
    Item double -> Option (Item double)
  | .object members => lostOf spec members
  | _ => none

theorem evalRoot_responds (hgenerous : alloc.Generous)
    (hserver : Refines server spec) (h : Trees mem ts) (ht : t ∈ ts)
    (hshown : shown mem t = some (name, item)) :
    (exists response left mem', responseTo spec item = some response ∧
        Gives (fun fuel => evalRoot alloc fuel server t.root) mem response mem' ∧
        Trees mem' (left.toList ++ ts) ∧ SameValues mem mem' ts ∧
          Shows mem' left (lostTo spec item)) ∨
      (responseTo spec item = none ∧
        Fails (fun fuel => evalRoot alloc fuel server t.root) mem) := by
  rcases readItem_shown hshown with ⟨r, children, hread, htype, _⟩
  have hnone : kind item ≠ CJson.Heap.cJSONObject ->
      Gives (fun fuel => evalRoot alloc fuel server t.root) mem none mem := by
    intro hkind
    apply Settles.bind (Settles.of hread)
    simp only [if_neg (fun heq => hkind (htype.symm.trans heq))]
    exact Settles.of rfl
  have hleave : lostTo spec item = none -> responseTo spec item = some none ->
      kind item ≠ CJson.Heap.cJSONObject ->
      exists response left mem', responseTo spec item = some response ∧
        Gives (fun fuel => evalRoot alloc fuel server t.root) mem response mem' ∧
        Trees mem' (left.toList ++ ts) ∧ SameValues mem mem' ts ∧
          Shows mem' left (lostTo spec item) := by
    intro hlost hresponse hkind
    refine ⟨none, none, mem, hresponse, hnone hkind, h, SameValues.refl mem ts, ?_⟩
    rw [hlost]
    exact .none
  cases item with
  | object members =>
      cases t with
      | node p us =>
          have hobject : r.type = CJson.Heap.cJSONObject := htype
          unfold evalRoot responseTo
          rcases evalRequest_responds hgenerous hserver h ht hshown with
            ⟨response, left, mem', hsent, hgives, htrees, hsame,
              hleft⟩ | ⟨hsent, hfails⟩
          · refine Or.inl ⟨some response, left, mem', ?_, ?_, htrees, hsame, hleft⟩
            · simp only [hsent]
            · apply Settles.bind (Settles.of hread)
              simp only [if_pos hobject]
              apply Settles.bind hgives
              exact Settles.of rfl
          · refine Or.inr ⟨?_, ?_⟩
            · simp only [hsent]
            · apply Settles.bind (Settles.of hread)
              simp only [if_pos hobject]
              exact Settles.bind_none hfails
  | _ => exact Or.inl (hleave rfl rfl (fun heq => nomatch heq))

theorem handleRoot_responds (hgenerous : alloc.Generous)
    (hserver : Refines server spec) (h : Trees mem (t :: ts))
    (hshown : shown mem t = some (name, item)) :
    (exists response left mem', responseTo spec item = some response ∧
        Gives (fun fuel => handleRoot alloc fuel server t.root) mem response mem' ∧
        Trees mem' (left.toList ++ ts) ∧ SameValues mem mem' ts ∧
          Shows mem' left (lostTo spec item)) ∨
      (responseTo spec item = none ∧
        Fails (fun fuel => handleRoot alloc fuel server t.root) mem) := by
  rcases evalRoot_responds hgenerous hserver h List.mem_cons_self hshown with
    ⟨response, left, mem₁, hresponse, hgives, htrees, hsame,
      hleft⟩ | ⟨hresponse, hfails⟩
  · rcases CJson.Heap.delete_trees (htrees.perm List.perm_middle) with
      ⟨mem', hdelete, htrees', hsame'⟩
    refine Or.inl ⟨response, left, mem', hresponse, ?_, htrees', ?_,
      hleft.same hsame' (List.subset_append_left _ _)⟩
    · apply Settles.bind hgives
      apply Settles.bind hdelete
      exact Settles.of rfl
    · exact (hsame.sub (List.subset_cons_self _ _)).trans
        (hsame'.sub (List.subset_append_right _ _))
  · exact Or.inr ⟨hresponse, Settles.bind_none hfails⟩

/-!
# Buffers
-/

def jrpcParseError : Int := -32700

def parseErrorText : List UInt8 :=
  [80, 97, 114, 115, 101, 32, 101, 114, 114, 111, 114, 46, 32, 73, 110, 118, 97,
    108, 105, 100, 32, 74, 83,
   79, 78, 32, 119, 97, 115, 32, 114, 101, 99, 101, 105, 118, 101, 100, 32, 98,
     121, 32, 116, 104, 101, 32,
   115, 101, 114, 118, 101, 114, 46]

/-- Without a root, the whole buffer is parsed and there is more to come, or
there is an error before its end. -/
def handleRest (alloc : Allocator double) (fuel : Nat)
    (buffer rest : List UInt8) (pos : Nat) :
    Routine double (Option (Item double)) :=
  if buffer.length - rest.length ≠ pos then do
    let response <- sendError alloc fuel jrpcParseError (some parseErrorText) none
    return some response
  else pure none

def handleBuffer (alloc : Allocator double) (fuel : Nat)
    (server : JrpcServer double data) (stack : Stack) (buffer : List UInt8)
    (pos : Nat) : Routine double (Option (Item double)) := do
  let r <- CJson.Heap.cJSONParseStream alloc fuel stack buffer
  match r.1 with
  | none => handleRest alloc fuel buffer r.2 pos
  | some root => handleRoot alloc fuel server root

def responseToRest (buffer rest : List UInt8) (pos : Nat) : Option (Item double) :=
  if buffer.length - rest.length ≠ pos then
    some (.object [(errorName, errorObject jrpcParseError parseErrorText)])
  else none

def responseIn (spec : JsonRpc.JrpcServer double data) (stack : Stack)
    (buffer : List UInt8) (pos : Nat) : Option (Option (Item double)) :=
  match (CJson.cJSONParseStream stack : Parse (Item double)) buffer with
  | .ok item _ => responseTo spec item
  | .null rest => some (responseToRest buffer rest pos)
  | .fault _ => none

def leftIn (spec : JsonRpc.JrpcServer double data) (stack : Stack)
    (buffer : List UInt8) : Option (Item double) :=
  match (CJson.cJSONParseStream stack : Parse (Item double)) buffer with
  | .ok item _ => lostTo spec item
  | _ => none

theorem handleRest_stable (buffer rest : List UInt8) (pos : Nat) :
    Stable (fun fuel => handleRest alloc fuel buffer rest pos) := by
  intro fuel
  exact Agrees.ite ((sendError_stable alloc _ _ none fuel).bind
    (fun _ => Agrees.refl _)) (Agrees.refl _)

theorem handleBuffer_stable (stack : Stack) (buffer : List UInt8) (pos : Nat) :
    Stable (fun fuel => handleBuffer alloc fuel server stack buffer pos) := by
  intro fuel
  apply (CJson.Heap.cJSONParseStream_stable stack buffer fuel).bind
  rintro ⟨root, rest⟩
  cases root with
  | none => exact handleRest_stable buffer rest pos fuel
  | some root => exact handleRoot_stable alloc server root fuel

theorem handleRest_responds (hgenerous : alloc.Generous) (h : Trees mem ts)
    (buffer rest : List UInt8) (pos : Nat) :
    exists mem', Gives (fun fuel => handleRest alloc fuel buffer rest pos) mem
      (responseToRest buffer rest pos) mem' ∧
      Trees mem' ts ∧ SameValues mem mem' ts := by
  unfold handleRest responseToRest
  by_cases hend : buffer.length - rest.length ≠ pos
  · simp only [if_pos hend]
    have hnone : Shows mem (none : Option (RoseTree Nat))
        (none : Option (Item double)) := .none
    rcases sendError_trees hgenerous h hnone jrpcParseError parseErrorText with
      ⟨mem', hgives, htrees, hsame⟩
    exact ⟨mem', Settles.bind hgives (Settles.of rfl), htrees, hsame⟩
  · simp only [if_neg hend]
    exact ⟨mem, Settles.of rfl, h, SameValues.refl mem ts⟩

theorem handleBuffer_responds (hgenerous : alloc.Generous)
    (hserver : Refines server spec) (h : Trees mem ts) (stack : Stack)
    (buffer : List UInt8) (pos : Nat) :
    (exists response left mem', responseIn spec stack buffer pos = some response ∧
        Gives (fun fuel => handleBuffer alloc fuel server stack buffer pos) mem
          response mem' ∧
        Trees mem' (left.toList ++ ts) ∧ SameValues mem mem' ts ∧
          Shows mem' left (leftIn spec stack buffer)) ∨
      (responseIn spec stack buffer pos = none ∧
        Fails (fun fuel => handleBuffer alloc fuel server stack buffer pos)
        mem) := by
  unfold responseIn leftIn
  rcases CJson.Heap.parse_trees alloc h stack buffer with
    ⟨item, rest, t, mem₁, hparse, hgives, htrees, hsame, hshown⟩ | ⟨rest, mem₁,
      hparse, hgives, htrees, hsame⟩ | ⟨reason, hparse, hfails⟩
  · simp only [hparse]
    rcases handleRoot_responds hgenerous hserver htrees hshown with
      ⟨response, left, mem', hresponse, hhandled, htrees', hsame',
        hleft⟩ | ⟨hresponse, hfails⟩
    · exact Or.inl ⟨response, left, mem', hresponse,
        Settles.bind hgives hhandled, htrees', hsame.trans hsame', hleft⟩
    · exact Or.inr ⟨hresponse, Settles.bind hgives hfails⟩
  · have hnull := hparse.resolve_right (fun hfull => hfull hgenerous)
    simp only [hnull]
    rcases handleRest_responds hgenerous htrees buffer rest pos with
      ⟨mem', hhandled, htrees', hsame'⟩
    exact Or.inl ⟨_, none, mem', rfl, Settles.bind hgives hhandled, htrees',
      hsame.trans hsame', .none⟩
  · simp only [hparse]
    exact Or.inr ⟨trivial, Settles.bind_none hfails⟩

/-- Whatever the fuel, nothing but the response is sent. -/
theorem handleBuffer_only (hgenerous : alloc.Generous)
    (hserver : Refines server spec) (h : Trees mem ts)
    (hrun : handleBuffer alloc fuel server stack buffer pos mem =
      some (response, mem')) :
    responseIn spec stack buffer pos = some response := by
  have hstable : Stable (fun fuel => handleBuffer alloc fuel server stack buffer
      pos) := handleBuffer_stable stack buffer pos
  rcases handleBuffer_responds hgenerous hserver h stack buffer pos with
    ⟨response', _, _, hresponse, hgives, _⟩ | ⟨_, hfails⟩
  · cases hstable.only hgives hrun
    exact hresponse
  · cases hstable.only hfails hrun

end Roots

/-!
# Sequences of buffers
-/

/-- A buffer, and the procedures as they are when it is handled; they allocate
as the server does. -/
structure Exchange (double data : Type) [CDouble double] where
  server : Allocator double -> JrpcServer double data
  spec : JsonRpc.JrpcServer double data
  refines : forall alloc, alloc.Generous -> Refines (server alloc) spec
  stack : Stack
  buffer : List UInt8
  pos : Nat

section Runs

variable [CDouble double]

def Exchange.handle (e : Exchange double data) (alloc : Allocator double)
    (fuel : Nat) :
    Routine double (Option (Item double)) :=
  handleBuffer alloc fuel (e.server alloc) e.stack e.buffer e.pos

/-- What should be sent; none is what is undefined. -/
def Exchange.response (e : Exchange double data) : Option (Option (Item double)) :=
  responseIn e.spec e.stack e.buffer e.pos

variable {alloc : Allocator double} {exchanges : List (Exchange double data)}

/-- A buffer gets the response that it should get. -/
def Served (alloc : Allocator double) (mem : Memory double)
    (e : Exchange double data)
    (mem' : Memory double) : Prop :=
  exists response, e.response = some response ∧
    Gives (e.handle alloc) mem response mem'

/-- The results that were left behind, in their order. -/
def lostIn (exchanges : List (Exchange double data)) : List (Item double) :=
  exchanges.filterMap (fun e => leftIn e.spec e.stack e.buffer)

/-- These trees show these items. -/
def ShowAll (mem : Memory double) (lost : List (RoseTree Nat))
    (items : List (Item double)) : Prop :=
  List.Forall₂ (fun t item => exists name, shown mem t = some (name, item)) lost
    items

/-- The lost results are what memory holds beside `ts`, which it still holds. -/
def Accounted (ts : List (RoseTree Nat)) (start : Memory double)
    (exchanges : List (Exchange double data)) (mem : Memory double) : Prop :=
  exists lost, Trees mem (lost ++ ts) ∧ SameValues start mem ts ∧
    ShowAll mem lost (lostIn exchanges)

omit [CDouble double] in
theorem ShowAll.same {lost : List (RoseTree Nat)} {items : List (Item double)}
    (h : ShowAll mem lost items)
    (hsame : SameValues mem mem' lost) : ShowAll mem' lost items := by
  induction h with
  | nil => exact .nil
  | cons hfirst _ ih =>
      rcases hfirst with ⟨name, hfirst⟩
      rw [← hsame.shown List.mem_cons_self] at hfirst
      exact .cons ⟨name, hfirst⟩ (ih (hsame.sub (List.subset_cons_self _ _)))

end Runs

/-!
# The procedures of the server
-/

structure Registered (data : Type) where
  name : List UInt8
  handler : data -> Server.Reply
  data : data

section Replies

variable [CDouble double] (alloc : Allocator double)

/-- A procedure of `server.c` returns a null pointer or a string. -/
def replyWith (reply : Server.Reply) : Routine double Answer :=
  match reply with
  | .null => pure ⟨none, 0, none⟩
  | .string text => do
      let p <- alloc.cJSONCreateString (some text)
      return ⟨p, 0, none⟩
  | .undefined => StateT.lift none

def returnedWith : Server.Reply -> Returned double
  | .string text => ⟨some (.string text), 0, none⟩
  | _ => ⟨none, 0, none⟩

def Registered.procedure (r : Registered data) : JrpcProcedure double data where
  name := r.name
  function _ d _ _ := replyWith alloc (r.handler d)
  data := r.data
  stable _ _ _ := Agrees.refl _

omit [CDouble double] in
def specOf (registered : List (Registered data)) :
    JsonRpc.JrpcServer double data where
  procedures := registered.map (fun r =>
    ⟨r.name, fun d _ _ => returnedWith (r.handler d), r.data⟩)

variable {alloc}

end Replies

/-!
# A request
-/

end Heap
end JsonRpc
end Lepd
