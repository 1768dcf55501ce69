import Lepd.JsonRpc.Requests

/-!
# Split tolerance

A request object arrives in several reads. It is dispatched once, when its last
byte arrives, if and only if the callback can wait at every place where it was
cut.
-/

namespace Lepd
namespace JsonRpc

open Foundation
open CJson

variable {double : Type}

/-!
# Feeding a connection
-/

/-- Let the callback answer an event; a connection that was left gets no more
events. -/
def feed (parse : Parser double) (s : Session double) (event : Event) :
    Session double :=
  match s.conn with
  | .ok conn =>
      { conn := (connectionCb parse conn event).2, log := s.log ++ (connectionCb
        parse conn event).1 }
  | .error _ => s

def feedAll (parse : Parser double) (s : Session double) (events : List Event) :
    Session double :=
  events.foldl (feed parse) s

/-- Every read that the callback makes gets no more bytes than it asks for. -/
def Delivered (parse : Parser double) : Session double -> List Event -> Prop
  | _, [] => True
  | s, event :: events =>
      (forall conn, s.conn = .ok conn -> Delivers conn event) ∧
        Delivered parse (feed parse s event) events

/-- Nothing is done before the last event, and then the request is dispatched. -/
def DispatchedAtEnd (parse : Parser double) (s : Session double)
    (events : List Event)
    (root : Item double) : Prop :=
  (forall n, n < events.length -> (feedAll parse s (events.take n)).log = []) ∧
    (feedAll parse s events).log = [.evalRequest root]

section Feed

variable {parse : Parser double} {s : Session double} {event : Event}
  {events : List Event}

theorem feed_ok {conn : Connection} (h : s.conn = .ok conn) :
    feed parse s event =
      { conn := (connectionCb parse conn event).2,
        log := s.log ++ (connectionCb parse conn event).1 } := by
  unfold feed
  rw [h]

theorem feedAll_error {stop : Stop} (h : s.conn = .error stop) :
    feedAll parse s events = s := by
  induction events with
  | nil =>
      rfl
  | cons event events ih =>
      have hfeed : feed parse s event = s := by
        unfold feed
        rw [h]
      unfold feedAll at ih ⊢
      rw [List.foldl_cons, hfeed, ih]

theorem dispatchedAtEnd_cons {root : Item double} :
    DispatchedAtEnd parse s (event :: events) root <->
      s.log = [] ∧ DispatchedAtEnd parse (feed parse s event) events root := by
  unfold DispatchedAtEnd
  rw [List.length_cons, Nat.forall_lt_succ_left, and_assoc]
  rfl

end Feed

/-!
# Places where the callback waits
-/

def Waitable (pending : List UInt8) : Prop :=
  CJson.Resumable pending ∧ pending.length < 2 ^ 31

/-- The callback can wait behind every part but the whole. -/
def CutsWaitable (pending : List UInt8) (events : List Event) : Prop :=
  forall n, n < events.length -> Waitable (pending ++ received (events.take n))

theorem cutsWaitable_cons {pending : List UInt8} {event : Event}
    {events : List Event} :
    CutsWaitable pending (event :: events) <->
      Waitable pending ∧ CutsWaitable (pending ++ event.bytes) events := by
  unfold CutsWaitable
  rw [List.length_cons, Nat.forall_lt_succ_left, List.take_zero, received_nil,
    List.append_nil]
  simp only [List.take_succ_cons, received_cons, List.append_assoc]

variable [CDouble double]

structure Remaining (s : Session double) (pending : List UInt8)
    (events : List Event)
    (whole : List UInt8) : Prop where
  arrives : forall event, event ∈ events -> Arrives event
  delivered : Delivered (streamParser double) s events
  whole_eq : pending ++ received events = whole
  proper : pending ≠ whole

theorem Remaining.tail {s : Session double} {pending whole : List UInt8}
    {event : Event}
    {events : List Event} (h : Remaining s pending (event :: events) whole)
    (hevents : events ≠ []) :
    Remaining (feed (streamParser double) s event) (pending ++ event.bytes)
      events whole := by
  have hwhole := h.whole_eq
  rw [received_cons, ← List.append_assoc] at hwhole
  refine ⟨fun e he => h.arrives e (List.mem_cons_of_mem event he),
    h.delivered.right, hwhole, ?_⟩
  cases events with
  | nil =>
      exact absurd rfl hevents
  | cons next events =>
      intro heq
      have hnext := (h.arrives next (by simp)).left
      rw [heq, received_cons] at hwhole
      have hnil := List.append_right_eq_self.mp hwhole
      exact hnext (List.append_eq_nil_iff.mp hnil).left

/-- The request is dispatched once, at its last byte, exactly when the callback
can wait at every cut. -/
theorem dispatchedAtEnd_iff (r : Request double) {events : List Event}
    {s : Session double}
    {conn : Connection} {pending : List UInt8} (hconn : s.conn = .ok conn)
    (hlog : s.log = [])
    (hholds : Holds conn pending) (hwait : Waitable pending)
    (hremaining : Remaining s pending events r.bytes) :
    DispatchedAtEnd (streamParser double) s events (.object r.members) <->
      CutsWaitable pending events := by
  induction events generalizing s conn pending with
  | nil =>
      exact absurd ((List.append_nil _).symm.trans hremaining.whole_eq)
        hremaining.proper
  | cons event events ih =>
      rw [dispatchedAtEnd_cons, cutsWaitable_cons]
      simp only [hlog, hwait, true_and]
      rcases connectionCb_arrival double hholds hwait.right
          (hremaining.delivered.left conn hconn)
            (hremaining.arrives event (by simp)) with
        ⟨grown, hgrown, _, hanswer⟩
      have hfeed : feed (streamParser double) s event = _ := feed_ok hconn
      rw [hanswer, hlog, List.nil_append] at hfeed
      by_cases hevents : events = []
      · -- the last read completes the object
        subst hevents
        have hwhole : pending ++ event.bytes = r.bytes ++ [] := by
          simpa [received] using hremaining.whole_eq
        rw [hwhole] at hgrown
        rw [parseBuffer_object r event.stack hgrown] at hfeed
        constructor
        · intro _ n hn
          cases hn
        · intro _
          refine ⟨fun n hn => absurd hn (Nat.not_lt_zero n), ?_⟩
          change (feed (streamParser double) s event).log = _
          rw [hfeed]
          rfl
      · have htail := hremaining.tail hevents
        have hpart : pending ++ event.bytes <+: r.bytes := ⟨_, htail.whole_eq⟩
        rcases parseBuffer_cut r event.stack hgrown hpart htail.proper with
          ⟨hgood, hsmall, hwaiting⟩ | ⟨hbad, _, hlost⟩
        · rw [hwaiting.kept] at hfeed
          exact ih (by rw [hfeed]) (by rw [hfeed]) hgrown ⟨hgood, hsmall⟩ htail
        · rcases hlost with ⟨hactions, stop, hstop⟩
          have hend : feedAll (streamParser double)
              (feed (streamParser double) s event) events =
              feed (streamParser double) s event :=
            feedAll_error (by rw [hfeed]; exact hstop)
          constructor
          · rintro ⟨_, hdispatched⟩
            rw [hend, hfeed] at hdispatched
            rcases hactions with hnone | herror
            · cases hnone.symm.trans hdispatched
            · cases herror.symm.trans hdispatched
          · intro hcuts
            cases events with
            | nil =>
                exact absurd rfl hevents
            | cons next events =>
                exact absurd (cutsWaitable_cons.mp hcuts).left hbad

/--
The callback waits at a part of a request exactly when it is resumable and its
length is an `int`; and a request that arrives in parts is dispatched once, at
its end, exactly when all the parts but the whole are such.
-/
theorem split_tolerance_iff (r : Request double) :
    (forall (stack : Stack) (conn : Connection) (pending : List UInt8),
    Holds conn pending ->
      pending <+: r.bytes -> pending ≠ [] -> pending ≠ r.bytes ->
        (Waiting (streamParser double) stack conn <->
          CJson.Resumable pending ∧ pending.length < 2 ^ 31)) ∧
    forall events : List Event, (forall event, event ∈ events -> Arrives event) ->
      Delivered (streamParser double) (accepted double) events ->
        received events = r.bytes ->
        (DispatchedAtEnd (streamParser double) (accepted double) events
          (.object r.members) <->
          forall n, n < events.length ->
            CJson.Resumable (received (events.take n)) ∧
              (received (events.take n)).length < 2 ^ 31) := by
  constructor
  · intro stack conn pending hholds hpart _ hproper
    rcases parseBuffer_cut r stack hholds hpart hproper with
      ⟨hgood, hsmall, hwaiting⟩ | ⟨hbad, hnot, _⟩
    · exact ⟨fun _ => ⟨hgood, hsmall⟩, fun _ => hwaiting⟩
    · exact ⟨fun hwaiting => absurd hwaiting hnot, fun hgood => absurd hgood hbad⟩
  · intro events harrives hdelivered hwhole
    have hwait : Waitable [] := ⟨by decide, by decide⟩
    exact dispatchedAtEnd_iff r rfl rfl Holds.fresh hwait
      ⟨harrives, hdelivered, hwhole, r.bytes_ne_nil.symm⟩

theorem denotes_nullMember :
    Denotes (.value (.object [([97], .null)]) : Node double)
      ([lbrace, quote, 97, quote, colon] ++ nullText ++ [rbrace]) := by
  have hname : 32 <= (97 : UInt8) ∧ (97 : UInt8) ≠ quote ∧ (97 : UInt8) ≠
      backslash := by
    decide
  exact .container .object ws_nil
    (.last (.member [.raw 97 hname] ws_nil ws_nil .null ws_nil))

/-- The request `{"a":null}`. -/
def nullMember : Request Rat where
  space := []
  text := [lbrace, quote, 97, quote, colon] ++ nullText ++ [rbrace]
  members := [([97], .null)]
  spaced := ws_nil
  denotes := denotes_nullMember

/-- The request cut inside its literal. -/
theorem split_tolerance_literal :
    Waiting (streamParser Rat) (fun _ => (0, 0))
      (filled (nullMember.bytes.take 8)) :=
  ((split_tolerance_iff nullMember).left _ _ _ (holds_filled _ (by decide))
    (List.take_prefix 8 nullMember.bytes) (by decide) (by decide)).mpr
    ⟨by decide, by decide⟩

/-- The request cut behind its literal. -/
theorem split_lost :
    nullMember.bytes.take 9 <+: nullMember.bytes ∧ nullMember.bytes.take 9 ≠ [] ∧
      nullMember.bytes.take 9 ≠ nullMember.bytes ∧
      Holds (filled (nullMember.bytes.take 9)) (nullMember.bytes.take 9) ∧
      ¬ Waiting (streamParser Rat) (fun _ => (0, 0))
        (filled (nullMember.bytes.take 9)) := by
  have hholds : Holds (filled (nullMember.bytes.take 9))
      (nullMember.bytes.take 9) :=
    holds_filled _ (by decide)
  have hpart : nullMember.bytes.take 9 <+: nullMember.bytes :=
    List.take_prefix 9 nullMember.bytes
  refine ⟨hpart, by decide, by decide, hholds, ?_⟩
  rcases parseBuffer_cut nullMember (fun _ => (0, 0)) hholds hpart (by decide) with
    ⟨hgood, _⟩ | ⟨_, hnot, _⟩
  · exact absurd hgood (by decide)
  · exact hnot

end JsonRpc
end Lepd
