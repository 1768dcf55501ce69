import Lepd.CJson.HeapSessions
import Lepd.Foundation.Fuel

/-!
# Items that memory shows

A tree of records shows an item, which is what the functions that read the tree
make of it: what `cJSON_Print` writes is the text of this item, and what
`cJSON_GetObjectItem` finds is a member of it.
-/

namespace Lepd
namespace CJson
namespace Heap

open Foundation
open Foundation.Program (Agrees Stable Gives)

variable {double : Type} {mem mem' : Memory double} {f f' : Forest} {a c p q x :
  Nat} {fuel : Nat}
  {t u : RoseTree Nat} {ts us rest : List (RoseTree Nat)}

def namedAll : List (Option (List UInt8) × Item double) ->
    Option (List (List UInt8 × Item double))
  | [] => some []
  | (none, _) :: _ => none
  | (some name, item) :: children =>
      (namedAll children).map (fun members => (name, item) :: members)

/-- The item of a record that says this, above these children. -/
def itemOf (type : Nat) (valueint : Int) (valuedouble : double)
    (valuestring : Option (List UInt8))
    (children : List (Option (List UInt8) × Item double)) : Option (Item double) :=
  if type = cJSONFalse then some .false
  else if type = cJSONTrue then some .true
  else if type = cJSONNULL then some .null
  else if type = cJSONNumber then some (.number valuedouble valueint)
  else if type = cJSONString then valuestring.map .string
  else if type = cJSONArray then some (.array (children.map Prod.snd))
  else if type = cJSONObject then (namedAll children).map .object
  else none

mutual

def shown (mem : Memory double) :
    RoseTree Nat -> Option (Option (List UInt8) × Item double)
  | .node p ts =>
      (valuesOf mem p).bind (fun values => (shownAll mem ts).bind (fun children =>
        (itemOf values.1 values.2.1 values.2.2.1 values.2.2.2.1 children).map
          (fun item => (values.2.2.2.2, item))))

def shownAll (mem : Memory double) : List (RoseTree Nat) ->
    Option (List (Option (List UInt8) × Item double))
  | [] => some []
  | t :: ts =>
      (shown mem t).bind (fun child =>
      (shownAll mem ts).map (fun children => child :: children))

end

/-!
# Reading
-/

def readOptional : Option Nat -> Routine double (Option (List UInt8))
  | none => pure none
  | some p => do
      let chars <- readText p
      return some chars

def readBelow (below : Option Nat ->
    Routine double (List (Option (List UInt8) × Item double))) (r : Record double) :
    Routine double (List (Option (List UInt8) × Item double)) :=
  if r.type &&& 255 = cJSONArray ∨ r.type &&& 255 = cJSONObject then
    below r.child else pure []

def readValue (below : Option Nat ->
    Routine double (List (Option (List UInt8) × Item double))) (r : Record double) :
    Routine double (Item double) := do
  let children <- readBelow below r
  let text <- readOptional r.valuestring
  StateT.lift (itemOf (r.type &&& 255) r.valueint r.valuedouble text children)

def readFrom : Nat -> Option Nat -> Routine double
    (List (Option (List UInt8) × Item double))
  | _, none => pure []
  | 0, some _ => StateT.lift none
  | fuel + 1, some c => do
      let r <- readItem c
      let name <- readOptional r.string
      let item <- readValue (readFrom fuel) r
      let rest <- readFrom fuel r.next
      return (name, item) :: rest

/-- What `cJSON_Print` reads; its answer is the text of this item. -/
def cJSONPrint (fuel : Nat) (item : Option Nat) : Routine double (Item double) :=
  match item with
  | none => StateT.lift none
  | some c => do
      let r <- readItem c
      readValue (readFrom fuel) r

def typeOf : Option Nat -> Routine double (Option Nat)
  | none => pure none
  | some p => do
      let r <- readItem p
      return some r.type

/-!
# More fuel
-/

theorem readBelow_agrees {below below' : Option Nat ->
    Routine double (List (Option (List UInt8) × Item double))}
    (h : forall c, Agrees (below c) (below' c)) (r : Record double) :
    Agrees (readBelow below r) (readBelow below' r) :=
  Agrees.ite (h r.child) (Agrees.refl _)

theorem readValue_agrees {below below' : Option Nat ->
    Routine double (List (Option (List UInt8) × Item double))}
    (h : forall c, Agrees (below c) (below' c)) (r : Record double) :
    Agrees (readValue below r) (readValue below' r) :=
  (readBelow_agrees h r).bind (fun _ => Agrees.refl _)

theorem readFrom_stable (c : Option Nat) :
    Stable (fun fuel => (readFrom fuel c : Routine double _)) := by
  intro fuel
  show Agrees (readFrom fuel c) (readFrom (fuel + 1) c)
  induction fuel generalizing c with
  | zero =>
      cases c with
      | none => exact Agrees.refl _
      | some c => exact Agrees.nothing
  | succ fuel ih =>
      cases c with
      | none => exact Agrees.refl _
      | some c =>
          apply (Agrees.refl (readItem c)).bind
          intro r
          apply (Agrees.refl (readOptional r.string)).bind
          intro name
          apply (readValue_agrees ih r).bind
          intro item
          exact (ih r.next).bind (fun _ => Agrees.refl _)

theorem cJSONPrint_stable (item : Option Nat) :
    Stable (fun fuel => (cJSONPrint fuel item : Routine double _)) := by
  intro fuel
  cases item with
  | none => exact Agrees.refl _
  | some c =>
      exact (Agrees.refl (readItem c)).bind
        (readValue_agrees (fun c => readFrom_stable c fuel))

theorem namedFrom_stable (string : List UInt8) (c : Option Nat) (i : Nat) :
    Stable (fun fuel => (namedFrom string fuel c i : Routine double _)) := by
  intro fuel
  show Agrees (namedFrom string fuel c i) (namedFrom string (fuel + 1) c i)
  induction fuel generalizing c i with
  | zero =>
      cases c with
      | none => exact Agrees.refl _
      | some c => exact Agrees.nothing
  | succ fuel ih =>
      cases c with
      | none => exact Agrees.refl _
      | some c =>
          apply (Agrees.refl (readItem c)).bind
          intro r
          apply (Agrees.refl (hasName string r)).bind
          intro named
          exact Agrees.ite (Agrees.refl _) (ih r.next (i + 1))

theorem cJSONGetObjectItem_stable (object : Nat) (string : List UInt8) :
    Stable (fun fuel => (cJSONGetObjectItem fuel object string :
      Routine double _)) := by
  intro fuel
  apply (Agrees.refl (readItem object)).bind
  intro o
  exact (namedFrom_stable string o.child 0 fuel).bind (fun _ => Agrees.refl _)

theorem lastFrom_stable (c : Nat) :
    Stable (fun fuel => (lastFrom fuel c : Routine double _)) := by
  intro fuel
  show Agrees (lastFrom fuel c) (lastFrom (fuel + 1) c)
  induction fuel generalizing c with
  | zero => exact Agrees.nothing
  | succ fuel ih =>
      apply (Agrees.refl (readItem c)).bind
      intro r
      cases r.next with
      | none => exact Agrees.refl _
      | some n => exact ih n

theorem cJSONAddItemToArray_stable (array : Nat) (item : Option Nat) :
    Stable (fun fuel => (cJSONAddItemToArray fuel array item :
      Routine double _)) := by
  intro fuel
  apply (Agrees.refl (readItem array)).bind
  intro o
  cases item with
  | none => exact Agrees.refl _
  | some x =>
      cases o.child with
      | none => exact Agrees.refl _
      | some c => exact (lastFrom_stable c fuel).bind (fun _ => Agrees.refl _)

theorem cJSONAddItemToObject_stable (object : Nat) (string : CString)
    (item answer : Option Nat) :
    Stable (fun fuel => (cJSONAddItemToObject fuel object string item answer :
      Routine double _)) := by
  intro fuel
  cases item with
  | none => exact Agrees.refl _
  | some x =>
      apply (Agrees.refl (readItem x)).bind
      intro r
      apply (Agrees.refl (freeAll r.string)).bind
      intro _
      apply (Agrees.refl (readName string)).bind
      intro chars
      apply (Agrees.refl (cJSONStrdup answer chars)).bind
      intro copy
      apply (Agrees.refl (storeItem x _)).bind
      intro _
      exact cJSONAddItemToArray_stable object (some x) fuel

theorem cJSONDelete_stable (c : Option Nat) :
    Stable (fun fuel => (cJSONDelete fuel c : Routine double _)) := by
  intro fuel
  show Agrees (deleteFrom fuel c) (deleteFrom (fuel + 1) c)
  induction fuel generalizing c with
  | zero =>
      cases c with
      | none => exact Agrees.refl _
      | some c => exact Agrees.nothing
  | succ fuel ih =>
      cases c with
      | none => exact Agrees.refl _
      | some c =>
          apply (Agrees.refl (readItem c)).bind
          intro r
          have hbehind : Agrees (do
              freeAll r.string
              free c
              deleteFrom fuel r.next : Routine double Unit) (do
              freeAll r.string
              free c
              deleteFrom (fuel + 1) r.next) := by
            apply (Agrees.refl (freeAll r.string)).bind
            intro _
            apply (Agrees.refl (free c)).bind
            intro _
            exact ih r.next
          by_cases howner : r.type &&& cJSONIsReference = 0
          · simp only [if_pos howner]
            apply (ih r.child).bind
            intro _
            exact (Agrees.refl (freeAll r.valuestring)).bind (fun _ => hbehind)
          · simp only [if_neg howner]
            exact hbehind

/-!
# What is read
-/

theorem shown_node {name : Option (List UInt8)} {item : Item double}
    (h : shown mem (.node p us) = some (name, item)) :
    exists type valueint valuedouble valuestring children, valuesOf mem p =
      some (type, valueint, valuedouble, valuestring, name) ∧
      shownAll mem us = some children ∧
        itemOf type valueint valuedouble valuestring children = some item := by
  unfold shown at h
  rcases Option.bind_eq_some_iff.mp h with
    ⟨⟨type, valueint, valuedouble, valuestring, name'⟩, hvalues, h⟩
  rcases Option.bind_eq_some_iff.mp h with ⟨children, hchildren, h⟩
  rcases Option.map_eq_some_iff.mp h with ⟨item', hitem, heq⟩
  cases heq
  exact ⟨type, valueint, valuedouble, valuestring, children, hvalues, hchildren,
    hitem⟩

theorem shown_eq {type : Nat} {valueint : Int} {valuedouble : double}
    {valuestring name : Option (List UInt8)}
    {children : List (Option (List UInt8) × Item double)} {item : Item double}
    (hvalues : valuesOf mem p = some (type, valueint, valuedouble, valuestring,
    name))
    (hchildren : shownAll mem us = some children)
    (hitem : itemOf type valueint valuedouble valuestring children = some item) :
    shown mem (.node p us) = some (name, item) := by
  unfold shown
  rw [hvalues, hchildren]
  show Option.map _ (itemOf type valueint valuedouble valuestring children) = _
  rw [hitem]
  rfl

theorem shownAll_cons {children : List (Option (List UInt8) × Item double)}
    (h : shownAll mem (t :: ts) = some children) :
    exists child others, shown mem t = some child ∧ shownAll mem ts =
      some others ∧ children = child :: others := by
  unfold shownAll at h
  rcases Option.bind_eq_some_iff.mp h with ⟨child, hchild, h⟩
  rcases Option.map_eq_some_iff.mp h with ⟨others, hothers, heq⟩
  exact ⟨child, others, hchild, hothers, heq.symm⟩

theorem shownAll_append {children others :
    List (Option (List UInt8) × Item double)} (h : shownAll mem ts = some children)
    (h' : shownAll mem us = some others) :
    shownAll mem (ts ++ us) = some (children ++ others) := by
  induction ts generalizing children with
  | nil =>
      cases h
      exact h'
  | cons t ts ih =>
      rcases shownAll_cons h with ⟨child, children, hchild, hchildren, rfl⟩
      rw [List.cons_append, shownAll, hchild, ih hchildren]
      rfl

theorem type_of_itemOf {type : Nat} {valueint : Int} {valuedouble : double}
    {valuestring : Option (List UInt8)}
    {children : List (Option (List UInt8) × Item double)} {item : Item double}
    (h : itemOf type valueint valuedouble valuestring children = some item) :
    type < 7 := by
  by_contra hlt
  unfold itemOf at h
  rw [if_neg, if_neg, if_neg, if_neg, if_neg, if_neg, if_neg] at h
  · cases h
  all_goals
    intro heq
    apply hlt
    rw [heq]
    decide

theorem type_and_255 {type : Nat} (h : type < 7) : type &&& 255 = type := by
  have hall : forall k : Fin 7, k.val &&& 255 = k.val := by decide
  exact hall ⟨type, h⟩

theorem itemOf_leaf {type : Nat} {valueint : Int} {valuedouble : double}
    {valuestring : Option (List UInt8)}
    (children : List (Option (List UInt8) × Item double))
    (h : ¬ (type = cJSONArray ∨ type = cJSONObject)) :
    itemOf type valueint valuedouble valuestring [] =
      itemOf type valueint valuedouble valuestring children := by
  unfold itemOf
  rw [if_neg (fun heq => h (Or.inl heq)), if_neg (fun heq => h (Or.inr heq)),
    if_neg (c := type = cJSONArray) (fun heq => h (Or.inl heq)),
    if_neg (c := type = cJSONObject) (fun heq => h (Or.inr heq))]

theorem readOptional_apply {o : Option Nat}
    (h : forall p, p ∈ o.toList -> (textAt mem p).isSome) :
    readOptional o mem = some (o.bind (textAt mem), mem) := by
  cases o with
  | none => rfl
  | some p =>
      rcases Option.isSome_iff_exists.mp (h p List.mem_cons_self) with
        ⟨chars, hchars⟩
      show (readText p >>= _) mem = _
      rw [Program.bind_apply]
      unfold readText
      rw [hchars, Option.bind_some, hchars]
      rfl

def TextsKept (mem : Memory double) (items : List Nat) : Prop :=
  forall a p, a ∈ items -> p ∈ strings mem a -> (textAt mem p).isSome

theorem readValue_apply {r : Record double}
    {children : List (Option (List UInt8) × Item double)} {item : Item double}
    {below : Option Nat -> Routine double
    (List (Option (List UInt8) × Item double))}
    (hbelow : below r.child mem = some (children, mem))
    (htexts : forall p, p ∈ stringsOf r -> (textAt mem p).isSome)
    (hitem : itemOf r.type r.valueint r.valuedouble
    (r.valuestring.bind (textAt mem)) children = some item) :
    readValue below r mem = some (item, mem) := by
  have htype := type_and_255 (type_of_itemOf hitem)
  have htext : readOptional r.valuestring mem =
      some (r.valuestring.bind (textAt mem), mem) :=
    readOptional_apply (fun p hp => htexts p (List.mem_append_left _ hp))
  have hrest : forall l, itemOf r.type r.valueint r.valuedouble
      (r.valuestring.bind (textAt mem)) l = some item ->
      (readOptional r.valuestring >>= fun text =>
        StateT.lift (itemOf r.type r.valueint r.valuedouble text l) :
        Routine double (Item double)) mem = some (item, mem) := by
    intro l hl
    rw [Program.bind_apply, htext, Option.bind_some, hl]
    rfl
  unfold readValue readBelow
  rw [Program.bind_apply, htype]
  by_cases hkind : r.type = cJSONArray ∨ r.type = cJSONObject
  · rw [if_pos hkind, hbelow]
    exact hrest children hitem
  · rw [if_neg hkind]
    exact hrest [] ((itemOf_leaf children hkind).trans hitem)

theorem valuesOf_record {r : Record double} (hr : recordAt mem p = some r) :
    valuesOf mem p =
    some (r.type, r.valueint, r.valuedouble, r.valuestring.bind (textAt mem),
      r.string.bind (textAt mem)) := by
  unfold valuesOf
  rw [hr]
  rfl

theorem readFrom_apply {kids : Nat -> List Nat} (fuel : Nat) :
    forall (prev : Option Nat) (ts : List (RoseTree Nat)),
    Held mem kids ts -> TextsKept mem (ts.flatMap RoseTree.items) ->
      Segment (linksOf mem) prev (ts.map RoseTree.root) none ->
        (ts.flatMap RoseTree.items).length <= fuel ->
        forall children, shownAll mem ts = some children ->
          readFrom fuel (ts.map RoseTree.root).head? mem =
            some (children, mem) := by
  induction fuel with
  | zero =>
      intro prev ts hheld _ _ hfuel children hchildren
      cases ts with
      | nil =>
          cases hchildren
          rfl
      | cons t ts =>
          have hmem : t.root ∈ (t :: ts).flatMap RoseTree.items :=
            List.mem_flatMap.mpr ⟨t, List.mem_cons_self, RoseTree.root_mem_items t⟩
          rw [List.length_eq_zero_iff.mp (Nat.le_zero.mp hfuel)] at hmem
          cases hmem
  | succ fuel ih =>
      intro prev ts hheld htexts hsegment hfuel children hchildren
      cases ts with
      | nil =>
          cases hchildren
          rfl
      | cons t ts =>
          cases t with
          | node c us =>
              rcases hheld.cons with
                ⟨r, ⟨hr, hchild, _⟩, hroots, hheldUs, hheldTs, _⟩
              have hnext : r.next = (ts.map RoseTree.root).head? := by
                rcases recordAt_of_links hsegment.left with ⟨r', hr', hnext, _⟩
                have hr'' : recordAt mem c = some r' := hr'
                rw [hr] at hr''
                cases hr''
                exact hnext.trans Option.or_none
              have hsegmentUs : Segment (linksOf mem) none
                  (us.map RoseTree.root) none := by
                rw [hroots]
                exact hheld.segment c
                  (List.mem_flatMap.mpr ⟨_, List.mem_cons_self,
                  RoseTree.root_mem_items _⟩)
              have hitems : (RoseTree.node c us :: ts).flatMap RoseTree.items =
                  c :: (us.flatMap RoseTree.items ++
                    ts.flatMap RoseTree.items) := by
                rw [List.flatMap_cons, RoseTree.items_node]
                rfl
              rw [hitems] at htexts hfuel
              rw [List.length_cons, List.length_append] at hfuel
              rcases shownAll_cons hchildren with
                ⟨⟨name, item⟩, others, hshown, hothers, rfl⟩
              rcases shown_node hshown with
                ⟨type, valueint, valuedouble, valuestring, below, hvalues,
                hbelow, hitem⟩
              rw [valuesOf_record hr] at hvalues
              cases hvalues
              have htextsC : forall p, p ∈ stringsOf r ->
                  (textAt mem p).isSome := by
                intro p hp
                apply htexts c p List.mem_cons_self
                rw [strings_record hr]
                exact hp
              have hchildrenRead := ih none us hheldUs
                (fun a p ha =>
                  htexts a p (List.mem_cons_of_mem c
                  (List.mem_append_left _ ha))) hsegmentUs (by omega) below hbelow
              have hrestRead := ih (some c) ts hheldTs
                (fun a p ha =>
                  htexts a p (List.mem_cons_of_mem c
                  (List.mem_append_right _ ha))) hsegment.right
                  (by omega) others hothers
              rw [← hchild] at hchildrenRead
              rw [← hnext] at hrestRead
              show readFrom (fuel + 1) (some c) mem = _
              rw [readFrom, Program.bind_apply, readItem_apply hr]
              show (readOptional r.string >>= _) mem = _
              rw [Program.bind_apply,
                readOptional_apply (fun p hp =>
                htextsC p (List.mem_append_right _ hp))]
              show (readValue (readFrom fuel) r >>= _) mem = _
              rw [Program.bind_apply, readValue_apply hchildrenRead htextsC hitem]
              show (readFrom fuel r.next >>= _) mem = _
              rw [Program.bind_apply, hrestRead]
              rfl

/-!
# Members
-/

theorem namedAll_eq {children : List (Option (List UInt8) × Item double)} :
    forall {members : List (List UInt8 × Item double)},
    namedAll children = some members ->
      children = members.map (fun m => (some m.1, m.2)) := by
  induction children with
  | nil =>
      intro members h
      cases h
      rfl
  | cons child children ih =>
      intro members h
      rcases child with ⟨name, item⟩
      cases name with
      | none => cases h
      | some name =>
          rcases Option.map_eq_some_iff.mp h with ⟨others, hothers, rfl⟩
          rw [ih hothers]
          rfl

theorem namedAll_map (members : List (List UInt8 × Item double)) :
    namedAll (members.map (fun m => (some m.1, m.2))) = some members := by
  induction members with
  | nil => rfl
  | cons m members ih =>
      rw [List.map_cons, namedAll, ih]
      rfl

def Says (item : Item double) (type : Nat) (valueint : Int)
    (valuestring : Option (List UInt8))
    (children : List (Option (List UInt8) × Item double)) : Prop :=
  match item with
  | .false => type = cJSONFalse
  | .true => type = cJSONTrue
  | .null => type = cJSONNULL
  | .number _ n => type = cJSONNumber ∧ valueint = n
  | .string text => type = cJSONString ∧ valuestring = some text
  | .array _ => type = cJSONArray
  | .object members => type = cJSONObject ∧ namedAll children = some members

theorem says_of_itemOf {type : Nat} {valueint : Int} {valuedouble : double}
    {valuestring : Option (List UInt8)}
    {children : List (Option (List UInt8) × Item double)} {item : Item double}
    (h : itemOf type valueint valuedouble valuestring children = some item) :
    Says item type valueint valuestring children := by
  unfold itemOf at h
  split at h
  · next htype =>
      cases h
      exact htype
  split at h
  · next htype =>
      cases h
      exact htype
  split at h
  · next htype =>
      cases h
      exact htype
  split at h
  · next htype =>
      cases h
      exact ⟨htype, rfl⟩
  split at h
  · next htype =>
      rcases Option.map_eq_some_iff.mp h with ⟨text, htext, rfl⟩
      exact ⟨htype, htext⟩
  split at h
  · next htype =>
      cases h
      exact htype
  split at h
  · next htype =>
      rcases Option.map_eq_some_iff.mp h with ⟨members, hmembers, rfl⟩
      exact ⟨htype, hmembers⟩
  · cases h

theorem shown_object {members : List (List UInt8 × Item double)}
    {name : Option (List UInt8)}
    (h : shown mem (.node p us) = some (name, .object members)) :
    exists valueint valuedouble valuestring, valuesOf mem p =
      some (cJSONObject, valueint, valuedouble, valuestring, name) ∧
      shownAll mem us = some (members.map (fun m => (some m.1, m.2))) := by
  rcases shown_node h with ⟨type, valueint, valuedouble, valuestring, children,
    hvalues, hchildren, hitem⟩
  rcases says_of_itemOf hitem with ⟨rfl, hmembers⟩
  rw [namedAll_eq hmembers] at hchildren
  exact ⟨valueint, valuedouble, valuestring, hvalues, hchildren⟩

theorem shown_of_object {members : List (List UInt8 × Item double)}
    {name valuestring : Option (List UInt8)} {valueint : Int}
    {valuedouble : double}
    (hvalues : valuesOf mem p = some (cJSONObject, valueint, valuedouble,
    valuestring, name))
    (hchildren : shownAll mem us = some (members.map (fun m => (some m.1, m.2)))) :
    shown mem (.node p us) = some (name, .object members) := by
  apply shown_eq hvalues hchildren
  show (namedAll (members.map (fun m => (some m.1, m.2)))).map Item.object = _
  rw [namedAll_map]
  rfl

theorem named_of_shown {name : List UInt8} {item : Item double}
    (h : shown mem t = some (some name, item)) (string : List UInt8) :
    Named mem string t.root = decide (JsonRpc.cJSONStrcasecmp name string = 0) := by
  cases t with
  | node p us =>
      rcases shown_node h with ⟨type, valueint, valuedouble, valuestring,
        children, hvalues, _, _⟩
      unfold valuesOf at hvalues
      rcases Option.map_eq_some_iff.mp hvalues with ⟨r, hr, heq⟩
      have hname : r.string.bind (textAt mem) = some name :=
        congrArg (fun v => v.2.2.2.2) heq
      rcases Option.bind_eq_some_iff.mp hname with ⟨q, hq, htext⟩
      show Named mem string p = _
      unfold Named
      rw [hr]
      simp only [hq, htext]

theorem find_named (string : List UInt8) :
    forall {us : List (RoseTree Nat)} {members : List (List UInt8 × Item double)},
    shownAll mem us = some (members.map (fun m => (some m.1, m.2))) ->
    (JsonRpc.cJSONGetObjectItem string members = none ∧
    (us.map RoseTree.root).find? (Named mem string) = none) ∨
      exists u item name, u ∈ us ∧ shown mem u = some (some name, item) ∧
        JsonRpc.cJSONGetObjectItem string members = some item ∧
        (us.map RoseTree.root).find? (Named mem string) = some u.root := by
  intro us
  induction us with
  | nil =>
      intro members h
      cases members with
      | nil => exact Or.inl ⟨rfl, rfl⟩
      | cons m members => cases h
  | cons u us ih =>
      intro members h
      rcases shownAll_cons h with ⟨child, others, hchild, hothers, heq⟩
      cases members with
      | nil => cases heq
      | cons m members =>
          rcases m with ⟨name, item⟩
          rcases List.cons.inj heq with ⟨hm, hmembers⟩
          rw [← hm] at hchild
          rw [← hmembers] at hothers
          have hnamed := named_of_shown hchild string
          rw [List.map_cons, JsonRpc.cJSONGetObjectItem]
          by_cases hname : JsonRpc.cJSONStrcasecmp name string = 0
          · rw [decide_eq_true hname] at hnamed
            rw [if_neg (not_not.mpr hname), List.find?_cons_of_pos hnamed]
            exact Or.inr ⟨u, item, name, List.mem_cons_self, hchild, rfl, rfl⟩
          · rw [decide_eq_false hname] at hnamed
            rw [if_pos hname, List.find?_cons_of_neg (by rw [hnamed]; decide)]
            rcases ih hothers with hnone | ⟨v, item', name', hv, hrest⟩
            · exact Or.inl hnone
            · exact Or.inr ⟨v, item', name', List.mem_cons_of_mem u hv, hrest⟩

end Heap
end CJson
end Lepd
