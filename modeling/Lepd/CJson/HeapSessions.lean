import Lepd.CJson.HeapRuns

/-!
# Calls of a client

What each call makes of the trees that memory holds, and that no call of a
client that keeps to the rules of ownership goes wrong.
-/

namespace Lepd
namespace CJson
namespace Heap

open Foundation

variable {double : Type} {mem mem' : Memory double} {f f' : Forest} {a c p q x :
  Nat} {fuel : Nat}

/-!
# Copies of strings
-/

def placed (mem : Memory double) (answer : Option Nat) (chars : List UInt8) :
    Memory double :=
  match answer with
  | none => mem
  | some q => Function.update mem q (some (.text chars))

theorem strdup_apply {answer : Option Nat}
    (h : forall q, answer = some q -> mem q = none) (chars : List UInt8) :
    cJSONStrdup answer chars mem = some (answer, placed mem answer chars) := by
  cases answer with
  | none => rfl
  | some q =>
      show (if (mem q).isSome then none else _) = _
      rw [h q rfl]
      rfl

theorem placed_of_ne {answer : Option Nat} (h : answer ≠ some p)
    (chars : List UInt8) : placed mem answer chars p = mem p := by
  cases answer with
  | none => rfl
  | some q =>
      exact Function.update_of_ne (fun heq => h (congrArg some heq.symm)) _ _

theorem textAt_placed {answer : Option Nat} (h : answer = some q)
    (chars : List UInt8) :
    textAt (placed mem answer chars) q = some chars := by
  rw [h]
  show textAt (Function.update mem q (some (.text chars))) q = _
  unfold textAt
  rw [Function.update_self]

theorem store_retold {r : Record double} (hr : recordAt mem p = some r)
    (htexts : forall q, q ∈ stringsOf r -> (textAt mem q).isSome)
    (hnodup : (stringsOf r).Nodup) {g : Record double -> Record double}
    (hstrings : stringsOf (g r) = stringsOf r)
    (hlinks : (g r).next = r.next ∧ (g r).prev = r.prev ∧ (g r).child = r.child)
    (htype : (g r).type &&& cJSONIsReference = r.type &&& cJSONIsReference) :
    Retold mem (Function.update mem p (some (.item (g r)))) p r (g r) where
  old := hr
  new := recordAt_item (g r)
  next := hlinks.left
  prev := hlinks.right.left
  child := hlinks.right.right
  type := htype
  nodup := hstrings.symm ▸ hnodup
  fresh q hq := Or.inl (hstrings ▸ hq)
  texts q hq := by
    have htext := htexts q (hstrings ▸ hq)
    have hne : q ≠ p := by
      intro heq
      rw [heq, not_text_of_record hr] at htext
      cases htext
    rw [textAt_congr (Function.update_of_ne hne _ _)]
    exact htext
  gone q hq hq' := absurd (hstrings.symm ▸ hq) hq'
  others q hq _ _ := Function.update_of_ne hq _ _

/-- A text in a new block is pointed to, if there is one; the old texts stay. -/
theorem text_retold {r r' : Record double} (hr : recordAt mem p = some r)
    (htexts : forall q, q ∈ stringsOf r -> (textAt mem q).isSome)
    (hnodup : (stringsOf r).Nodup) {answer : Option Nat}
    (hanswer : forall q, answer = some q -> mem q = none)
    (hstrings : stringsOf r' = answer.toList ++ stringsOf r)
    (hlinks : r'.next = r.next ∧ r'.prev = r.prev ∧ r'.child = r.child)
    (htype : r'.type &&& cJSONIsReference = r.type &&& cJSONIsReference)
    (chars : List UInt8) :
    Retold mem (Function.update (placed mem answer chars) p (some (.item r'))) p
      r r' := by
  have hold : forall q, q ∈ stringsOf r -> q ≠ p ∧ answer ≠ some q := by
    intro q hq
    have htext := htexts q hq
    constructor
    · intro heq
      rw [heq, not_text_of_record hr] at htext
      cases htext
    · intro heq
      have hused := isSome_of_text htext
      rw [hanswer q heq] at hused
      cases hused
  have hnew : forall q, answer = some q -> q ≠ p := by
    intro q hq heq
    have hnone := hanswer q hq
    rw [heq, recordAt_eq_some hr] at hnone
    cases hnone
  refine ⟨hr, recordAt_item r', hlinks.left, hlinks.right.left,
    hlinks.right.right, htype, ?_, ?_, ?_, ?_, ?_⟩
  · rw [hstrings]
    cases answer with
    | none => exact hnodup
    | some q => exact List.nodup_cons.mpr ⟨fun hq => (hold q hq).right rfl, hnodup⟩
  · intro q hq
    rw [hstrings] at hq
    rcases List.mem_append.mp hq with hq | hq
    · exact Or.inr (hanswer q (Option.mem_toList.mp hq))
    · exact Or.inl hq
  · intro q hq
    rw [hstrings] at hq
    rcases List.mem_append.mp hq with hq | hq
    · have hq' : answer = some q := Option.mem_toList.mp hq
      rw [textAt_congr (Function.update_of_ne (hnew q hq') _ _), textAt_placed hq']
      rfl
    · rw [textAt_congr ((Function.update_of_ne (hold q hq).left _ _).trans
        (placed_of_ne (hold q hq).right chars))]
      exact htexts q hq
  · intro q hq hq'
    rw [hstrings] at hq'
    exact absurd (List.mem_append_right _ hq) hq'
  · intro q hqp _ hq'
    rw [hstrings] at hq'
    have hqa : answer ≠ some q := fun heq =>
      hq' (List.mem_append_left _ (Option.mem_toList.mpr heq))
    rw [Function.update_of_ne hqp, placed_of_ne hqa]

section CreateString

variable [CDouble double]

theorem newItem_represents (h : Represents mem f) (hp : mem p = none)
    (type : Nat) (htype : type &&& cJSONIsReference = 0) :
    exists mem' f' r, newItem type (some p) mem = some (some p, mem') ∧
      recordAt mem' p = some r ∧
      r = ⟨none, none, none, type, none, 0, CDouble.ofInt 0, none⟩ ∧
        (forall q, q ≠ p -> mem' q = mem q) ∧
      Represents mem' f' ∧ Becomes mem mem' f' (Function.update f.kids p [])
        (p :: f.roots) (p :: f.nodes) (some p) := by
  rcases malloc_represents (r :=
    ⟨none, none, none, type, none, 0, CDouble.ofInt 0, none⟩) h hp
    ⟨rfl, rfl⟩ rfl htype rfl with
    ⟨mem', f', hrun, hr, hother, hrep, hbecomes⟩
  exact ⟨mem', f', _, hrun, hr, rfl, hother, hrep, hbecomes⟩

theorem createNumber_represents (h : Represents mem f) (num : double)
    (hp : mem p = none) :
    exists mem' f', cJSONCreateNumber num (some p) mem = some (some p, mem') ∧
      Represents mem' f' ∧
      Becomes mem mem' f' (Function.update f.kids p []) (p :: f.roots)
        (p :: f.nodes) (some p) ∧
      valuesOf mem' p = some (cJSONNumber, CDouble.toInt num, num, none, none) := by
  rcases newItem_represents h hp cJSONNumber rfl with
    ⟨mem₁, f', r, hrun, hr, heq, hother, hrep, hbecomes⟩
  have hstrings : stringsOf r = [] := by
    rw [heq]
    rfl
  have hmem : p ∈ f'.nodes := hbecomes.nodes.mem_iff.mpr List.mem_cons_self
  have hre := store_retold (g := fun r =>
    { r with valuedouble := num, valueint := CDouble.toInt num }) hr
    (fun q hq => absurd (hstrings ▸ hq) List.not_mem_nil)
    (hstrings.symm ▸ List.nodup_nil) rfl ⟨rfl, rfl, rfl⟩ rfl
  refine ⟨_, f', ?_, hrep.retold hmem hre,
    ⟨hbecomes.kids, hbecomes.roots, hbecomes.nodes, ?_⟩, ?_⟩
  · unfold cJSONCreateNumber
    rw [Program.bind_apply, hrun]
    show (storeItem p _ >>= _) mem₁ = _
    rw [Program.bind_apply, storeItem_apply hr]
    rfl
  · intro b hb hne
    rw [valuesOf_congr (hrep.retold_kept hmem hre hb (fun heq =>
      hne (congrArg some heq.symm)))]
    exact hbecomes.values b hb hne
  · unfold valuesOf
    rw [recordAt_item, heq]
    rfl

theorem createString_represents (h : Represents mem f) (string : List UInt8)
    (hp : mem p = none) {answer : Option Nat}
    (hanswer : forall q, answer = some q -> mem q = none ∧ q ≠ p) :
    exists mem' f', cJSONCreateString string (some p) answer mem =
      some (some p, mem') ∧ Represents mem' f' ∧
      Becomes mem mem' f' (Function.update f.kids p []) (p :: f.roots)
        (p :: f.nodes) (some p) ∧
      valuesOf mem' p = some (cJSONString, 0, CDouble.ofInt 0,
        answer.map (fun _ => string), none) := by
  rcases newItem_represents h hp cJSONString rfl with
    ⟨mem₁, f', r, hrun, hr, heq, hother, hrep, hbecomes⟩
  have hstrings : stringsOf r = [] := by
    rw [heq]
    rfl
  have hmem : p ∈ f'.nodes := hbecomes.nodes.mem_iff.mpr List.mem_cons_self
  have hfree : forall q, answer = some q -> mem₁ q = none := by
    intro q hq
    rw [hother q (hanswer q hq).right]
    exact (hanswer q hq).left
  have hpa : answer ≠ some p := fun heq => (hanswer p heq).right rfl
  have hr₂ : recordAt (placed mem₁ answer string) p = some r := by
    rw [recordAt_congr (placed_of_ne hpa string)]
    exact hr
  have hnone : r.valuestring.toList = [] ∧ r.string.toList = [] :=
    List.append_eq_nil_iff.mp hstrings
  have hnew : stringsOf { r with valuestring := answer } = answer.toList := by
    show answer.toList ++ r.string.toList = _
    rw [hnone.right, List.append_nil]
  have hre : Retold mem₁ (Function.update (placed mem₁ answer string) p
    (some (.item { r with valuestring := answer }))) p r
      { r with valuestring := answer } := by
    have hadded : stringsOf { r with valuestring := answer } = answer.toList ++
      stringsOf r := by
      rw [hnew, hstrings, List.append_nil]
    exact text_retold hr (fun q hq => absurd (hstrings ▸ hq) List.not_mem_nil)
      (hstrings.symm ▸ List.nodup_nil) hfree hadded
      ⟨rfl, rfl, rfl⟩ rfl string
  have htext : answer.bind (textAt (Function.update (placed mem₁ answer string) p
      (some (.item { r with valuestring := answer })))) =
        answer.map (fun _ => string) := by
    cases hq : answer with
    | none => rfl
    | some q =>
        show textAt (Function.update (placed mem₁ (some q) string) p _) q =
          some string
        rw [textAt_congr (Function.update_of_ne (hanswer q hq).right _ _),
          textAt_placed rfl]
  refine ⟨_, f', ?_, hrep.retold hmem hre,
    ⟨hbecomes.kids, hbecomes.roots, hbecomes.nodes, ?_⟩, ?_⟩
  · unfold cJSONCreateString
    rw [Program.bind_apply, hrun]
    show (cJSONStrdup answer string >>= _) mem₁ = _
    rw [Program.bind_apply, strdup_apply hfree]
    show (storeItem p _ >>= _) (placed mem₁ answer string) = _
    rw [Program.bind_apply, storeItem_apply hr₂]
    rfl
  · intro b hb hne
    rw [valuesOf_congr (hrep.retold_kept hmem hre hb (fun heq =>
      hne (congrArg some heq.symm)))]
    exact hbecomes.values b hb hne
  · unfold valuesOf
    rw [recordAt_item, Option.map_some]
    show some (r.type, r.valueint, r.valuedouble, answer.bind _,
      r.string.bind _) = _
    rw [htext, heq]
    rfl

end CreateString

theorem readName_apply {string : CString} {chars : List UInt8}
    (h : string.text mem = some chars) :
    readName string mem = some (chars, mem) := by
  unfold readName
  rw [h]
  rfl

theorem text_without {string : CString} {ps : List Nat} {chars : List UInt8}
    (h : string.text (without mem ps) = some chars) :
    string.text mem = some chars := by
  cases string with
  | own text => exact h
  | block p =>
      by_cases hp : p ∈ ps
      · have hnone : textAt (without mem ps) p = none := by
          unfold textAt without
          rw [if_pos hp]
        cases hnone.symm.trans h
      · exact (textAt_congr (without_of_not_mem hp)).symm.trans h

def nameOf (mem : Memory double) (x : Nat) : List Nat :=
  match recordAt mem x with
  | none => []
  | some r => r.string.toList

def withName (name : Option (List UInt8))
    (values : Nat × Int × double × Option (List UInt8) × Option (List UInt8)) :
    Nat × Int × double × Option (List UInt8) × Option (List UInt8) :=
  (values.1, values.2.1, values.2.2.1, values.2.2.2.1, name)

/-- The first part of `cJSON_AddItemToObject`: the item gets a name, and its old
one is given back. -/
theorem rename_represents (h : Represents mem f) (hx : x ∈ f.nodes)
    (string : List UInt8) {answer : Option Nat}
    (hanswer : forall q, answer = some q -> without mem (nameOf mem x) q = none) :
    exists mem' r, recordAt mem x = some r ∧ freeAll r.string mem =
      some ((), without mem (nameOf mem x)) ∧
      (cJSONStrdup answer string >>= fun copy =>
        (storeItem x (fun r => { r with string := copy }) :
          Routine double Unit)) (without mem (nameOf mem x)) =
          some ((), mem') ∧
      Represents mem' f ∧ (forall b, b ∈ f.nodes -> b ≠ x -> valuesOf mem' b =
        valuesOf mem b) ∧
      valuesOf mem' x = (valuesOf mem x).map
        (withName (answer.map (fun _ => string))) := by
  rcases recordAt_of_child (h.held.first x hx) with ⟨r, hr, _⟩
  have hname : nameOf mem x = r.string.toList := by
    unfold nameOf
    rw [hr]
  rw [hname] at hanswer ⊢
  have hstrings := strings_record hr
  have hblocks : forall q, q ∈ blocks mem x -> (mem q).isSome :=
    fun q hq => h.held.used q (List.mem_flatMap.mpr ⟨x, hx, hq⟩)
  have hown : (x :: stringsOf r).Nodup := by
    have hnodup := (List.nodup_flatMap.mp h.held.once).left x hx
    unfold blocks at hnodup
    rw [hstrings] at hnodup
    exact hnodup
  rcases List.nodup_cons.mp hown with ⟨hxs, hdistinct⟩
  have hfree : freeAll r.string mem = some ((), without mem r.string.toList) := by
    apply freeAll_apply
    intro q hq
    exact hblocks q (List.mem_cons_of_mem x (hstrings ▸ List.mem_append_right _ hq))
  let mem₁ := without mem r.string.toList
  have hx₁ : mem₁ x = mem x := without_of_not_mem (fun hxr =>
    hxs (List.mem_append_right _ hxr))
  have hxa : answer ≠ some x := by
    intro heq
    have hnone : mem₁ x = none := hanswer x heq
    rw [hx₁, recordAt_eq_some hr] at hnone
    cases hnone
  have hr₂ : recordAt (placed mem₁ answer string) x = some r := by
    rw [recordAt_congr ((placed_of_ne hxa string).trans hx₁)]
    exact hr
  -- A block that the copy is put in is none of the other text.
  have hfresh : forall q, answer = some q -> q ∉ r.valuestring.toList ∧ q ≠ x := by
    intro q hq
    constructor
    · intro hqv
      have hnone : mem₁ q = none := hanswer q hq
      have hkept : mem₁ q = mem q :=
        without_of_not_mem (fun hqr =>
          (List.nodup_append.mp hdistinct).right.right q hqv q hqr rfl)
      have hused :=
        hblocks q (List.mem_cons_of_mem x (hstrings ▸ List.mem_append_left _ hqv))
      rw [← hkept, hnone] at hused
      cases hused
    · intro heq
      exact hxa (heq ▸ hq)
  have hre : Retold mem (Function.update (placed mem₁ answer string) x
    (some (.item { r with string := answer }))) x r
      { r with string := answer } := by
    refine ⟨hr, recordAt_item _, rfl, rfl, rfl, rfl, ?_, ?_, ?_, ?_, ?_⟩
    · apply List.nodup_append.mpr
      refine ⟨(List.nodup_append.mp hdistinct).left, ?_, ?_⟩
      · cases answer with
        | none => exact List.nodup_nil
        | some q => exact List.nodup_singleton q
      · intro q hq s hs heq
        rw [Option.mem_toList] at hs
        exact (hfresh s hs).left (heq ▸ hq)
    · intro q hq
      rcases List.mem_append.mp hq with hq | hq
      · exact Or.inl (List.mem_append_left _ hq)
      · rw [Option.mem_toList] at hq
        by_cases hqr : q ∈ r.string.toList
        · exact Or.inl (List.mem_append_right _ hqr)
        · have hnone := hanswer q hq
          rw [without_of_not_mem hqr] at hnone
          exact Or.inr hnone
    · intro q hq
      rcases List.mem_append.mp hq with hq | hq
      · have hqx : q ≠ x := fun heq => hxs (List.mem_append_left _ (heq ▸ hq))
        have hqa : answer ≠ some q := fun heq => (hfresh q heq).left hq
        have hqr : q ∉ r.string.toList := fun hqr =>
          (List.nodup_append.mp hdistinct).right.right q hq q hqr rfl
        have hkept : mem₁ q = mem q := without_of_not_mem hqr
        rw [textAt_congr ((Function.update_of_ne hqx _ _).trans
          ((placed_of_ne hqa string).trans hkept))]
        exact h.texts x q hx (hstrings ▸ List.mem_append_left _ hq)
      · rw [Option.mem_toList] at hq
        rw [textAt_congr (Function.update_of_ne (hfresh q hq).right _ _),
          textAt_placed hq]
        rfl
    · intro q hq hq'
      have hqx : q ≠ x := fun heq => hxs (heq ▸ hq)
      have hqv : q ∉ r.valuestring.toList := fun hqv =>
        hq' (List.mem_append_left _ hqv)
      have hqa : answer ≠ some q := fun heq =>
        hq' (List.mem_append_right _ (Option.mem_toList.mpr heq))
      rw [Function.update_of_ne hqx, placed_of_ne hqa]
      exact if_pos ((List.mem_append.mp hq).resolve_left hqv)
    · intro q hqx hq hq'
      have hqa : answer ≠ some q := fun heq =>
        hq' (List.mem_append_right _ (Option.mem_toList.mpr heq))
      rw [Function.update_of_ne hqx, placed_of_ne hqa]
      exact without_of_not_mem (fun hqr => hq (List.mem_append_right _ hqr))
  have hvaluestring : r.valuestring.bind
      (textAt (Function.update (placed mem₁ answer string) x
      (some (.item { r with string := answer })))) = r.valuestring.bind
        (textAt mem) := by
    cases hv : r.valuestring with
    | none => rfl
    | some q =>
        have hq : q ∈ r.valuestring.toList := Option.mem_toList.mpr hv
        have hqx : q ≠ x := fun heq => hxs (List.mem_append_left _ (heq ▸ hq))
        have hqa : answer ≠ some q := fun heq => (hfresh q heq).left hq
        have hqr : q ∉ r.string.toList := fun hqr =>
          (List.nodup_append.mp hdistinct).right.right q hq q hqr rfl
        have hkept : mem₁ q = mem q := without_of_not_mem hqr
        exact textAt_congr ((Function.update_of_ne hqx _ _).trans
          ((placed_of_ne hqa string).trans hkept))
  have hnamed : answer.bind (textAt (Function.update (placed mem₁ answer string) x
      (some (.item { r with string := answer })))) =
        answer.map (fun _ => string) := by
    cases hq : answer with
    | none => rfl
    | some q =>
        show textAt (Function.update (placed mem₁ (some q) string) x _) q =
          some string
        rw [textAt_congr (Function.update_of_ne (hfresh q hq).right _ _),
          textAt_placed rfl]
  refine ⟨_, r, hr, hfree, ?_, h.retold hx hre, fun b hb hne =>
    valuesOf_congr (h.retold_kept hx hre hb hne), ?_⟩
  · rw [Program.bind_apply, strdup_apply hanswer]
    exact storeItem_apply hr₂ _
  · unfold valuesOf withName
    rw [recordAt_item, hr, Option.map_some, Option.map_some]
    show some (r.type, r.valueint, r.valuedouble, r.valuestring.bind _,
      answer.bind _) = _
    rw [hvaluestring, hnamed]
    rfl

/-!
# What calls do
-/

def Created (mem mem' : Memory double) (f f' : Forest) (answer : Option Nat)
    (values : Nat × Int × double × Option (List UInt8) × Option (List UInt8)) :
    Prop :=
  match answer with
  | none => mem' = mem ∧ f' = f
  | some p =>
      Becomes mem mem' f' (Function.update f.kids p []) (p :: f.roots)
        (p :: f.nodes) (some p) ∧
        valuesOf mem' p = some values

def Detached (mem mem' : Memory double) (f f' : Forest) (a i : Nat)
    (result : Option Nat) : Prop :=
  result = (f.kids a)[i]? ∧
    match (f.kids a)[i]? with
    | none => mem' = mem ∧ f' = f
    | some c =>
        Becomes mem mem' f' (Function.update f.kids a ((f.kids a).eraseIdx i))
        (c :: f.roots) f.nodes none

def Gone (mem mem' : Memory double) (f f' : Forest) (x : Nat)
    (kids : Nat -> List Nat) (roots : List Nat)
    (changed : Option Nat) : Prop :=
  exists t : RoseTree Nat, t.root = x ∧ RoseTree.Below kids t ∧
    f.nodes.Perm (t.items ++ f'.nodes) ∧
    Becomes mem mem' f' kids roots f'.nodes changed

/-- Another item has taken the place of some child, if there is one, and the old
one is gone. -/
def Replaced (mem mem' : Memory double) (f f' : Forest) (a i x : Nat)
    (values :
    Option (Nat × Int × double × Option (List UInt8) × Option (List UInt8))) :
    Prop :=
  match (f.kids a)[i]? with
  | none => mem' = mem ∧ f' = f
  | some c =>
      Gone mem mem' f f' c (Function.update f.kids a ((f.kids a).set i x))
        (f.roots.erase x) (some x) ∧
        x ∈ f'.nodes ∧ valuesOf mem' x = values

theorem nameKept (h : Represents mem f) (ha : a ∈ f.nodes) : NameKept mem a := by
  intro r q hr hq
  apply h.texts a q ha
  rw [strings_record hr]
  exact List.mem_append_right _ (Option.mem_toList.mpr hq)

theorem itemAt (h : Represents mem f) (ha : a ∈ f.nodes)
    (hfuel : f.nodes.length <= fuel) (which : Nat) :
    exists r, recordAt mem a = some r ∧ itemFrom fuel r.child which mem =
      some ((f.kids a)[which]?, mem) := by
  rcases recordAt_of_child (h.held.first a ha) with ⟨r, hr, hchild⟩
  refine ⟨r, hr, ?_⟩
  rw [hchild]
  exact itemFrom_apply (h.held.segment a ha) which
    (Nat.le_trans (Forest.kids_length ha) hfuel)

theorem namedAt (h : Represents mem f) (ha : a ∈ f.nodes)
    (hfuel : f.nodes.length <= fuel) (string : List UInt8) :
    exists r, recordAt mem a = some r ∧ namedFrom string fuel r.child 0 mem =
      some (((f.kids a).find? (Named mem string),
        (f.kids a).findIdx (Named mem string)), mem) := by
  rcases recordAt_of_child (h.held.first a ha) with ⟨r, hr, hchild⟩
  refine ⟨r, hr, ?_⟩
  rw [hchild]
  have hnamed := namedFrom_apply string (h.held.segment a ha) 0 (fun p hp =>
    nameKept h (Forest.kid_mem_nodes ha hp))
    (Nat.le_trans (Forest.kids_length ha) hfuel)
  rw [Nat.zero_add] at hnamed
  exact hnamed

theorem kids_split {l : List Nat} {i : Nat} (h : l[i]? = some c) :
    exists front back, l = front ++ c :: back ∧ l.eraseIdx i = front ++ back ∧
      forall x, l.set i x = front ++ x :: back := by
  rcases List.getElem?_eq_some_iff.mp h with ⟨hi, rfl⟩
  refine ⟨l.take i, l.drop (i + 1), ?_, ?_, ?_⟩
  · rw [List.cons_getElem_drop_succ, List.take_append_drop]
  · exact List.eraseIdx_eq_take_drop_succ l i
  · intro x
    exact List.set_eq_take_append_cons_drop.trans (if_pos hi)

theorem detach_does (h : Represents mem f) (ha : a ∈ f.nodes)
    (hfuel : f.nodes.length <= fuel) (which : Int) :
    exists result mem' f', cJSONDetachItemFromArray fuel a which mem =
      some (result, mem') ∧ Represents mem' f' ∧
      Detached mem mem' f f' a which.toNat result := by
  rcases itemAt h ha hfuel which.toNat with ⟨r, hr, hitem⟩
  have hrun : cJSONDetachItemFromArray fuel a which mem =
      (match (f.kids a)[which.toNat]? with
        | none => pure none
        | some c => do
            unlink a c
            return some c : Routine double (Option Nat)) mem := by
    unfold cJSONDetachItemFromArray
    rw [Program.bind_apply, readItem_apply hr]
    show (itemFrom fuel r.child which.toNat >>= _) mem = _
    rw [Program.bind_apply, hitem]
    rfl
  unfold Detached
  rw [hrun]
  cases hc : (f.kids a)[which.toNat]? with
  | none => exact ⟨none, mem, f, rfl, h, rfl, rfl, rfl⟩
  | some c =>
      rcases kids_split hc with ⟨front, back, hkids, herase, _⟩
      rcases unlink_represents h ha hkids with ⟨mem', f', hunlink, hrep, hbecomes⟩
      refine ⟨some c, mem', f', ?_, hrep, rfl, ?_⟩
      · show (unlink a c >>= _) mem = _
        rw [Program.bind_apply, hunlink]
        rfl
      · rw [← herase] at hbecomes
        exact hbecomes

theorem found_none {l : List Nat} {found : Nat -> Bool}
    (h : l.find? found = none) : l[l.findIdx found]? = none := by
  have hfalse : forall p, p ∈ l -> found p = false := fun p hp =>
    Bool.eq_false_iff.mpr (List.find?_eq_none.mp h p hp)
  rw [List.findIdx_eq_length_of_false hfalse]
  exact List.getElem?_eq_none (Nat.le_refl _)

theorem found_some {l : List Nat} {found : Nat -> Bool}
    (h : l.find? found = some c) : l[l.findIdx found]? = some c := by
  rw [← h]
  exact List.find?_eq_getElem?_findIdx.symm

theorem detachNamed_does (h : Represents mem f) (ha : a ∈ f.nodes)
    (hfuel : f.nodes.length <= fuel) (string : List UInt8) :
    exists result mem' f', cJSONDetachItemFromObject fuel a string mem =
      some (result, mem') ∧ Represents mem' f' ∧
      Detached mem mem' f f' a ((f.kids a).findIdx (Named mem string)) result := by
  rcases namedAt h ha hfuel string with ⟨r, hr, hnamed⟩
  have hrun : cJSONDetachItemFromObject fuel a string mem =
      (match (f.kids a).find? (Named mem string) with
        | none => pure none
        | some _ =>
            cJSONDetachItemFromArray fuel a
            ((f.kids a).findIdx (Named mem string)) :
        Routine double (Option Nat)) mem := by
    unfold cJSONDetachItemFromObject
    rw [Program.bind_apply, readItem_apply hr]
    show (namedFrom string fuel r.child 0 >>= _) mem = _
    rw [Program.bind_apply, hnamed]
    rfl
  rw [hrun]
  cases hfind : (f.kids a).find? (Named mem string) with
  | none =>
      refine ⟨none, mem, f, rfl, h, ?_⟩
      unfold Detached
      rw [found_none hfind]
      exact ⟨rfl, rfl, rfl⟩
  | some c => exact detach_does h ha hfuel ((f.kids a).findIdx (Named mem string))

def Deleted (mem mem' : Memory double) (f f' : Forest) (a i : Nat) : Prop :=
  match (f.kids a)[i]? with
  | none => mem' = mem ∧ f' = f
  | some c =>
      Gone mem mem' f f' c (Function.update f.kids a ((f.kids a).eraseIdx i))
      f.roots none

theorem delete_detached {mem₁ : Memory double} {f₁ : Forest}
    (h : Represents mem₁ f₁) (hfuel : f.nodes.length <= fuel) {i : Nat}
    {result : Option Nat} (hdetached : Detached mem mem₁ f f₁ a i result) :
    exists mem' f', cJSONDelete fuel result mem₁ = some ((), mem') ∧
      Represents mem' f' ∧ Deleted mem mem' f f' a i := by
  rcases hdetached with ⟨rfl, hdetached⟩
  unfold Deleted
  cases hc : (f.kids a)[i]? with
  | none =>
      rw [hc] at hdetached
      rcases hdetached with ⟨rfl, rfl⟩
      refine ⟨mem₁, f₁, ?_, h, rfl, rfl⟩
      cases fuel <;> rfl
  | some c =>
      rw [hc] at hdetached
      have hroot : c ∈ f₁.roots := hdetached.roots.mem_iff.mpr List.mem_cons_self
      rcases delete_represents h hroot (hdetached.nodes.length_eq ▸ hfuel) with
        ⟨mem', f', t, hdelete, hrep, ht, hbelow, hnodes, hbecomes⟩
      refine ⟨mem', f', hdelete, hrep, t, ht, hdetached.kids ▸ hbelow,
        hdetached.nodes.symm.trans hnodes, ?_, ?_,
        List.Perm.refl _, ?_⟩
      · rw [hbecomes.kids, hdetached.kids]
      · have herase := hdetached.roots.erase c
        rw [List.erase_cons_head] at herase
        exact hbecomes.roots.trans herase
      · intro b hb hne
        have hb₁ : b ∈ f₁.nodes := hnodes.mem_iff.mpr (List.mem_append_right _ hb)
        rw [hbecomes.values b hb hne, hdetached.values b hb₁ hne]

theorem created_of {answer : Option Nat}
    {values : Nat × Int × double × Option (List UInt8) × Option (List UInt8)}
    (routine : Option Nat -> Routine double (Option Nat)) (h : Represents mem f)
    (hnone : routine none mem = some (none, mem))
    (hsome : forall p, answer = some p -> exists mem' f', routine (some p) mem =
    some (some p, mem') ∧ Represents mem' f' ∧
      Becomes mem mem' f' (Function.update f.kids p []) (p :: f.roots)
        (p :: f.nodes) (some p) ∧ valuesOf mem' p = some values) :
    exists result mem' f', routine answer mem = some (result, mem') ∧
      Represents mem' f' ∧ result = answer ∧
      Created mem mem' f f' answer values := by
  cases answer with
  | none => exact ⟨none, mem, f, hnone, h, rfl, rfl, rfl⟩
  | some p =>
      rcases hsome p rfl with ⟨mem', f', hrun, hrep, hcreated⟩
      exact ⟨some p, mem', f', hrun, hrep, rfl, hcreated⟩

theorem addItemToObject_does (h : Represents mem f) (ha : a ∈ f.nodes)
    (hx : Movable f a x)
    (hfuel : f.nodes.length <= fuel) {string : CString} {chars : List UInt8}
    (hstring : string.text (without mem (nameOf mem x)) = some chars)
    {answer : Option Nat}
    (hanswer : forall q, answer = some q -> without mem (nameOf mem x) q = none) :
    exists mem' f', cJSONAddItemToObject fuel a string (some x) answer mem =
      some ((), mem') ∧ Represents mem' f' ∧
      Becomes mem mem' f' (Function.update f.kids a (f.kids a ++ [x]))
        (f.roots.erase x) f.nodes (some x) ∧
      valuesOf mem' x = (valuesOf mem x).map
        (withName (answer.map (fun _ => chars))) := by
  have hxn : x ∈ f.nodes := Forest.root_mem_nodes hx.root
  rcases rename_represents h hxn chars hanswer with
    ⟨mem₁, r, hr, hfree, hrename, hrep₁, hvalues, hnamed⟩
  rcases addItemToArray_represents hrep₁ ha hx hfuel with
    ⟨mem₂, f', hadd, hrep₂, hbecomes⟩
  have hxn' : x ∈ f'.nodes := hbecomes.nodes.mem_iff.mpr hxn
  refine ⟨mem₂, f', ?_, hrep₂, ⟨hbecomes.kids, hbecomes.roots, hbecomes.nodes,
    ?_⟩, ?_⟩
  · rcases Program.bind_eq_some hrename with ⟨copy, m₂, hdup, hstore⟩
    show (readItem x >>= _) mem = _
    rw [Program.bind_apply, readItem_apply hr]
    show (freeAll r.string >>= _) mem = _
    rw [Program.bind_apply, hfree]
    show (readName string >>= _) (without mem (nameOf mem x)) = _
    rw [Program.bind_apply, readName_apply hstring]
    show (cJSONStrdup answer chars >>= _) (without mem (nameOf mem x)) = _
    rw [Program.bind_apply, hdup]
    show (storeItem x (fun r => { r with string := copy }) >>= _) m₂ = _
    rw [Program.bind_apply, hstore]
    exact hadd
  · intro b hb hne
    rw [hbecomes.values b hb (fun h => nomatch h)]
    exact hvalues b (hbecomes.nodes.mem_iff.mp hb) (fun heq =>
      hne (congrArg some heq.symm))
  · rw [hbecomes.values x hxn' (fun h => nomatch h)]
    exact hnamed

theorem root_not_below {t : RoseTree Nat} (ht : RoseTree.Below f.kids t)
    (hsub : t.items ⊆ f.nodes) (hx : x ∈ f.roots)
    (hne : x ≠ t.root) : x ∉ t.items := by
  intro hxt
  have hxk := (List.mem_cons.mp (ht.items_perm.mem_iff.mp hxt)).resolve_left hne
  rcases List.mem_flatMap.mp hxk with ⟨b, hb, hxb⟩
  exact Forest.kid_not_root (hsub hb) hxb hx

theorem movable_of_roots (ha : a ∈ f.roots) (hx : x ∈ f.roots) (hne : a ≠ x) :
    Movable f a x := by
  rcases Forest.tree_of_root hx with ⟨t, ht, rfl⟩
  exact ⟨t, ht, rfl, root_not_below (f.below t ht) (fun b hb =>
    List.mem_flatMap.mpr ⟨t, ht, hb⟩) ha hne⟩

theorem new_not_below (ha : a ∈ f.nodes) (hc : c ∈ f.kids a) (hx : x ∈ f.roots)
    {l : List Nat}
    {t : RoseTree Nat} (ht : RoseTree.Below (Function.update f.kids a l) t)
    (hroot : t.root = c) : x ∉ t.items := by
  rcases List.mem_flatMap.mp ha with ⟨s, hs, has⟩
  have hnodup : s.items.Nodup := (List.nodup_flatMap.mp f.nodup).left s hs
  rcases (f.below s hs).child has hc with ⟨u, hu, hbelow, hsub⟩
  have hapart := (f.below s hs).apart hnodup has hc hbelow hu
  rw [ht.unique (hbelow.update hapart l) (hroot.trans hu.symm)]
  apply root_not_below hbelow (fun b hb => List.mem_flatMap.mpr ⟨s, hs, hsub hb⟩) hx
  intro heq
  rw [heq, hu] at hx
  exact Forest.kid_not_root ha hc hx

theorem replace_does (h : Represents mem f) (ha : a ∈ f.nodes)
    (hx : Movable f a x) (hfuel : f.nodes.length <= fuel)
    (which : Int) : exists mem' f', cJSONReplaceItemInArray fuel a which x mem =
    some ((), mem') ∧ Represents mem' f' ∧
      Replaced mem mem' f f' a which.toNat x (valuesOf mem x) := by
  rcases itemAt h ha hfuel which.toNat with ⟨r, hr, hitem⟩
  have hrun : cJSONReplaceItemInArray fuel a which x mem =
      (match (f.kids a)[which.toNat]? with
        | none => pure ()
        | some c => do
            exchange a c x
            cJSONDelete fuel (some c) : Routine double Unit) mem := by
    unfold cJSONReplaceItemInArray
    rw [Program.bind_apply, readItem_apply hr]
    show (itemFrom fuel r.child which.toNat >>= _) mem = _
    rw [Program.bind_apply, hitem]
    rfl
  unfold Replaced
  rw [hrun]
  cases hc : (f.kids a)[which.toNat]? with
  | none => exact ⟨mem, f, rfl, h, rfl, rfl⟩
  | some c =>
      rcases kids_split hc with ⟨front, back, hkids, _, hset⟩
      rcases exchange_represents h ha hkids hx with
        ⟨mem₁, f₁, hexchange, hrep₁, hbecomes₁⟩
      have hroot : c ∈ f₁.roots := hbecomes₁.roots.mem_iff.mpr List.mem_cons_self
      have hfuel₁ : f₁.nodes.length <= fuel := by
        rw [hbecomes₁.nodes.length_eq]
        exact hfuel
      rcases delete_represents hrep₁ hroot hfuel₁ with
        ⟨mem₂, f₂, t, hdelete, hrep₂, ht, hbelow, hnodes, hbecomes₂⟩
      have hkids₁ : f₁.kids = Function.update f.kids a
          ((f.kids a).set which.toNat x) := by
        rw [hbecomes₁.kids, hset]
      have hkept : x ∈ f₂.nodes := by
        have hx₁ : x ∈ f₁.nodes := hbecomes₁.nodes.mem_iff.mpr
          (Forest.root_mem_nodes hx.root)
        refine (List.mem_append.mp (hnodes.mem_iff.mp hx₁)).resolve_left ?_
        exact new_not_below ha
          (hkids ▸ List.mem_append_right front List.mem_cons_self) hx.root
          (hbecomes₁.kids ▸ hbelow) ht
      have hvalues : forall b, b ∈ f₂.nodes -> valuesOf mem₂ b =
          valuesOf mem b := by
        intro b hb
        have hb₁ : b ∈ f₁.nodes := hnodes.mem_iff.mpr (List.mem_append_right _ hb)
        rw [hbecomes₂.values b hb (fun heq => nomatch heq),
          hbecomes₁.values b hb₁ (fun heq => nomatch heq)]
      refine ⟨mem₂, f₂, ?_, hrep₂, ⟨t, ht, hkids₁ ▸ hbelow,
        hbecomes₁.nodes.symm.trans hnodes, ?_, ?_,
        List.Perm.refl _, fun b hb _ => hvalues b hb⟩, hkept, hvalues x hkept⟩
      · show (exchange a c x >>= fun _ => cJSONDelete fuel (some c)) mem = _
        rw [Program.bind_apply, hexchange]
        exact hdelete
      · rw [hbecomes₂.kids, hkids₁]
      · have herase := hbecomes₁.roots.erase c
        rw [List.erase_cons_head] at herase
        exact hbecomes₂.roots.trans herase

theorem replaceNamed_does (h : Represents mem f) (ha : a ∈ f.nodes)
    (hx : Movable f a x)
    (hfuel : f.nodes.length <= fuel) (hname : nameOf mem x = [])
    {string : CString} {chars : List UInt8}
    (hstring : string.text mem = some chars) {answer : Option Nat}
    (hanswer : forall q, answer = some q -> mem q = none) :
    exists mem' f', cJSONReplaceItemInObject fuel a string x answer mem =
      some ((), mem') ∧
      Represents mem' f' ∧ Replaced mem mem' f f' a
        ((f.kids a).findIdx (Named mem chars)) x
        ((valuesOf mem x).map (withName (answer.map (fun _ => chars)))) := by
  rcases namedAt h ha hfuel chars with ⟨o, ho, hnamed⟩
  have hrun : cJSONReplaceItemInObject fuel a string x answer mem =
      (match (f.kids a).find? (Named mem chars) with
        | none => pure ()
        | some _ => do
            let copy <- cJSONStrdup answer chars
            storeItem x (fun r => { r with string := copy })
            cJSONReplaceItemInArray fuel a
              ((f.kids a).findIdx (Named mem chars)) x :
        Routine double Unit) mem := by
    unfold cJSONReplaceItemInObject
    rw [Program.bind_apply, readName_apply hstring]
    show (readItem a >>= _) mem = _
    rw [Program.bind_apply, readItem_apply ho]
    show (namedFrom chars fuel o.child 0 >>= _) mem = _
    rw [Program.bind_apply, hnamed]
    rfl
  rw [hrun]
  cases hfind : (f.kids a).find? (Named mem chars) with
  | none =>
      refine ⟨mem, f, rfl, h, ?_⟩
      unfold Replaced
      rw [found_none hfind]
      exact ⟨rfl, rfl⟩
  | some c =>
      have hxn : x ∈ f.nodes := Forest.root_mem_nodes hx.root
      have hfresh : forall q, answer = some q -> without mem (nameOf mem x) q =
          none := by
        rw [hname, without_nil]
        exact hanswer
      rcases rename_represents h hxn chars hfresh with
        ⟨mem₁, _, _, _, hrename, hrep₁, hvalues, hnew⟩
      rw [hname, without_nil] at hrename
      rcases replace_does hrep₁ ha hx hfuel
        ((f.kids a).findIdx (Named mem chars)) with
        ⟨mem', f', hreplace, hrep, hreplaced⟩
      refine ⟨mem', f', ?_, hrep, ?_⟩
      · rcases Program.bind_eq_some hrename with ⟨copy, m₂, hdup, hstore⟩
        show (cJSONStrdup answer chars >>= _) mem = _
        rw [Program.bind_apply, hdup]
        show (storeItem x (fun r => { r with string := copy }) >>= _) m₂ = _
        rw [Program.bind_apply, hstore]
        exact hreplace
      · unfold Replaced at hreplaced ⊢
        rw [Int.toNat_natCast] at hreplaced
        rw [found_some hfind] at hreplaced ⊢
        rcases hreplaced with ⟨⟨t, ht, hbelow, hnodes, hbecomes⟩, hkept, hsays⟩
        refine ⟨⟨t, ht, hbelow, hnodes, hbecomes.kids, hbecomes.roots,
          hbecomes.nodes, ?_⟩, hkept, hsays.trans hnew⟩
        intro b hb hne
        rw [hbecomes.values b hb hne]
        exact hvalues b (hnodes.mem_iff.mpr (List.mem_append_right _ hb))
          (fun heq => hne (congrArg some heq.symm))

/-!
# Calls
-/

section Calls

variable [CDouble double]

/-- A call of the library, with the answers of `malloc` in it. -/
inductive Call (double : Type) where
  | createNull (answer : Option Nat)
  | createTrue (answer : Option Nat)
  | createFalse (answer : Option Nat)
  | createBool (b : Bool) (answer : Option Nat)
  | createArray (answer : Option Nat)
  | createObject (answer : Option Nat)
  | createNumber (num : double) (answer : Option Nat)
  | createString (string : CString) (answer answer' : Option Nat)
  | addItemToArray (array item : Nat)
  | addItemToObject (object : Nat) (string : CString) (item : Nat)
      (answer : Option Nat)
  | detachItemFromArray (array : Nat) (which : Int)
  | detachItemFromObject (object : Nat) (string : CString)
  | deleteItemFromArray (array : Nat) (which : Int)
  | deleteItemFromObject (object : Nat) (string : CString)
  | replaceItemInArray (array : Nat) (which : Int) (newitem : Nat)
  | replaceItemInObject (object : Nat) (string : CString) (newitem : Nat)
      (answer : Option Nat)
  | delete (item : Nat)

def Call.run (fuel : Nat) : Call double -> Routine double (Option Nat)
  | .createNull answer => cJSONCreateNull answer
  | .createTrue answer => cJSONCreateTrue answer
  | .createFalse answer => cJSONCreateFalse answer
  | .createBool b answer => cJSONCreateBool b answer
  | .createArray answer => cJSONCreateArray answer
  | .createObject answer => cJSONCreateObject answer
  | .createNumber num answer => cJSONCreateNumber num answer
  | .createString string answer answer' => do
      let chars <- readName string
      cJSONCreateString chars answer answer'
  | .addItemToArray array item => do
      cJSONAddItemToArray fuel array (some item)
      return none
  | .addItemToObject object string item answer => do
      cJSONAddItemToObject fuel object string (some item) answer
      return none
  | .detachItemFromArray array which => cJSONDetachItemFromArray fuel array which
  | .detachItemFromObject object string => do
      let chars <- readName string
      cJSONDetachItemFromObject fuel object chars
  | .deleteItemFromArray array which => do
      cJSONDeleteItemFromArray fuel array which
      return none
  | .deleteItemFromObject object string => do
      let chars <- readName string
      cJSONDeleteItemFromObject fuel object chars
      return none
  | .replaceItemInArray array which newitem => do
      cJSONReplaceItemInArray fuel array which newitem
      return none
  | .replaceItemInObject object string newitem answer => do
      cJSONReplaceItemInObject fuel object string newitem answer
      return none
  | .delete item => do
      cJSONDelete fuel (some item)
      return none

/-- `malloc` answers blocks that are not in use, and there are not too many
items. -/
def Fresh (fuel : Nat) (mem : Memory double) (f : Forest)
    (answer : Option Nat) : Prop :=
  forall p, answer = some p -> mem p = none ∧ f.nodes.length < fuel

/--
The client puts in and gives back only what it owns, and does not put an item
below itself. The strings that it passes are there when they are read: no item
is put in under its own name, which is given back before. An item that has a
name does not replace a member, since its name would be lost.
-/
def Call.Legal (fuel : Nat) (mem : Memory double) (f : Forest) : Call double -> Prop
  | .createNull answer => Fresh fuel mem f answer
  | .createTrue answer => Fresh fuel mem f answer
  | .createFalse answer => Fresh fuel mem f answer
  | .createBool _ answer => Fresh fuel mem f answer
  | .createArray answer => Fresh fuel mem f answer
  | .createObject answer => Fresh fuel mem f answer
  | .createNumber _ answer => Fresh fuel mem f answer
  | .createString string answer answer' =>
      Fresh fuel mem f answer ∧ (string.text mem).isSome ∧
        forall q, answer' = some q -> mem q = none ∧ answer ≠ some q
  | .addItemToArray array item => array ∈ f.nodes ∧ Movable f array item
  | .addItemToObject object string item answer =>
      object ∈ f.nodes ∧ Movable f object item ∧
        (string.text (without mem (nameOf mem item))).isSome ∧
        forall q, answer = some q -> without mem (nameOf mem item) q = none
  | .detachItemFromArray array _ => array ∈ f.nodes
  | .detachItemFromObject object string =>
      object ∈ f.nodes ∧ (string.text mem).isSome
  | .deleteItemFromArray array _ => array ∈ f.nodes
  | .deleteItemFromObject object string =>
      object ∈ f.nodes ∧ (string.text mem).isSome
  | .replaceItemInArray array _ newitem => array ∈ f.nodes ∧ Movable f array newitem
  | .replaceItemInObject object string newitem answer =>
      object ∈ f.nodes ∧ Movable f object newitem ∧ nameOf mem newitem = [] ∧
        (string.text mem).isSome ∧
        forall q, answer = some q -> mem q = none
  | .delete item => item ∈ f.roots

def Call.Does (mem mem' : Memory double) (f f' : Forest) (result : Option Nat) :
    Call double -> Prop
  | .createNull answer =>
      result = answer ∧ Created mem mem' f f' answer
      (cJSONNULL, 0, CDouble.ofInt 0, none, none)
  | .createTrue answer =>
      result = answer ∧ Created mem mem' f f' answer
      (cJSONTrue, 0, CDouble.ofInt 0, none, none)
  | .createFalse answer =>
      result = answer ∧ Created mem mem' f f' answer
      (cJSONFalse, 0, CDouble.ofInt 0, none, none)
  | .createBool b answer =>
      result = answer ∧
        Created mem mem' f f' answer (if b then cJSONTrue
          else cJSONFalse, 0, CDouble.ofInt 0, none, none)
  | .createArray answer =>
      result = answer ∧ Created mem mem' f f' answer
      (cJSONArray, 0, CDouble.ofInt 0, none, none)
  | .createObject answer =>
      result = answer ∧ Created mem mem' f f' answer
      (cJSONObject, 0, CDouble.ofInt 0, none, none)
  | .createNumber num answer =>
      result = answer ∧ Created mem mem' f f' answer
        (cJSONNumber, CDouble.toInt num, num, none, none)
  | .createString string answer answer' =>
      result = answer ∧ exists chars, string.text mem = some chars ∧
        Created mem mem' f f' answer (cJSONString, 0, CDouble.ofInt 0,
          answer'.map (fun _ => chars), none)
  | .addItemToArray array item =>
      Becomes mem mem' f' (Function.update f.kids array
        (f.kids array ++ [item])) (f.roots.erase item) f.nodes none
  | .addItemToObject object string item answer =>
      Becomes mem mem' f' (Function.update f.kids object
        (f.kids object ++ [item])) (f.roots.erase item) f.nodes
          (some item) ∧
        exists chars, string.text mem = some chars ∧
          valuesOf mem' item = (valuesOf mem item).map
            (withName (answer.map (fun _ => chars)))
  | .detachItemFromArray array which =>
      Detached mem mem' f f' array which.toNat result
  | .detachItemFromObject object string =>
      exists chars, string.text mem = some chars ∧
        Detached mem mem' f f' object
          ((f.kids object).findIdx (Named mem chars)) result
  | .deleteItemFromArray array which => Deleted mem mem' f f' array which.toNat
  | .deleteItemFromObject object string =>
      exists chars, string.text mem = some chars ∧
        Deleted mem mem' f f' object ((f.kids object).findIdx (Named mem chars))
  | .replaceItemInArray array which newitem =>
      Replaced mem mem' f f' array which.toNat newitem (valuesOf mem newitem)
  | .replaceItemInObject object string newitem answer =>
      exists chars, string.text mem = some chars ∧
        Replaced mem mem' f f' object
          ((f.kids object).findIdx (Named mem chars)) newitem
          ((valuesOf mem newitem).map (withName (answer.map (fun _ => chars))))
  | .delete item => Gone mem mem' f f' item f.kids (f.roots.erase item) none

theorem newItem_created (h : Represents mem f) {type : Nat}
    (htype : type &&& cJSONIsReference = 0) (hp : mem p = none) :
    exists mem' f', newItem type (some p) mem = some (some p, mem') ∧
      Represents mem' f' ∧
      Becomes mem mem' f' (Function.update f.kids p []) (p :: f.roots)
        (p :: f.nodes) (some p) ∧
      valuesOf mem' p = some (type, 0, CDouble.ofInt 0, none, none) := by
  rcases newItem_represents h hp _ htype with
    ⟨mem', f', r, hrun, hr, heq, _, hrep, hbecomes⟩
  refine ⟨mem', f', hrun, hrep, hbecomes, ?_⟩
  unfold valuesOf
  rw [hr, heq]
  rfl

/-- Where memory holds a forest, a legal call has an answer, and memory then
holds what the call makes of the forest. -/
theorem call_does (h : Represents mem f) (hfuel : f.nodes.length <= fuel)
    {call : Call double} (hlegal : call.Legal fuel mem f) :
    exists result mem' f', call.run fuel mem = some (result, mem') ∧
      Represents mem' f' ∧ call.Does mem mem' f f' result := by
  cases call with
  | createNull answer =>
      exact created_of _ h rfl (fun p hp =>
      newItem_created h rfl (hlegal p hp).left)
  | createTrue answer =>
      exact created_of _ h rfl (fun p hp =>
      newItem_created h rfl (hlegal p hp).left)
  | createFalse answer =>
      exact created_of _ h rfl (fun p hp =>
      newItem_created h rfl (hlegal p hp).left)
  | createBool b answer =>
      cases b with
      | true =>
          exact created_of _ h rfl (fun p hp =>
          newItem_created h rfl (hlegal p hp).left)
      | false =>
          exact created_of _ h rfl (fun p hp =>
          newItem_created h rfl (hlegal p hp).left)
  | createArray answer =>
      exact created_of _ h rfl (fun p hp =>
        newItem_created h rfl (hlegal p hp).left)
  | createObject answer =>
      exact created_of _ h rfl (fun p hp =>
        newItem_created h rfl (hlegal p hp).left)
  | createNumber num answer =>
      exact created_of _ h rfl (fun p hp =>
        createNumber_represents h num (hlegal p hp).left)
  | createString string answer answer' =>
      rcases Option.isSome_iff_exists.mp hlegal.right.left with ⟨chars, hchars⟩
      have hcreated := created_of (fun answer =>
        cJSONCreateString chars answer answer') h rfl (fun p hp =>
        createString_represents h chars (hlegal.left p hp).left (fun q hq =>
          ⟨(hlegal.right.right q hq).left, fun heq =>
            (hlegal.right.right q hq).right (heq ▸ hp)⟩))
      rcases hcreated with ⟨result, mem', f', hrun, hrep, hresult, hdoes⟩
      refine ⟨result, mem', f', ?_, hrep, hresult, chars, hchars, hdoes⟩
      show (readName string >>= _) mem = _
      rw [Program.bind_apply, readName_apply hchars]
      exact hrun
  | addItemToArray array item =>
      rcases addItemToArray_represents h hlegal.left hlegal.right hfuel with
        ⟨mem', f', hrun, hrep, hbecomes⟩
      refine ⟨none, mem', f', ?_, hrep, hbecomes⟩
      show (cJSONAddItemToArray fuel array (some item) >>= _) mem = _
      rw [Program.bind_apply, hrun]
      rfl
  | addItemToObject object string item answer =>
      rcases Option.isSome_iff_exists.mp hlegal.right.right.left with
        ⟨chars, hchars⟩
      rcases addItemToObject_does h hlegal.left hlegal.right.left hfuel hchars
        hlegal.right.right.right with
        ⟨mem', f', hrun, hrep, hbecomes, hvalues⟩
      refine ⟨none, mem', f', ?_, hrep, hbecomes, chars, text_without hchars,
        hvalues⟩
      show (cJSONAddItemToObject fuel object string (some item) answer >>= _)
        mem = _
      rw [Program.bind_apply, hrun]
      rfl
  | detachItemFromArray array which => exact detach_does h hlegal hfuel which
  | detachItemFromObject object string =>
      rcases Option.isSome_iff_exists.mp hlegal.right with ⟨chars, hchars⟩
      rcases detachNamed_does h hlegal.left hfuel chars with
        ⟨result, mem', f', hrun, hrep, hdetached⟩
      refine ⟨result, mem', f', ?_, hrep, chars, hchars, hdetached⟩
      show (readName string >>= _) mem = _
      rw [Program.bind_apply, readName_apply hchars]
      exact hrun
  | deleteItemFromArray array which =>
      rcases detach_does h hlegal hfuel which with
        ⟨c, mem₁, f₁, hdetach, hrep₁, hdetached⟩
      rcases delete_detached hrep₁ hfuel hdetached with
        ⟨mem', f', hdelete, hrep, hdeleted⟩
      refine ⟨none, mem', f', ?_, hrep, hdeleted⟩
      show ((cJSONDetachItemFromArray fuel array which >>=
        fun c => cJSONDelete fuel c) >>= _) mem = _
      rw [Program.bind_apply, Program.bind_apply, hdetach]
      show (cJSONDelete fuel c mem₁).bind _ = _
      rw [hdelete]
      rfl
  | deleteItemFromObject object string =>
      rcases Option.isSome_iff_exists.mp hlegal.right with ⟨chars, hchars⟩
      rcases detachNamed_does h hlegal.left hfuel chars with
        ⟨c, mem₁, f₁, hdetach, hrep₁, hdetached⟩
      rcases delete_detached hrep₁ hfuel hdetached with
        ⟨mem', f', hdelete, hrep, hdeleted⟩
      refine ⟨none, mem', f', ?_, hrep, chars, hchars, hdeleted⟩
      show (readName string >>= _) mem = _
      rw [Program.bind_apply, readName_apply hchars]
      show ((cJSONDetachItemFromObject fuel object chars >>=
        fun c => cJSONDelete fuel c) >>= _) mem = _
      rw [Program.bind_apply, Program.bind_apply, hdetach]
      show (cJSONDelete fuel c mem₁).bind _ = _
      rw [hdelete]
      rfl
  | replaceItemInArray array which newitem =>
      rcases replace_does h hlegal.left hlegal.right hfuel which with
        ⟨mem', f', hrun, hrep, hreplaced⟩
      refine ⟨none, mem', f', ?_, hrep, hreplaced⟩
      show (cJSONReplaceItemInArray fuel array which newitem >>= _) mem = _
      rw [Program.bind_apply, hrun]
      rfl
  | replaceItemInObject object string newitem answer =>
      rcases hlegal with ⟨hobject, hmovable, hname, hstring, hanswer⟩
      rcases Option.isSome_iff_exists.mp hstring with ⟨chars, hchars⟩
      rcases replaceNamed_does h hobject hmovable hfuel hname hchars hanswer with
        ⟨mem', f', hrun, hrep, hreplaced⟩
      refine ⟨none, mem', f', ?_, hrep, chars, hchars, hreplaced⟩
      show (cJSONReplaceItemInObject fuel object string newitem answer >>= _)
        mem = _
      rw [Program.bind_apply, hrun]
      rfl
  | delete item =>
      rcases delete_represents h hlegal hfuel with ⟨mem', f', t, hrun, hrep, hgone⟩
      refine ⟨none, mem', f', ?_, hrep, t, hgone⟩
      show (cJSONDelete fuel (some item) >>= _) mem = _
      rw [Program.bind_apply, hrun]
      rfl

theorem does_length (hfuel : f.nodes.length <= fuel) {call : Call double}
    (hlegal : call.Legal fuel mem f) {result : Option Nat}
    (hdoes : call.Does mem mem' f f' result) : f'.nodes.length <= fuel := by
  have hcreated : forall {answer : Option Nat} {values}, Fresh fuel mem f answer ->
      Created mem mem' f f' answer values -> f'.nodes.length <= fuel := by
    intro answer values hfresh hcreated
    cases answer with
    | none =>
        rw [hcreated.right]
        exact hfuel
    | some p =>
        rw [hcreated.left.nodes.length_eq]
        exact (hfresh p rfl).right
  have hdetached : forall {a i : Nat}, Detached mem mem' f f' a i result ->
      f'.nodes.length <= fuel := by
    intro a i hdetached
    have h := hdetached.right
    cases hc : (f.kids a)[i]? with
    | none =>
        rw [hc] at h
        rw [h.right]
        exact hfuel
    | some c =>
        rw [hc] at h
        rw [h.nodes.length_eq]
        exact hfuel
  have hgone : forall {x : Nat} {kids roots changed},
      Gone mem mem' f f' x kids roots changed -> f'.nodes.length <= fuel := by
    rintro x kids roots changed ⟨t, _, _, hnodes, _⟩
    have hlength := hnodes.length_eq
    rw [List.length_append] at hlength
    omega
  have hdeleted : forall {a i : Nat}, Deleted mem mem' f f' a i ->
      f'.nodes.length <= fuel := by
    intro a i hdeleted
    unfold Deleted at hdeleted
    cases hc : (f.kids a)[i]? with
    | none =>
        rw [hc] at hdeleted
        rw [hdeleted.right]
        exact hfuel
    | some c =>
        rw [hc] at hdeleted
        exact hgone hdeleted
  have hreplaced : forall {a i x : Nat} {values},
      Replaced mem mem' f f' a i x values -> f'.nodes.length <= fuel := by
    intro a i x values hreplaced
    unfold Replaced at hreplaced
    cases hc : (f.kids a)[i]? with
    | none =>
        rw [hc] at hreplaced
        rw [hreplaced.right]
        exact hfuel
    | some c =>
        rw [hc] at hreplaced
        exact hgone hreplaced.left
  cases call with
  | createNull answer => exact hcreated hlegal hdoes.right
  | createTrue answer => exact hcreated hlegal hdoes.right
  | createFalse answer => exact hcreated hlegal hdoes.right
  | createBool b answer => exact hcreated hlegal hdoes.right
  | createArray answer => exact hcreated hlegal hdoes.right
  | createObject answer => exact hcreated hlegal hdoes.right
  | createNumber num answer => exact hcreated hlegal hdoes.right
  | createString string answer answer' =>
      rcases hdoes with ⟨_, _, _, hdoes⟩
      exact hcreated hlegal.left hdoes
  | addItemToArray array item => exact (Becomes.nodes hdoes).length_eq ▸ hfuel
  | addItemToObject object string item answer =>
      exact (Becomes.nodes hdoes.left).length_eq ▸ hfuel
  | detachItemFromArray array which => exact hdetached hdoes
  | detachItemFromObject object string =>
      rcases hdoes with ⟨_, _, hdoes⟩
      exact hdetached hdoes
  | deleteItemFromArray array which => exact hdeleted hdoes
  | deleteItemFromObject object string =>
      rcases hdoes with ⟨_, _, hdoes⟩
      exact hdeleted hdoes
  | replaceItemInArray array which newitem => exact hreplaced hdoes
  | replaceItemInObject object string newitem answer =>
      rcases hdoes with ⟨_, _, hdoes⟩
      exact hreplaced hdoes
  | delete item => exact hgone hdoes

/-- Whatever legal calls are made one after the other, each has an answer and
does what it should. -/
def Safe (fuel : Nat) (good : Memory double -> Forest -> Prop) :
    List (Call double) -> Memory double -> Forest -> Prop
  | [], mem, f => good mem f
  | call :: calls, mem, f =>
      good mem f ∧ (call.Legal fuel mem f -> exists result mem' f',
        call.run fuel mem = some (result, mem') ∧
        call.Does mem mem' f f' result ∧ Safe fuel good calls mem' f')

theorem safe_of_represents {good : Memory double -> Forest -> Prop}
    (hgood : forall mem f, Represents mem f -> f.nodes.length <= fuel ->
    good mem f) (calls : List (Call double)) :
    forall mem f, Represents mem f -> f.nodes.length <= fuel ->
      Safe fuel good calls mem f := by
  induction calls with
  | nil =>
      intro mem f h hfuel
      exact hgood mem f h hfuel
  | cons call calls ih =>
      intro mem f h hfuel
      refine ⟨hgood mem f h hfuel, ?_⟩
      intro hlegal
      rcases call_does h hfuel hlegal with ⟨result, mem', f', hrun, hrep, hdoes⟩
      exact ⟨result, mem', f', hrun, hdoes,
        ih mem' f' hrep (does_length hfuel hlegal hdoes)⟩

/-- No block is in use. -/
def noMemory : Memory double :=
  fun _ => none

def Forest.empty : Forest where
  kids _ := []
  trees := []
  below _ h := nomatch h
  nodup := List.nodup_nil

omit [CDouble double] in
theorem represents_empty : Represents (noMemory : Memory double) Forest.empty where
  held := {
    below := Forest.empty.below
    first := fun _ h => nomatch h
    segment := fun _ h => nomatch h
    owner := fun _ _ h => nomatch h
    once := List.nodup_nil
    used := fun _ h => nomatch h }
  alone _ h := nomatch h
  texts _ _ h := nomatch h
  all _ h := nomatch h

/-- In every run of legal calls, each call has an answer, and does to the trees
what it should do. -/
theorem calls_safe (fuel : Nat) (calls : List (Call double)) :
    Safe fuel (fun _ _ => True) calls noMemory Forest.empty :=
  safe_of_represents (fun _ _ _ _ => trivial) calls noMemory Forest.empty
    represents_empty (Nat.zero_le fuel)

/-- The blocks in use are those of the items, each of one item, and the items
are found where they should be. -/
structure Accounted (fuel : Nat) (mem : Memory double) (f : Forest) : Prop where
  used : forall p, (mem p).isSome = true <-> p ∈ blocksAll mem f.nodes
  once : (blocksAll mem f.nodes).Nodup
  size : forall a, a ∈ f.nodes -> cJSONGetArraySize fuel a mem =
    some ((f.kids a).length, mem)
  item : forall a which, a ∈ f.nodes -> cJSONGetArrayItem fuel a which mem =
    some ((f.kids a)[which.toNat]?, mem)
  named : forall a string, a ∈ f.nodes ->
    cJSONGetObjectItem fuel a string mem =
      some ((f.kids a).find? (Named mem string), mem)

omit [CDouble double] in
theorem Represents.accounted (h : Represents mem f)
    (hfuel : f.nodes.length <= fuel) : Accounted fuel mem f where
  used p := ⟨h.all p, h.held.used p⟩
  once := h.held.once
  size a ha := by
    rcases recordAt_of_child (h.held.first a ha) with ⟨r, hr, hchild⟩
    unfold cJSONGetArraySize
    rw [Program.bind_apply, readItem_apply hr]
    show sizeFrom fuel r.child 0 mem = _
    rw [hchild, sizeFrom_apply (h.held.segment a ha) 0
      (Nat.le_trans (Forest.kids_length ha) hfuel), Nat.zero_add]
  item a which ha := by
    rcases itemAt h ha hfuel which.toNat with ⟨r, hr, hitem⟩
    unfold cJSONGetArrayItem
    rw [Program.bind_apply, readItem_apply hr]
    exact hitem
  named a string ha := by
    rcases namedAt h ha hfuel string with ⟨r, hr, hnamed⟩
    unfold cJSONGetObjectItem
    rw [Program.bind_apply, readItem_apply hr]
    show (namedFrom string fuel r.child 0 >>= _) mem = _
    rw [Program.bind_apply, hnamed]
    rfl

/-- In every run of legal calls, nothing is lost and nothing is owned twice. -/
theorem calls_accounted (fuel : Nat) (calls : List (Call double)) :
    Safe fuel (Accounted fuel) calls noMemory Forest.empty :=
  safe_of_represents (fun _ _ h hfuel => h.accounted hfuel) calls noMemory
    Forest.empty represents_empty (Nat.zero_le fuel)

/-- The calls are legal one after the other, and they lead from one state to the
other. -/
def Leads (fuel : Nat) : List (Call double) -> Memory double -> Forest ->
    Memory double -> Forest -> Prop
  | [], mem, f, mem', f' => mem' = mem ∧ f' = f
  | call :: calls, mem, f, mem', f' =>
      call.Legal fuel mem f ∧ exists result mem₁ f₁, call.run fuel mem =
        some (result, mem₁) ∧
        call.Does mem mem₁ f f₁ result ∧ Leads fuel calls mem₁ f₁ mem' f'

end Calls

/-!
# A session
-/

/-- `null` is put in an object as `a` and replaced by `true`, under the name
that it has itself. -/
def session : List (Call Rat) :=
  [.createObject (some 0), .createNull (some 1),
    .addItemToObject 0 (.own [97]) 1 (some 2), .createTrue (some 3),
    .replaceItemInObject 0 (.block 2) 3 (some 4), .delete 0]

-- An item that has been a member as `b` replaces the one that is `a`: the block
-- of `b` is never given back.
example : ((do
    let _ <- cJSONCreateObject (some 0)
    let _ <- cJSONCreateNull (some 1)
    cJSONAddItemToObject 8 0 (.own [97]) (some 1) (some 2)
    let _ <- cJSONCreateTrue (some 3)
    cJSONAddItemToObject 8 0 (.own [98]) (some 3) (some 4)
    let _ <- cJSONDetachItemFromObject 8 0 [98]
    cJSONReplaceItemInObject 8 0 (.own [97]) 3 (some 5)
    cJSONDelete 8 (some 0) : Routine Rat Unit) noMemory).map (fun r =>
      (List.range 6).filter (fun p => (r.2 p).isSome)) =
      some [4] := rfl

theorem fresh_of {mem : Memory Rat} {p n : Nat} (hp : mem p = none)
    (hlength : f.nodes.length = n) (hn : n < 8) :
    Fresh 8 mem f (some p) := by
  intro q hq
  cases hq
  exact ⟨hp, hlength ▸ hn⟩

theorem session_leads {good : Memory Rat -> Forest -> Prop}
    (h : Safe 8 good session noMemory Forest.empty) :
    exists mem' f', Leads 8 session noMemory Forest.empty mem' f' ∧
      good mem' f' ∧ f'.roots = [] := by
  have hlegal₁ : Call.Legal 8 noMemory Forest.empty (.createObject (some 0) :
    Call Rat) :=
    fresh_of rfl rfl (by decide)
  rcases h.right hlegal₁ with ⟨_, mem₁, f₁, hrun₁, hdoes₁, h₁⟩
  have hbecomes₁ := hdoes₁.right.left
  have hmem₁ : mem₁ = Function.update noMemory 0 _ :=
    (congrArg Prod.snd (Option.some.inj hrun₁)).symm
  have hlegal₂ : Call.Legal 8 mem₁ f₁ (.createNull (some 1) : Call Rat) :=
    fresh_of (hmem₁ ▸ rfl) hbecomes₁.nodes.length_eq (by decide)
  rcases h₁.right hlegal₂ with ⟨_, mem₂, f₂, hrun₂, hdoes₂, h₂⟩
  have hbecomes₂ := hdoes₂.right.left
  have hmem₂ : mem₂ = Function.update (Function.update noMemory 0 _) 1 _ :=
    (congrArg Prod.snd (Option.some.inj (hmem₁ ▸ hrun₂))).symm
  have hroots₂ : f₂.roots.Perm [1, 0] :=
    hbecomes₂.roots.trans (hbecomes₁.roots.cons 1)
  have hnodes₂ : f₂.nodes.Perm [1, 0] :=
    hbecomes₂.nodes.trans (hbecomes₁.nodes.cons 1)
  have hkids₂ : f₂.kids 0 = [] := by
    rw [hbecomes₂.kids, hbecomes₁.kids]
    rfl
  have hlegal₃ : Call.Legal 8 mem₂ f₂
      (.addItemToObject 0 (.own [97]) 1 (some 2) : Call Rat) := by
    refine ⟨hnodes₂.mem_iff.mpr (by decide), ?_, rfl, ?_⟩
    · exact movable_of_roots (hroots₂.mem_iff.mpr (by decide))
        (hroots₂.mem_iff.mpr (by decide)) (by decide)
    · intro q hq
      cases hq
      exact hmem₂ ▸ rfl
  rcases h₂.right hlegal₃ with ⟨_, mem₃, f₃, hrun₃, hdoes₃, h₃⟩
  have hbecomes₃ := hdoes₃.left
  have hmem₃ : mem₃ = Function.update
      (Function.update (Function.update (Function.update
      (Function.update noMemory 0 _) 1 _) 2 _) 1 _) 0 _ :=
    (congrArg Prod.snd (Option.some.inj (hmem₂ ▸ hrun₃))).symm
  have hlegal₄ : Call.Legal 8 mem₃ f₃ (.createTrue (some 3) : Call Rat) := by
    refine fresh_of (hmem₃ ▸ rfl) (hbecomes₃.nodes.trans hnodes₂).length_eq
      (by decide)
  rcases h₃.right hlegal₄ with ⟨_, mem₄, f₄, hrun₄, hdoes₄, h₄⟩
  have hbecomes₄ := hdoes₄.right.left
  have hmem₄ : mem₄ = Function.update
      (Function.update (Function.update (Function.update (Function.update
      (Function.update noMemory 0 _) 1 _) 2 _) 1 _) 0 _) 3 _ :=
    (congrArg Prod.snd (Option.some.inj (hmem₃ ▸ hrun₄))).symm
  have hroots₄ : f₄.roots.Perm [3, 0] := by
    refine hbecomes₄.roots.trans (List.Perm.cons 3 (hbecomes₃.roots.trans ?_))
    exact hroots₂.erase 1
  have hkids₄ : f₄.kids 0 = [1] := by
    rw [hbecomes₄.kids, hbecomes₃.kids, hkids₂]
    rfl
  have hlegal₅ : Call.Legal 8 mem₄ f₄
      (.replaceItemInObject 0 (.block 2) 3 (some 4) : Call Rat) := by
    refine ⟨Forest.root_mem_nodes (hroots₄.mem_iff.mpr (by decide)), ?_,
      hmem₄ ▸ rfl, hmem₄ ▸ rfl, ?_⟩
    · exact movable_of_roots (hroots₄.mem_iff.mpr (by decide))
        (hroots₄.mem_iff.mpr (by decide)) (by decide)
    · intro q hq
      cases hq
      exact hmem₄ ▸ rfl
  rcases h₄.right hlegal₅ with ⟨_, mem₅, f₅, hrun₅, hdoes₅, h₅⟩
  have hroots₅ : f₅.roots.Perm [0] := by
    rcases hdoes₅ with ⟨chars, htext, hreplaced⟩
    have hchars : chars = [97] := Option.some.inj (htext.symm.trans (hmem₄ ▸ rfl))
    have hfirst : (f₄.kids 0)[(f₄.kids 0).findIdx (Named mem₄ chars)]? =
        some 1 := by
      rw [hkids₄, hchars, hmem₄]
      rfl
    unfold Replaced at hreplaced
    rw [hfirst] at hreplaced
    rcases hreplaced with ⟨⟨_, _, _, _, hbecomes₅⟩, _⟩
    exact hbecomes₅.roots.trans (hroots₄.erase 3)
  have hlegal₆ : Call.Legal 8 mem₅ f₅ (.delete 0 : Call Rat) :=
    hroots₅.mem_iff.mpr (by decide)
  rcases h₅.right hlegal₆ with ⟨_, mem₆, f₆, hrun₆, hdoes₆, hgood⟩
  refine ⟨mem₆, f₆, ?_, hgood, ?_⟩
  · exact ⟨hlegal₁, _, _, _, hrun₁, hdoes₁, hlegal₂, _, _, _, hrun₂, hdoes₂,
      hlegal₃, _, _, _, hrun₃, hdoes₃,
      hlegal₄, _, _, _, hrun₄, hdoes₄, hlegal₅, _, _, _, hrun₅, hdoes₅, hlegal₆,
        _, _, _, hrun₆, hdoes₆, rfl, rfl⟩
  · rcases hdoes₆ with ⟨_, _, _, _, hbecomes₆⟩
    exact (hbecomes₆.roots.trans (hroots₅.erase 0)).eq_nil

theorem calls_safe_session :
    exists mem' f', Leads 8 session noMemory Forest.empty mem' f' ∧
    f'.roots = [] := by
  rcases session_leads (calls_safe 8 session) with ⟨mem', f', hleads, _, hroots⟩
  exact ⟨mem', f', hleads, hroots⟩

theorem calls_accounted_session :
    exists mem' f', Leads 8 session noMemory Forest.empty mem' f' ∧
    forall p, (mem' p).isSome = false := by
  rcases session_leads (calls_accounted 8 session) with
    ⟨mem', f', hleads, haccounted, hroots⟩
  refine ⟨mem', f', hleads, ?_⟩
  intro p
  have hnodes : f'.nodes = [] := by
    unfold Forest.nodes
    rw [List.map_eq_nil_iff.mp hroots]
    rfl
  rw [Bool.eq_false_iff]
  intro hp
  have hmem := (haccounted.used p).mp hp
  rw [hnodes] at hmem
  exact absurd hmem List.not_mem_nil

end Heap
end CJson
end Lepd
