import Mathlib.Data.List.Basic

/-!
# Sorting by exchanges

Two nested loops over an array: the entry of the outer index changes places with
each entry behind it that belongs in front of it. The comparison may fail.
-/

namespace Lepd
namespace Foundation

variable {item : Type} (above : item -> item -> Option Bool)

/-- The entries of two places, the second one of which may belong in front of
the first one. -/
def exchange (i k : Nat) (items : List item) : Option (List item) := do
  let x <- items[i]?
  let y <- items[k]?
  let found <- above y x
  if found then some ((items.set i y).set k x) else some items

def exchangeFrom (len i : Nat) (items : List item) : Option (List item) :=
  (List.range' i (len - i)).foldlM (fun items k => exchange above i k items) items

def exchangeSort (len : Nat) (items : List item) : Option (List item) :=
  (List.range len).foldlM (fun items i => exchangeFrom above len i items) items

structure Compares (among : item -> Prop) : Prop where
  defined : forall {x y}, among x -> among y -> exists found, above x y = some found
  asymm : forall {x y}, among x -> among y -> above x y = some true ->
    above y x = some false
  trans : forall {x y z}, among x -> among y -> among z ->
    above x y = some true -> above y z = some true ->
    above x z = some true

/-!
# Turns
-/

variable {above}

theorem getElem?_front (front : List item) (x : item) (rest : List item) :
    (front ++ x :: rest)[front.length]? = some x := by
  rw [List.getElem?_append_right (Nat.le_refl _), Nat.sub_self,
    List.getElem?_cons_zero]

theorem set_front (front : List item) (x y : item) (rest : List item) :
    (front ++ x :: rest).set front.length y = front ++ y :: rest := by
  rw [List.set_append_right _ _ (Nat.le_refl _), Nat.sub_self, List.set_cons_zero]

theorem exchange_at (front : List item) (x : item) (passed : List item)
    (y : item) (rest : List item) :
    exchange above front.length (front.length + 1 + passed.length)
      (front ++ x :: (passed ++ y :: rest)) =
      (above y x).map (fun found =>
        if found then front ++ y :: (passed ++ x :: rest)
        else front ++ x :: (passed ++ y :: rest)) := by
  have hsplit : forall first, front ++ first :: (passed ++ y :: rest) =
      (front ++ first :: passed) ++ y :: rest := by
    intro first
    rw [List.append_assoc, List.cons_append]
  have hindex : forall first, front.length + 1 + passed.length =
      (front ++ first :: passed).length := by
    intro first
    rw [List.length_append, List.length_cons]
    omega
  have hy : (front ++ x :: (passed ++ y :: rest))[front.length + 1 +
    passed.length]? = some y := by
    rw [hsplit x, hindex x]
    exact getElem?_front _ y rest
  have hset : ((front ++ x :: (passed ++ y :: rest)).set front.length y).set
      (front.length + 1 + passed.length) x =
      front ++ y :: (passed ++ x :: rest) := by
    rw [set_front, hsplit y, hindex y, set_front, List.append_assoc,
      List.cons_append]
  unfold exchange
  rw [getElem?_front, hy]
  show (above y x).bind (fun found => if found
    then some (((front ++ x :: (passed ++ y :: rest)).set front.length y).set
      (front.length + 1 + passed.length) x)
    else some (front ++ x :: (passed ++ y :: rest))) = _
  rw [hset]
  cases above y x with
  | none => rfl
  | some found => cases found <;> rfl

theorem exchange_self {among : item -> Prop} (h : Compares above among)
    (front : List item) {x : item} (hx : among x)
    (rest : List item) : exchange above front.length front.length
    (front ++ x :: rest) = some (front ++ x :: rest) := by
  have hfound : above x x = some false := by
    rcases h.defined hx hx with ⟨found, hfound⟩
    cases found with
    | false => exact hfound
    | true => exact h.asymm hx hx hfound
  unfold exchange
  rw [getElem?_front]
  show (above x x).bind _ = _
  rw [hfound]
  rfl

/-!
# Loops
-/

section Loops

variable {among : item -> Prop} (h : Compares above among)

include h

/-- What is behind an entry once it has been compared with all of it: nothing
that belongs in front of it. -/
theorem exchanges_ok (front rest : List item) :
    forall (x : item) (passed : List item),
    (forall y, y ∈ x :: (passed ++ rest) -> among y) ->
    (forall y, y ∈ passed -> above y x = some false) ->
      exists x' rest',
        (List.range' (front.length + 1 + passed.length) rest.length).foldlM
          (fun items k => exchange above front.length k items)
            (front ++ x :: (passed ++ rest)) =
            some (front ++ x' :: rest') ∧
        (x' :: rest').Perm (x :: (passed ++ rest)) ∧ forall y, y ∈ rest' ->
          above y x' = some false := by
  induction rest with
  | nil =>
      intro x passed _ hpassed
      rw [List.append_nil]
      exact ⟨x, passed, rfl, List.Perm.refl _, hpassed⟩
  | cons y rest ih =>
      intro x passed hamong hpassed
      have hx : among x := hamong x List.mem_cons_self
      have hy : among y :=
        hamong y (List.mem_cons_of_mem x
        (List.mem_append_right passed List.mem_cons_self))
      have hmem : forall z, z ∈ passed -> among z := fun z hz =>
        hamong z (List.mem_cons_of_mem x (List.mem_append_left (y :: rest) hz))
      -- The next turns, whichever of the two is in front now.
      have hnext : forall first second,
          (first :: (passed ++ second :: rest)).Perm (x :: (passed ++ y :: rest)) ->
          (forall z, z ∈ passed -> above z first = some false) ->
            above second first = some false ->
          exists x' rest',
            (List.range' (front.length + 1 + passed.length + 1) rest.length).foldlM
              (fun items k => exchange above front.length k items)
                (front ++ first :: (passed ++ second :: rest)) =
                some (front ++ x' :: rest') ∧
            (x' :: rest').Perm (x :: (passed ++ y :: rest)) ∧ forall z,
              z ∈ rest' -> above z x' = some false := by
        intro first second hperm hfirst hsecond
        have hall : forall z, z ∈ first :: ((passed ++ [second]) ++ rest) ->
            among z := by
          rw [List.append_assoc]
          exact fun z hz => hamong z (hperm.mem_iff.mp hz)
        have hturns := ih first (passed ++ [second]) hall (by
          intro z hz
          rcases List.mem_append.mp hz with hz | hz
          · exact hfirst z hz
          · rw [List.mem_singleton.mp hz]
            exact hsecond)
        rw [List.append_assoc, List.length_append] at hturns
        rcases hturns with ⟨x', rest', hrun, hperm', hrest'⟩
        exact ⟨x', rest', hrun, hperm'.trans hperm, hrest'⟩
      rcases h.defined hy hx with ⟨found, hfound⟩
      rw [List.length_cons, List.range'_succ, List.foldlM_cons, exchange_at, hfound]
      cases found with
      | false =>
          exact hnext x y (List.Perm.refl _) hpassed hfound
      | true =>
          apply hnext y x
          · exact (List.perm_middle.cons y).trans
              ((List.Perm.swap x y _).trans (List.perm_middle.symm.cons x))
          · intro z hz
            rcases h.defined (hmem z hz) hy with ⟨found, hz'⟩
            cases found with
            | false => exact hz'
            | true =>
                have hzx := h.trans (hmem z hz) hy hx hz' hfound
                rw [hpassed z hz] at hzx
                cases hzx
          · exact h.asymm hy hx hfound

/-- A turn of the outer loop puts first what nothing behind it belongs in front
of. -/
theorem exchangeFrom_ok (front : List item) (x : item) (rest : List item)
    {len : Nat}
    (hlen : len = front.length + (rest.length + 1))
    (hamong : forall y, y ∈ x :: rest -> among y) :
    exists x' rest', exchangeFrom above len front.length (front ++ x :: rest) =
      some (front ++ x' :: rest') ∧
      (x' :: rest').Perm (x :: rest) ∧ forall y, y ∈ rest' ->
        above y x' = some false := by
  unfold exchangeFrom
  rw [hlen, Nat.add_sub_cancel_left, List.range'_succ, List.foldlM_cons,
    exchange_self h front (hamong x List.mem_cons_self)]
  exact exchanges_ok h front rest x [] hamong (fun y hy => (nomatch hy))

/-- The outer loop leaves what is in front of its index, and sorts the rest. -/
theorem exchangesFrom_ok (len n : Nat) : forall front rest : List item,
    rest.length = n -> len = front.length + n ->
    (forall y, y ∈ rest -> among y) ->
      exists rest', (List.range' front.length n).foldlM (fun items i =>
        exchangeFrom above len i items)
          (front ++ rest) = some (front ++ rest') ∧
        rest'.Perm rest ∧ rest'.Pairwise (fun x y => above y x = some false) := by
  induction n with
  | zero =>
      intro front rest hrest _ _
      rw [List.length_eq_zero_iff.mp hrest]
      exact ⟨[], rfl, List.Perm.refl _, List.Pairwise.nil⟩
  | succ n ih =>
      intro front rest hrest hlen hamong
      cases rest with
      | nil =>
          cases hrest
      | cons x rest =>
          rw [List.length_cons] at hrest
          rcases exchangeFrom_ok h front x rest (hrest ▸ hlen) hamong with
            ⟨x', tail, hrun, hperm, hfirst⟩
          have htail : tail.length = n := Nat.succ.inj (hperm.length_eq.trans hrest)
          have hlen' : len = (front ++ [x']).length + n := by
            rw [List.length_append, List.length_singleton]
            omega
          rcases ih (front ++ [x']) tail htail hlen'
            (fun y hy =>
              hamong y (hperm.mem_iff.mp (List.mem_cons_of_mem x' hy))) with
              ⟨tail', hrun', hperm', hsorted⟩
          rw [List.length_append, List.length_singleton, List.append_assoc,
            List.append_assoc, List.singleton_append,
            List.singleton_append] at hrun'
          rw [List.range'_succ, List.foldlM_cons, hrun]
          exact ⟨x' :: tail', hrun', (hperm'.cons x').trans hperm,
            List.pairwise_cons.mpr ⟨fun y hy => hfirst y (hperm'.mem_iff.mp hy),
              hsorted⟩⟩

/-- The loops permute the items, and none of them belongs in front of an earlier
one then. -/
theorem exchangeSort_ok (items : List item)
    (hamong : forall x, x ∈ items -> among x) :
    exists items', exchangeSort above items.length items = some items' ∧
      items'.Perm items ∧
      items'.Pairwise (fun x y => above y x = some false) := by
  have hrun := exchangesFrom_ok h items.length items.length [] items rfl
    (Nat.zero_add _).symm hamong
  unfold exchangeSort
  rw [List.range_eq_range']
  exact hrun

end Loops

end Foundation
end Lepd
