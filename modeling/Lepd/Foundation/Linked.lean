import Mathlib.Data.List.Basic
import Mathlib.Data.List.Nodup
import Mathlib.Logic.Function.Basic

/-!
# Doubly linked lists

Each item has the address of the next item and that of the previous one. A
segment of a list is linked inside, and what its ends are linked to is up to
what is around it.
-/

namespace Lepd
namespace Foundation

variable {address : Type}

/-- The next item and the previous one, of each item there is. -/
abbrev Links (address : Type) : Type :=
  address -> Option (Option address × Option address)

/-- The items are linked; `prev` is before the first one, and `last` behind the
last one. -/
def Segment (links : Links address) : Option address -> List address ->
    Option address -> Prop
  | _, [], _ => True
  | prev, c :: cs, last =>
      links c = some (cs.head?.or last, prev) ∧ Segment links (some c) cs last

namespace Segment

variable {links links' : Links address} {prev last : Option address}
  {front back l : List address}

theorem head (h : Segment links prev (front ++ back) last) :
    Segment links prev front (back.head?.or last) := by
  induction front generalizing prev with
  | nil => trivial
  | cons c front ih =>
      refine ⟨?_, ih h.right⟩
      rw [h.left]
      cases front with
      | nil => cases back <;> rfl
      | cons d front => rfl

theorem tail (h : Segment links prev (front ++ back) last) :
    Segment links (front.getLast?.or prev) back last := by
  induction front generalizing prev with
  | nil => exact h
  | cons c front ih =>
      have hrest := ih h.right
      cases front with
      | nil => exact hrest
      | cons d front =>
          rw [List.getLast?_cons_cons]
          cases hlast : (d :: front).getLast? with
          | none => cases List.getLast?_eq_none_iff.mp hlast
          | some e =>
              rw [hlast] at hrest
              exact hrest

theorem append (h : Segment links prev front (back.head?.or last))
    (h' : Segment links (front.getLast?.or prev) back last) :
    Segment links prev (front ++ back) last := by
  induction front generalizing prev with
  | nil => exact h'
  | cons c front ih =>
      refine ⟨?_, ih h.right ?_⟩
      · rw [h.left]
        cases front with
        | nil => cases back <;> rfl
        | cons d front => rfl
      · cases front with
        | nil => exact h'
        | cons d front =>
            rw [List.getLast?_cons_cons] at h'
            cases hlast : (d :: front).getLast? with
            | none => cases List.getLast?_eq_none_iff.mp hlast
            | some e =>
                rw [hlast] at h'
                exact h'

theorem congr (h : Segment links prev l last)
    (hsame : forall c, c ∈ l -> links' c = links c) :
    Segment links' prev l last := by
  induction l generalizing prev with
  | nil => trivial
  | cons c l ih =>
      refine ⟨?_, ih h.right (fun d hd => hsame d (List.mem_cons_of_mem c hd))⟩
      rw [hsame c List.mem_cons_self, h.left]

theorem mem (h : Segment links prev l last) {c : address} (hc : c ∈ l) :
    exists pair, links c = some pair := by
  induction l generalizing prev with
  | nil => cases hc
  | cons d l ih =>
      rcases List.mem_cons.mp hc with rfl | hc
      · exact ⟨_, h.left⟩
      · exact ih h.right hc

theorem middle {c : address} (h : Segment links prev (front ++ c :: back) last) :
    links c = some (back.head?.or last, front.getLast?.or prev) :=
  h.tail.left

end Segment

/-!
# New ends
-/

section Ends

variable [DecidableEq address]

def Links.setNext (links : Links address) (p : address) (v : Option address) :
    Links address :=
  Function.update links p ((links p).map (fun pair => (v, pair.2)))

def Links.setPrev (links : Links address) (p : address) (v : Option address) :
    Links address :=
  Function.update links p ((links p).map (fun pair => (pair.1, v)))

variable {links : Links address} {prev last : Option address} {front back l :
  List address} {p q : address}

@[simp] theorem Links.setNext_ne (h : q ≠ p) (v : Option address) :
    links.setNext p v q = links q :=
  Function.update_of_ne h _ _

@[simp] theorem Links.setPrev_ne (h : q ≠ p) (v : Option address) :
    links.setPrev p v q = links q :=
  Function.update_of_ne h _ _

theorem Links.setNext_self (v : Option address) :
    links.setNext p v p = (links p).map (fun pair => (v, pair.2)) :=
  Function.update_self _ _ _

theorem Links.setPrev_self (v : Option address) :
    links.setPrev p v p = (links p).map (fun pair => (pair.1, v)) :=
  Function.update_self _ _ _

theorem Segment.setNext (h : Segment links prev (front ++ [p]) last)
    (hp : p ∉ front) (v : Option address) :
    Segment (links.setNext p v) prev (front ++ [p]) v := by
  apply Segment.append
  · apply h.head.congr
    intro c hc
    exact Links.setNext_ne (show c ≠ p from fun heq => hp (heq ▸ hc)) v
  · refine ⟨?_, trivial⟩
    rw [Links.setNext_self, h.middle]
    rfl

theorem Segment.setPrev (h : Segment links prev (p :: back) last)
    (hp : p ∉ back) (v : Option address) :
    Segment (links.setPrev p v) v (p :: back) last := by
  refine ⟨?_, ?_⟩
  · rw [Links.setPrev_self, h.left]
    rfl
  · apply h.right.congr
    intro c hc
    exact Links.setPrev_ne (show c ≠ p from fun heq => hp (heq ▸ hc)) v

def Links.endNext (links : Links address) (p : Option address)
    (v : Option address) : Links address :=
  match p with
  | none => links
  | some p => links.setNext p v

def Links.endPrev (links : Links address) (p : Option address)
    (v : Option address) : Links address :=
  match p with
  | none => links
  | some p => links.setPrev p v

theorem Segment.endNext (h : Segment links prev l last) (hnodup : l.Nodup)
    (v : Option address) :
    Segment (links.endNext l.getLast? v) prev l v := by
  rcases List.eq_nil_or_concat' l with rfl | ⟨front, p, rfl⟩
  · trivial
  · rw [List.getLast?_concat]
    have hp : p ∉ front := fun hp =>
      (List.nodup_append.mp hnodup).right.right p hp p List.mem_cons_self rfl
    exact h.setNext hp v

theorem Segment.endPrev (h : Segment links prev l last) (hnodup : l.Nodup)
    (v : Option address) :
    Segment (links.endPrev l.head? v) v l last := by
  cases l with
  | nil => trivial
  | cons p back => exact h.setPrev (List.nodup_cons.mp hnodup).left v

theorem Links.endNext_ne (hq : q ∉ l) (v : Option address) :
    links.endNext l.getLast? v q = links q := by
  cases hp : l.getLast? with
  | none => rfl
  | some p =>
      exact Links.setNext_ne (show q ≠ p from fun heq =>
      hq (heq ▸ List.mem_of_getLast? hp)) v

theorem Links.endPrev_ne (hq : q ∉ l) (v : Option address) :
    links.endPrev l.head? v q = links q := by
  cases hp : l.head? with
  | none => rfl
  | some p =>
      exact Links.setPrev_ne (show q ≠ p from fun heq =>
      hq (heq ▸ List.mem_of_head? hp)) v

end Ends
end Foundation
end Lepd
