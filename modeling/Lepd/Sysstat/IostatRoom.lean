import Lepd.Sysstat.IostatItems

/-!
# Room in the device list

The list that a call allocates has an entry for every name that its arguments
can put into it.
-/

namespace Lepd
namespace Sysstat

open Foundation

variable {q : Parsing} {env : Environment}

/-!
# Room in the list
-/

def Item.needs : Item -> Nat
  | .partitions (some names) => names.length
  | .group _ => 1
  | .device _ => 1
  | _ => 0

def needs : List Item -> Nat
  | [] => 0
  | item :: items => item.needs + needs items

/-- There is room for a number of names, and for the name of a group that is not
stored yet. -/
def Room (n : Nat) (q : Parsing) : Prop :=
  q.statics.dlistIdx + (if 0 < q.statics.groupNr then 1 else 0) + n <=
    q.statics.devList.length

/-- The list is not exceeded, and there is room for a number of names after that. -/
def Within (n : Nat) : Except Stop Parsing -> Prop
  | .ok q => Room n q
  | .error stop => stop = .exit

theorem Room.mono {m n : Nat} (h : Room n q) (hle : m <= n) : Room m q :=
  le_trans (Nat.add_le_add_left hle _) h

theorem Within.bind {m n : Nat} {r : Except Stop Parsing}
    {f : Parsing -> Except Stop Parsing}
    (h : Within m r) (hf : forall q, Room m q -> Within n (f q)) :
    Within n (r >>= f) := by
  cases r with
  | error stop =>
      exact h
  | ok q =>
      exact hf q h

theorem room_addFlags {n : Nat} (h : Room n q) (flags : Finset Flag) :
    Room n (q.addFlags flags) :=
  h

theorem Room.update {n : Nat} (h : Room (n + 1) q) (name : Statics -> Text) :
    Within n (q.update (fun s => updateDevList (name s) s)) := by
  have hroom : q.statics.dlistIdx < q.statics.devList.length := by
    unfold Room at h
    omega
  rcases updateDevList_room (name q.statics) hroom with
    ⟨s, hs, hidx, hlength, hgroup⟩
  rw [Parsing.update, hs]
  show s.dlistIdx + (if 0 < s.groupNr then 1 else 0) + n <= s.devList.length
  unfold Room at h
  rw [hgroup, hlength]
  omega

theorem Room.storeNames {n : Nat} {names : List Text}
    (h : Room (names.length + n) q) :
    Within n (storeNames env names q) := by
  induction names generalizing q with
  | nil =>
      rw [List.length_nil, Nat.zero_add] at h
      exact h
  | cons name names ih =>
      rw [List.length_cons] at h
      rw [Sysstat.storeNames]
      split
      · exact ih (room_addFlags (h.mono (by omega)) _)
      · have hstored : Within (names.length + n) (storeName env name q) :=
          Room.update (h.mono (by omega)) _
        exact hstored.bind (fun q1 h1 => ih h1)

theorem Room.processLetters {n : Nat} {cs : List UInt8} (h : Room n q) :
    Within n (processLetters cs q) := by
  induction cs generalizing q with
  | nil =>
      exact h
  | cons c cs ih =>
      rw [Sysstat.processLetters]
      have hletter : Within n (processLetter c q) := by
        unfold processLetter
        split
        · rfl
        · split
          · rfl
          · exact h
      exact hletter.bind (fun q1 h1 => ih h1)

theorem Room.group {n : Nat} (h : Room (n + 1) q) (name : Option Text) :
    Within n (processItem env (.group name) q) := by
  have hentered : forall q1, saveGroup q = .ok q1 ->
      q1.statics.dlistIdx + 1 + n <= q1.statics.devList.length ->
      Within n (processItem env (.group name) q) := by
    intro q1 hq1 hroom
    rw [processItem, hq1]
    cases name with
    | none =>
        rfl
    | some name =>
        exact hroom
  unfold Room at h
  by_cases hgroup : 0 < q.statics.groupNr
  · rw [if_pos hgroup] at h
    have hless : q.statics.dlistIdx < q.statics.devList.length := by
      omega
    rcases updateDevList_room q.statics.groupName hless with
      ⟨s, hs, hidx, hlength, _⟩
    have hsaved : saveGroup q = .ok { q with statics := s } := by
      rw [saveGroup, if_pos hgroup, Parsing.update, hs]
      rfl
    apply hentered _ hsaved
    show s.dlistIdx + 1 + n <= s.devList.length
    omega
  · rw [if_neg hgroup] at h
    apply hentered q (if_neg hgroup)
    omega

theorem Room.processItem {n : Nat} {item : Item} (h : Room (item.needs + n) q) :
    Within n (processItem env item q) := by
  have hless : Room n q := h.mono (Nat.le_add_left n _)
  cases item with
  | partitions names =>
      cases names with
      | none =>
          exact hless
      | some names =>
          exact Room.storeNames (room_addFlags h _)
  | group name =>
      exact Room.group (h.mono (Nat.le_of_eq (Nat.add_comm n 1))) name
  | persistent type =>
      cases type with
      | none =>
          rfl
      | some type =>
          rw [Sysstat.processItem]
          split
          · rfl
          · split
            · exact hless
            · rfl
  | output format =>
      rw [Sysstat.processItem]
      split
      · exact hless
      · rfl
  | letters cs =>
      exact Room.processLetters hless
  | device name =>
      rw [Sysstat.processItem]
      split
      · exact hless
      · have hroom : Room (n + 1) (q.addFlags {.unfiltered}) :=
          h.mono (Nat.le_of_eq (Nat.add_comm n 1))
        exact Room.update hroom (fun s => listName env s name)
  | number text =>
      rw [Sysstat.processItem]
      split
      · split
        · rfl
        · exact hless
      · split
        · split
          · rfl
          · exact hless
        · rfl

theorem Room.processItems {items : List Item} (h : Room (needs items) q) :
    Within 0 (processItems env items q) := by
  induction items generalizing q with
  | nil =>
      exact h
  | cons item items ih =>
      have hitem : Within (needs items) (Sysstat.processItem env item q) :=
        Room.processItem h
      exact hitem.bind (fun q1 h1 => ih h1)

theorem length_words_le (word text : Text) :
    (Strtok.wordsFrom commaByte word text).length <= 1 + text.count commaByte := by
  induction text generalizing word with
  | nil =>
      rw [Strtok.wordsFrom]
      split
      · exact Nat.zero_le _
      · exact le_refl _
  | cons c text ih =>
      rw [Strtok.wordsFrom]
      by_cases hc : c = commaByte
      · rw [if_pos hc, hc, List.count_cons_self]
        split
        · exact le_trans (ih []) (by omega)
        · rw [List.length_cons]
          have hrest := ih []
          omega
      · rw [if_neg hc, List.count_cons_of_ne hc]
        exact ih _

theorem length_names_le (arg : Text) :
    (Strtok.words commaByte arg).length <=
      1 + (if commaByte ∈ arg then 1 + (arg.drop 1).count commaByte else 0) := by
  cases arg with
  | nil =>
      exact Nat.zero_le _
  | cons c rest =>
      rw [List.drop_one, List.tail_cons]
      by_cases hc : c = commaByte
      · have hwords : Strtok.words commaByte (c :: rest) =
            Strtok.wordsFrom commaByte [] rest := by
          rw [Strtok.words, Strtok.wordsFrom, if_pos hc, if_pos rfl]
        have hcount := length_words_le [] rest
        rw [hwords, if_pos (hc ▸ List.mem_cons_self)]
        omega
      · have hwords : Strtok.words commaByte (c :: rest) =
            Strtok.wordsFrom commaByte ([] ++ [c]) rest := by
          rw [Strtok.words, Strtok.wordsFrom, if_neg hc]
        have hcount := length_words_le ([] ++ [c]) rest
        rw [hwords]
        split
        · omega
        · next hnot =>
            have hzero : rest.count commaByte = 0 :=
              List.count_eq_zero.mpr (fun hmem =>
                hnot (List.mem_cons_of_mem c hmem))
            omega

theorem countCsvalues_cons (arg : Text) (args : List Text) :
    countCsvalues (arg :: args) =
      (if commaByte ∈ arg then 1 + (arg.drop 1).count commaByte else 0) +
        countCsvalues args := by
  rw [countCsvalues, List.map_cons, List.sum_cons, countCsvalues]

theorem needs_le (args : List Text) : needs (readItems args) <= args.length +
    countCsvalues args := by
  fun_induction readItems args with
  | case1 =>
      exact Nat.zero_le _
  | case2 | case5 | case7 | case9 =>
      decide
  | case3 names others hnames ih =>
      have hwords := length_names_le names
      simp only [needs, Item.needs, countCsvalues_cons, List.length_cons] at ih ⊢
      omega
  | case4 | case6 | case8 | case10 | case11 | case12 | case13 =>
      simp only [needs, Item.needs, countCsvalues_cons, List.length_cons] at *
      omega

end Sysstat
end Lepd
