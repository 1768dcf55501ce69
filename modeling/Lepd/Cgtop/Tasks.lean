import Lepd.Cgtop.Streams

/-!
# Counting the tasks of a group

The loop goes on as long as a number could be read, or could not be read but the
end of the file was not seen. So it ends only where every byte in front of the
end of the file is taken.
-/

namespace Lepd
namespace Cgtop

open Ps (Text bytes byte isspace isdigit)

/-- `cg_read_pid`: its answer, the number stored through `_pid`, if there is
one, and the stream. -/
def cgReadPid (f : Stream) : Int × Option UInt32 × Stream :=
  match fscanfLu f with
  | (some ul, f) => (0, some (UInt32.ofNat ul), f)
  | (none, f) => if f.eof then (-1, none, f) else (0, none, f)

/-- `fuel` turns of the loop that counts, which has an answer if it ends within
them. -/
def countTasks : Nat -> Stream -> UInt32 -> Option (UInt32 × Stream)
  | 0, _, _ => none
  | fuel + 1, f, n =>
      match cgReadPid f with
      | (r, _, f) => if r = 0 then countTasks fuel f (n + 1) else some (n, f)

def Ends (f : Stream) (n : UInt32) : Prop :=
  exists fuel, (countTasks fuel f n).isSome = true

/-!
# One turn
-/

/-- The bytes that `%lu` takes. -/
def isTaken (c : UInt8) : Bool :=
  isspace c || isdigit c || c == byte '-' || c == byte '+'

/-- What one turn of the loop does. -/
inductive Turn (f : Stream) : Prop where
  /-- The end of the file is seen, and no number in front of it. -/
  | last (f' : Stream) : (forall c, c ∈ f.rest -> isTaken c = true) ->
      f.ending = .eof ->
      cgReadPid f = (-1, none, f') -> Turn f
  /-- Some bytes are taken. -/
  | step (taken : Text) (pid : Option UInt32) (f' : Stream) :
      cgReadPid f = (0, pid, f') -> taken ≠ [] ->
      (forall c, c ∈ taken -> isTaken c = true) -> f.rest = taken ++ f'.rest ->
        f'.ending = f.ending ->
      f'.Coherent -> Turn f
  /-- No byte will be taken any more. -/
  | stuck (f' : Stream) : cgReadPid f = (0, none, f') ->
      cgReadPid f' = (0, none, f') ->
      (f.ending = .error ∨ exists c, c ∈ f.rest ∧ isTaken c = false) -> Turn f

theorem isTaken_of_isspace {c : UInt8} (h : isspace c = true) :
    isTaken c = true := by
  simp [isTaken, h]

theorem isTaken_of_isdigit {c : UInt8} (h : isdigit c = true) :
    isTaken c = true := by
  simp [isTaken, h]

theorem isTaken_of_sign {c : UInt8} (h : c = byte '-' ∨ c = byte '+') :
    isTaken c = true := by
  rcases h with rfl | rfl
  · rfl
  · rfl

def numberFrom (c : UInt8) (cs : Text) : Text :=
  if c = byte '-' ∨ c = byte '+' then cs else c :: cs

theorem fscanfLu_none {f : Stream} {c : UInt8} {cs : Text}
    (hdrop : f.rest.dropWhile isspace = c :: cs)
    (h : (numberFrom c cs).takeWhile isdigit = []) :
    fscanfLu f = (none, f.upTo ((numberFrom c cs).dropWhile isdigit)) := by
  unfold fscanfLu
  rw [hdrop]
  exact if_pos h

theorem fscanfLu_some {f : Stream} {c : UInt8} {cs : Text}
    (hdrop : f.rest.dropWhile isspace = c :: cs)
    (h : (numberFrom c cs).takeWhile isdigit ≠ []) :
    exists ul, fscanfLu f =
      (some ul, f.upTo ((numberFrom c cs).dropWhile isdigit)) := by
  unfold fscanfLu
  rw [hdrop]
  exact ⟨_, if_neg h⟩

theorem cgReadPid_none {f f' : Stream} (h : fscanfLu f = (none, f'))
    (heof : f'.eof = false) :
    cgReadPid f = (0, none, f') := by
  unfold cgReadPid
  rw [h]
  exact if_neg (by rw [heof]; decide)

theorem cgReadPid_eof {f f' : Stream} (h : fscanfLu f = (none, f'))
    (heof : f'.eof = true) :
    cgReadPid f = (-1, none, f') := by
  unfold cgReadPid
  rw [h]
  exact if_pos heof

theorem atEnd_eof_false {f : Stream} (h : f.ending = .error) :
    f.atEnd.eof = false := by
  show decide (f.ending = .eof) = false
  rw [h]
  rfl

theorem turn_blank {f : Stream} (hdrop : f.rest.dropWhile isspace = []) :
    Turn f := by
  have hscan : forall g : Stream, g.rest.dropWhile isspace = [] ->
      fscanfLu g = (none, g.atEnd) := by
    intro g hg
    unfold fscanfLu
    rw [hg]
  cases hending : f.ending with
  | eof =>
      apply Turn.last f.atEnd _ hending
        (cgReadPid_eof (hscan f hdrop) (f.atEnd_eof.mpr hending))
      intro c hc
      rw [List.dropWhile_eq_nil_iff] at hdrop
      exact isTaken_of_isspace (hdrop c hc)
  | error =>
      have hagain : fscanfLu f.atEnd = (none, f.atEnd) := hscan f.atEnd rfl
      exact .stuck f.atEnd (cgReadPid_none (hscan f hdrop)
        (atEnd_eof_false hending))
        (cgReadPid_none hagain (atEnd_eof_false hending)) (Or.inl hending)

theorem rest_ne_nil {f : Stream} {c : UInt8} {cs : Text}
    (hdrop : f.rest.dropWhile isspace = c :: cs) :
    f.rest ≠ [] := by
  intro hnil
  rw [hnil] at hdrop
  cases hdrop

theorem numberFrom_split (c : UInt8) (cs : Text) :
    exists sign, (forall d, d ∈ sign -> isTaken d = true) ∧ c :: cs = sign ++
      numberFrom c cs := by
  by_cases hsign : c = byte '-' ∨ c = byte '+'
  · refine ⟨[c], ?_, ?_⟩
    · intro d hd
      rw [List.mem_singleton.mp hd]
      exact isTaken_of_sign hsign
    · rw [numberFrom, if_pos hsign]
      rfl
  · refine ⟨[], ?_, ?_⟩
    · intro d hd
      cases hd
    · rw [numberFrom, if_neg hsign]
      rfl

theorem turn_digits {f : Stream} (hf : f.Coherent) {c : UInt8} {cs : Text}
    (hdrop : f.rest.dropWhile isspace = c :: cs)
    (h : (numberFrom c cs).takeWhile isdigit ≠ []) : Turn f := by
  rcases fscanfLu_some hdrop h with ⟨ul, hscan⟩
  have hread : cgReadPid f =
      (0, some (UInt32.ofNat ul), f.upTo
        ((numberFrom c cs).dropWhile isdigit)) := by
    unfold cgReadPid
    rw [hscan]
  rcases numberFrom_split c cs with ⟨sign, hsign, hsplit⟩
  have hrest : f.rest = f.rest.takeWhile isspace ++
      (sign ++ (numberFrom c cs).takeWhile isdigit) ++
      (numberFrom c cs).dropWhile isdigit := by
    rw [List.append_assoc, List.append_assoc, List.takeWhile_append_dropWhile,
      ← hsplit, ← hdrop,
      List.takeWhile_append_dropWhile]
  apply Turn.step (f.rest.takeWhile isspace ++
    (sign ++ (numberFrom c cs).takeWhile isdigit)) _ _ hread
  · intro hnil
    exact h (List.append_eq_nil_iff.mp (List.append_eq_nil_iff.mp hnil).right).right
  · intro d hd
    rcases List.mem_append.mp hd with hd | hd
    · exact isTaken_of_isspace (List.mem_takeWhile_imp hd)
    · rcases List.mem_append.mp hd with hd | hd
      · exact hsign d hd
      · exact isTaken_of_isdigit (List.mem_takeWhile_imp hd)
  · rw [Stream.upTo_rest]
    exact hrest
  · exact f.upTo_ending _
  · exact hf.upTo (rest_ne_nil hdrop) _

theorem turn_sign {f : Stream} (hf : f.Coherent) {c : UInt8} {cs : Text}
    (hdrop : f.rest.dropWhile isspace = c :: cs)
    (hsign : c = byte '-' ∨ c = byte '+')
    (h : cs.takeWhile isdigit = []) : Turn f := by
  have hnumber : numberFrom c cs = cs := if_pos hsign
  have hcs : cs.dropWhile isdigit = cs := by
    have hsplit := List.takeWhile_append_dropWhile (p := isdigit) (l := cs)
    rw [h, List.nil_append] at hsplit
    exact hsplit
  have hscan := fscanfLu_none hdrop (by rw [hnumber]; exact h)
  rw [hnumber, hcs] at hscan
  have hrest : f.rest = f.rest.takeWhile isspace ++ [c] ++ cs := by
    rw [List.append_assoc, List.singleton_append, ← hdrop,
      List.takeWhile_append_dropWhile]
  have htaken : forall d, d ∈ f.rest.takeWhile isspace ++ [c] ->
      isTaken d = true := by
    intro d hd
    rcases List.mem_append.mp hd with hd | hd
    · exact isTaken_of_isspace (List.mem_takeWhile_imp hd)
    · rw [List.mem_singleton.mp hd]
      exact isTaken_of_sign hsign
  have hstep : (f.upTo cs).eof = false -> Turn f := by
    intro heof
    apply Turn.step (f.rest.takeWhile isspace ++ [c]) _ _
      (cgReadPid_none hscan heof)
    · exact List.append_ne_nil_of_right_ne_nil _ (List.cons_ne_nil c [])
    · exact htaken
    · rw [Stream.upTo_rest]
      exact hrest
    · exact f.upTo_ending _
    · exact hf.upTo (rest_ne_nil hdrop) _
  cases heof : (f.upTo cs).eof with
  | false =>
      exact hstep heof
  | true =>
      rcases hf.upTo (rest_ne_nil hdrop) cs heof with ⟨hnil, hending⟩
      rw [Stream.upTo_rest] at hnil
      rw [Stream.upTo_ending] at hending
      apply Turn.last _ _ hending (cgReadPid_eof hscan heof)
      rw [hrest, hnil, List.append_nil]
      exact htaken

theorem turn_stuck {f : Stream} (hf : f.Coherent) {c : UInt8} {cs : Text}
    (hdrop : f.rest.dropWhile isspace = c :: cs)
    (hsign : ¬ (c = byte '-' ∨ c = byte '+'))
    (h : isdigit c = false) : Turn f := by
  have hnumber : numberFrom c cs = c :: cs := if_neg hsign
  have hneg : ¬ isdigit c = true := by
    rw [h]
    decide
  have hscan : forall g : Stream, g.rest.dropWhile isspace = c :: cs ->
      fscanfLu g = (none, { g with rest := c :: cs }) := by
    intro g hg
    have hnone :=
      fscanfLu_none hg (by rw [hnumber, List.takeWhile_cons_of_neg hneg])
    rw [hnumber, List.dropWhile_cons_of_neg hneg,
      g.upTo_of_ne (List.cons_ne_nil c cs)] at hnone
    exact hnone
  have hspace : isspace c = false := by
    have hne : f.rest.dropWhile isspace ≠ [] := by
      rw [hdrop]
      exact List.cons_ne_nil c cs
    have hhead := List.head_dropWhile_not isspace hne
    simp only [hdrop, List.head_cons] at hhead
    exact hhead
  have hagain : (c :: cs).dropWhile isspace = c :: cs :=
    List.dropWhile_cons_of_neg (by rw [hspace]; decide)
  have heof := hf.eof_eq_false (rest_ne_nil hdrop)
  apply Turn.stuck { f with rest := c :: cs } (cgReadPid_none (hscan f hdrop) heof)
    (cgReadPid_none (hscan { f with rest := c :: cs } hagain) heof)
  refine Or.inr ⟨c, ?_, ?_⟩
  · have hmem : c ∈ f.rest.dropWhile isspace := by
      rw [hdrop]
      exact List.mem_cons_self
    exact (List.dropWhile_sublist isspace).subset hmem
  · rw [not_or] at hsign
    simp [isTaken, h, hspace, hsign]

theorem turn (f : Stream) (hf : f.Coherent) : Turn f := by
  cases hdrop : f.rest.dropWhile isspace with
  | nil =>
      exact turn_blank hdrop
  | cons c cs =>
      by_cases hdigits : (numberFrom c cs).takeWhile isdigit = []
      · by_cases hsign : c = byte '-' ∨ c = byte '+'
        · rw [numberFrom, if_pos hsign] at hdigits
          exact turn_sign hf hdrop hsign hdigits
        · rw [numberFrom, if_neg hsign] at hdigits
          cases hdigit : isdigit c with
          | false =>
              exact turn_stuck hf hdrop hsign hdigit
          | true =>
              rw [List.takeWhile_cons_of_pos hdigit] at hdigits
              cases hdigits
      · exact turn_digits hf hdrop hdigits

/-!
# The loop
-/

theorem countTasks_last {f f' : Stream} {pid : Option UInt32}
    (h : cgReadPid f = (-1, pid, f')) (fuel : Nat)
    (n : UInt32) : countTasks (fuel + 1) f n = some (n, f') := by
  rw [countTasks, h]
  rfl

theorem countTasks_step {f f' : Stream} {pid : Option UInt32}
    (h : cgReadPid f = (0, pid, f')) (fuel : Nat)
    (n : UInt32) : countTasks (fuel + 1) f n = countTasks fuel f' (n + 1) := by
  rw [countTasks, h]
  rfl

theorem countTasks_stuck {f : Stream} {pid : Option UInt32}
    (h : cgReadPid f = (0, pid, f)) (fuel : Nat) :
    forall n, countTasks fuel f n = none := by
  induction fuel with
  | zero =>
      intro n
      rfl
  | succ fuel ih =>
      intro n
      rw [countTasks_step h]
      exact ih (n + 1)

theorem not_ends_stuck {f f' : Stream} {pid pid' : Option UInt32}
    (h : cgReadPid f = (0, pid, f'))
    (h' : cgReadPid f' = (0, pid', f')) (n : UInt32) : ¬ Ends f n := by
  rintro ⟨fuel, hfuel⟩
  cases fuel with
  | zero =>
      cases hfuel
  | succ fuel =>
      rw [countTasks_step h, countTasks_stuck h'] at hfuel
      cases hfuel

theorem ends_step {f f' : Stream} {pid : Option UInt32}
    (h : cgReadPid f = (0, pid, f')) (n : UInt32) :
    Ends f n <-> Ends f' (n + 1) := by
  constructor
  · rintro ⟨fuel, hfuel⟩
    cases fuel with
    | zero =>
        cases hfuel
    | succ fuel =>
        rw [countTasks_step h] at hfuel
        exact ⟨fuel, hfuel⟩
  · rintro ⟨fuel, hfuel⟩
    refine ⟨fuel + 1, ?_⟩
    rw [countTasks_step h]
    exact hfuel

/-- The loop ends if and only if the file ends and each of its bytes is taken. -/
theorem ends_iff (f : Stream) (hf : f.Coherent) (n : UInt32) :
    Ends f n <-> f.ending = .eof ∧ forall c, c ∈ f.rest -> isTaken c = true := by
  induction hlength : f.rest.length using Nat.strongRecOn generalizing f n with
  | ind length ih =>
      cases turn f hf with
      | last f' htaken hending hread =>
          constructor
          · intro _
            exact ⟨hending, htaken⟩
          · intro _
            refine ⟨1, ?_⟩
            rw [countTasks_last hread]
            rfl
      | step taken pid f' hread hne htaken hrest hending hf' =>
          have hless : f'.rest.length < length := by
            have hpositive := List.length_pos_of_ne_nil hne
            rw [← hlength, hrest, List.length_append]
            omega
          rw [ends_step hread, ih _ hless f' hf' (n + 1) rfl, hending, hrest]
          constructor
          · rintro ⟨heof, hall⟩
            refine ⟨heof, ?_⟩
            intro c hc
            rcases List.mem_append.mp hc with hc | hc
            · exact htaken c hc
            · exact hall c hc
          · rintro ⟨heof, hall⟩
            exact ⟨heof, fun c hc => hall c (List.mem_append_right taken hc)⟩
      | stuck f' hread hagain hwhy =>
          constructor
          · intro hends
            exact absurd hends (not_ends_stuck hread hagain n)
          · rintro ⟨heof, hall⟩
            rcases hwhy with herror | ⟨c, hc, hnot⟩
            · rw [herror] at heof
              cases heof
            · rw [hall c hc] at hnot
              cases hnot

theorem countTasks_mono {fuel fuel' : Nat} (hfuel : fuel <= fuel') :
    forall {f : Stream} {n : UInt32} {r : UInt32 × Stream},
      countTasks fuel f n = some r ->
      countTasks fuel' f n = some r := by
  induction fuel generalizing fuel' with
  | zero =>
      intro f n r h
      cases h
  | succ fuel ih =>
      intro f n r h
      cases fuel' with
      | zero =>
          cases hfuel
      | succ fuel' =>
          rw [countTasks] at h ⊢
          split at h
          next r' pid f' hread =>
            show (if r' = 0 then countTasks fuel' f' (n + 1)
              else some (n, f')) = some r
            by_cases hr : r' = 0
            · rw [if_pos hr] at h ⊢
              exact ih (Nat.le_of_succ_le_succ hfuel) h
            · rw [if_neg hr] at h ⊢
              exact h

/-- A loop that ends takes no more turns than there are bytes, and the last one. -/
theorem countTasks_of_ends (f : Stream) (hf : f.Coherent) (n : UInt32)
    (h : Ends f n) :
    (countTasks (f.rest.length + 1) f n).isSome = true := by
  induction hlength : f.rest.length using Nat.strongRecOn generalizing f n with
  | ind length ih =>
      cases turn f hf with
      | last f' _ _ hread =>
          rw [countTasks_last hread]
          rfl
      | step taken pid f' hread hne _ hrest _ hf' =>
          have hless : f'.rest.length < length := by
            have hpositive := List.length_pos_of_ne_nil hne
            rw [← hlength, hrest, List.length_append]
            omega
          rcases Option.isSome_iff_exists.mp
            (ih _ hless f' hf' (n + 1) ((ends_step hread n).mp h) rfl) with ⟨r, hr⟩
          rw [countTasks_step hread, countTasks_mono hless hr]
          rfl
      | stuck f' hread hagain _ =>
          exact absurd h (not_ends_stuck hread hagain n)

/-!
# Lists of numbers
-/

/-- A text of `m` numbers with blanks between them. -/
inductive Numbers : Nat -> Text -> Prop where
  | nil {w : Text} : (forall c, c ∈ w -> isspace c = true) -> Numbers 0 w
  | cons {m : Nat} {w digits rest : Text} : (forall c, c ∈ w -> isspace c = true) ->
      digits ≠ [] -> (forall c, c ∈ digits -> isdigit c = true) ->
      (forall c, rest.head? = some c -> isspace c = true) -> Numbers m rest ->
      Numbers (m + 1) (w ++ (digits ++ rest))

theorem isspace_of_isdigit {c : UInt8} (h : isdigit c = true) :
    isspace c = false := by
  have hrange : 48 <= c ∧ c <= 57 := by simpa [isdigit] using h
  have hlow := UInt8.le_iff_toNat_le.mp hrange.left
  have hne : c ≠ 32 := by
    intro heq
    rw [heq] at hlow
    simp at hlow
  have hhigh : ¬ c <= 13 := by
    intro hle
    have hle' := UInt8.le_iff_toNat_le.mp hle
    simp at hlow hle'
    omega
  simp [isspace, hne, hhigh]

theorem not_isdigit_of_isspace {c : UInt8} (h : isspace c = true) :
    ¬ isdigit c = true := by
  intro hdigit
  rw [isspace_of_isdigit hdigit] at h
  cases h

theorem not_sign_of_isdigit {c : UInt8} (h : isdigit c = true) :
    ¬ (c = byte '-' ∨ c = byte '+') := by
  rintro (rfl | rfl)
  · cases h
  · cases h

theorem cgReadPid_digits {f : Stream} {w digits rest : Text}
    (hw : forall c, c ∈ w -> isspace c = true)
    (hne : digits ≠ []) (hdigits : forall c, c ∈ digits -> isdigit c = true)
    (hrest : forall c, rest.head? = some c -> isspace c = true)
    (hf : f.rest = w ++ (digits ++ rest)) :
    exists ul, cgReadPid f = (0, some ul, f.upTo rest) := by
  cases digits with
  | nil =>
      exact absurd rfl hne
  | cons d ds =>
      have hd : isdigit d = true := hdigits d List.mem_cons_self
      have hspace : ¬ isspace d = true := by
        rw [isspace_of_isdigit hd]
        decide
      have hdrop : f.rest.dropWhile isspace = d :: (ds ++ rest) := by
        rw [hf, List.dropWhile_append_of_pos hw]
        exact List.dropWhile_cons_of_neg hspace
      have hnumber : numberFrom d (ds ++ rest) = d :: ds ++ rest :=
        if_neg (not_sign_of_isdigit hd)
      have htail : rest.takeWhile isdigit = [] ∧ rest.dropWhile isdigit = rest := by
        cases rest with
        | nil =>
            exact ⟨rfl, rfl⟩
        | cons c rest =>
            have hc := not_isdigit_of_isspace (hrest c rfl)
            exact ⟨List.takeWhile_cons_of_neg hc, List.dropWhile_cons_of_neg hc⟩
      have htake : (numberFrom d (ds ++ rest)).takeWhile isdigit ≠ [] := by
        rw [hnumber, List.takeWhile_append_of_pos hdigits]
        exact List.cons_ne_nil d _
      rcases fscanfLu_some hdrop htake with ⟨ul, hscan⟩
      rw [hnumber, List.dropWhile_append_of_pos hdigits, htail.right] at hscan
      refine ⟨UInt32.ofNat ul, ?_⟩
      unfold cgReadPid
      rw [hscan]

theorem countTasks_numbers {m : Nat} {content : Text} (h : Numbers m content) :
    forall (f : Stream) (n : UInt32), f.Coherent -> f.rest = content ->
      f.ending = .eof ->
      exists fuel f', countTasks fuel f n = some (n + UInt32.ofNat m, f') := by
  induction h with
  | @nil w hw =>
      intro f n hf hrest hending
      have hdrop : f.rest.dropWhile isspace = [] := by
        rw [hrest, List.dropWhile_eq_nil_iff]
        exact hw
      have hscan : fscanfLu f = (none, f.atEnd) := by
        unfold fscanfLu
        rw [hdrop]
      refine ⟨1, f.atEnd, ?_⟩
      rw [countTasks_last (cgReadPid_eof hscan (f.atEnd_eof.mpr hending))]
      simp
  | @cons m w digits rest hw hne hdigits hhead _ ih =>
      intro f n hf hrest hending
      rcases cgReadPid_digits hw hne hdigits hhead hrest with ⟨ul, hread⟩
      have hfrest : f.rest ≠ [] := by
        rw [hrest]
        exact List.append_ne_nil_of_right_ne_nil _
          (List.append_ne_nil_of_left_ne_nil hne _)
      rcases ih (f.upTo rest) (n + 1) (hf.upTo hfrest rest) (f.upTo_rest rest)
        ((f.upTo_ending rest).trans hending) with
        ⟨fuel, f', hcount⟩
      refine ⟨fuel + 1, f', ?_⟩
      rw [countTasks_step hread, hcount, UInt32.ofNat_add, UInt32.add_assoc,
        UInt32.add_comm 1]
      rfl

/-!
# The loop of process
-/

/--
The loop ends, and where the file is a list of numbers it ends with their number
in the 32 bits of `n`.
-/
def Counted (content : Text) (ending : Ending) : Prop :=
  Ends (.opened content ending) 0 ∧
    forall m, Numbers m content -> exists fuel f' n,
      countTasks fuel (.opened content ending) 0 = some (n, f') ∧ n.toNat = m

/--
The loop counts as it should if and only if reading ends in the end of the file,
each byte in front of it belongs to a number or separates numbers, and `n` has
room for the number of a list.
-/
theorem counted_iff (content : Text) (ending : Ending) :
    Counted content ending <->
      ending = .eof ∧ (forall c, c ∈ content -> isTaken c = true) ∧ forall m,
        Numbers m content -> m < 2 ^ 32 := by
  have hends := ends_iff (.opened content ending)
    (Stream.coherent_opened content ending) 0
  constructor
  · rintro ⟨hloop, hnumbers⟩
    rcases hends.mp hloop with ⟨hending, htaken⟩
    refine ⟨hending, htaken, ?_⟩
    intro m hm
    rcases hnumbers m hm with ⟨_, _, n, _, rfl⟩
    exact n.toNat_lt
  · rintro ⟨hending, htaken, hroom⟩
    refine ⟨hends.mpr ⟨hending, htaken⟩, ?_⟩
    intro m hm
    rcases countTasks_numbers hm (.opened content ending) 0
      (Stream.coherent_opened content ending) rfl hending with
      ⟨fuel, f', hcount⟩
    refine ⟨fuel, f', _, hcount, ?_⟩
    rw [UInt32.zero_add]
    exact UInt32.toNat_ofNat_of_lt' (hroom m hm)

/-- On a byte that belongs to no number the loop does not end, nor after a read
that fails. -/
theorem not_counted_letter : ¬ Counted (bytes "x") .eof ∧ ¬ Counted [] .error := by
  have hstuck : forall f : Stream, cgReadPid f = (0, none, f) -> ¬ Ends f 0 :=
    fun f h => not_ends_stuck h h 0
  constructor
  · intro h
    exact hstuck (.opened (bytes "x") .eof) (by decide) h.left
  · intro h
    exact hstuck (.opened [] .error) (by decide) h.left

end Cgtop
end Lepd
