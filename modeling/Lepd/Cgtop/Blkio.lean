import Mathlib.Data.List.DropRight
import Lepd.Cgtop.Streams

/-!
# The totals of a blkio file

Two functions read `blkio.io_service_bytes`, line by line and with the same
body. One of them keeps the totals to itself.
-/

namespace Lepd
namespace Cgtop

open Ps (Text bytes byte isspace isdigit)
open CJson (cString)

/-!
# Words
-/

def isBlank (c : UInt8) : Bool :=
  c == 32 || c == 9 || c == 10 || c == 13

def strstrip (s : Text) : Text :=
  (s.dropWhile isBlank).rdropWhile isBlank

def firstWord (s word : Text) : Option Text :=
  if s.length < word.length then none
  else if word = [] then some s
  else if s.take word.length ≠ word then none
  else
    match s.drop word.length with
    | [] => some []
    | c :: p => if isBlank c then some ((c :: p).dropWhile isBlank) else none

def strtoull (s : Text) : UInt64 :=
  UInt64.ofNat (Ps.strtoul s).1

/-!
# Lines
-/

/-- The totals of the bytes read and written. -/
structure Totals where
  rd : UInt64
  wr : UInt64
deriving DecidableEq

def addLine (t : Text) (totals : Totals) : Totals :=
  let l := strstrip (cString t)
  let l := l.dropWhile (fun c => !isBlank c)
  let l := l.dropWhile isBlank
  if (firstWord l (bytes "Read")).isSome then
    { totals with rd := totals.rd + strtoull ((l.drop 4).dropWhile isBlank) }
  else if (firstWord l (bytes "Write")).isSome then
    { totals with wr := totals.wr + strtoull ((l.drop 5).dropWhile isBlank) }
  else totals

/-- The loop over the lines, with a bound on its turns. -/
def addLines : Nat -> Stream -> Totals -> Totals
  | 0, _, totals => totals
  | fuel + 1, f, totals =>
      match fgets 1024 f with
      | none => totals
      | some (t, f) => addLines fuel f (addLine t totals)

/-- Each turn of the loop takes a byte. -/
def totalsOf (f : Stream) : Totals :=
  addLines (f.rest.length + 1) f ⟨0, 0⟩

structure BlkioRead where
  /-- What it answers, which is indeterminate where it ends without a return. -/
  answer : Option Int
  /-- `rd` and `wr`. -/
  locals : Totals
  /-- `*m`. -/
  m : UInt64
  /-- `*n`. -/
  n : UInt64

/-- `read_from_blkio`, given what `fopen` answers. -/
def readFromBlkio (f : Option Stream) (m n : UInt64) : BlkioRead :=
  match f with
  | none => { answer := some (-1), locals := ⟨0, 0⟩, m := m, n := n }
  | some f => { answer := none, locals := totalsOf f, m := m, n := n }

/-!
# Reading a file line by line
-/

theorem takeLine_append (n : Nat) (content : Text) :
    (takeLine n content).1 ++ (takeLine n content).2 = content := by
  induction n generalizing content with
  | zero =>
      rfl
  | succ n ih =>
      cases content with
      | nil =>
          rfl
      | cons c content =>
          rw [takeLine]
          split
          · rfl
          · rw [List.cons_append, ih]

/-- Reading stops at a newline, where the buffer is full, or behind the last
byte. -/
theorem takeLine_stop (n : Nat) (content : Text) :
    (takeLine n content).1.getLast? = some newline ∨
    (takeLine n content).1.length = n ∨
      (takeLine n content).2 = [] := by
  induction n generalizing content with
  | zero =>
      exact Or.inr (Or.inl rfl)
  | succ n ih =>
      cases content with
      | nil =>
          exact Or.inr (Or.inr rfl)
      | cons c content =>
          rw [takeLine]
          by_cases hc : c = newline
          · rw [if_pos hc, hc]
            exact Or.inl rfl
          · rw [if_neg hc]
            rcases ih content with hlast | hlength | hrest
            · refine Or.inl ?_
              show (c :: (takeLine n content).1).getLast? = some newline
              rw [List.getLast?_cons, hlast]
              rfl
            · exact Or.inr (Or.inl (congrArg Nat.succ hlength))
            · exact Or.inr (Or.inr hrest)

theorem takeLine_short {text rest : Text} (hplain : newline ∉ text) :
    forall {n : Nat}, text.length < n -> takeLine n (text ++ newline :: rest) =
      (text ++ [newline], rest) := by
  induction text with
  | nil =>
      intro n hn
      cases n with
      | zero =>
          cases hn
      | succ n =>
          exact if_pos rfl
  | cons c text ih =>
      intro n hn
      cases n with
      | zero =>
          cases hn
      | succ n =>
          have hc : c ≠ newline := fun heq => hplain (heq ▸ List.mem_cons_self)
          have hrest := ih (fun h => hplain (List.mem_cons_of_mem c h))
            (Nat.lt_of_succ_lt_succ hn)
          rw [List.cons_append, takeLine, if_neg hc, hrest]
          rfl

theorem takeLine_full {text rest : Text} (hplain : newline ∉ text) :
    takeLine text.length (text ++ rest) = (text, rest) := by
  induction text with
  | nil =>
      rfl
  | cons c text ih =>
      have hc : c ≠ newline := fun heq => hplain (heq ▸ List.mem_cons_self)
      have hrest := ih (fun h => hplain (List.mem_cons_of_mem c h))
      rw [List.length_cons, List.cons_append, takeLine, if_neg hc, hrest]

theorem fgets_rest {size : Nat} {f f' : Stream} {t : Text}
    (h : fgets size f = some (t, f')) (hsize : 1 < size) :
    f.rest = t ++ f'.rest ∧ t ≠ [] := by
  have hsplit := takeLine_append (size - 1) f.rest
  have hstop := takeLine_stop (size - 1) f.rest
  unfold fgets at h
  generalize takeLine (size - 1) f.rest = read at hsplit hstop h
  rcases read with ⟨line, rest⟩
  dsimp only at hsplit hstop h
  by_cases hwhole : line.getLast? = some newline ∨ line.length = size - 1
  · rw [if_pos hwhole] at h
    cases h
    refine ⟨hsplit.symm, ?_⟩
    rintro rfl
    rcases hwhole with hlast | hlength
    · cases hlast
    · rw [List.length_nil] at hlength
      omega
  · rw [if_neg hwhole] at h
    by_cases hnone : line = [] ∨ f.ending = .error
    · rw [if_pos hnone] at h
      cases h
    · rw [if_neg hnone] at h
      cases h
      rw [← or_assoc] at hstop
      rw [not_or] at hnone
      refine ⟨?_, hnone.left⟩
      show f.rest = _ ++ []
      rw [← hsplit, hstop.resolve_left hwhole]

/-!
# What a file is made of
-/

structure Word where
  text : Text
  nonempty : text ≠ []
  plain : forall c, c ∈ text -> isBlank c = false ∧ c ≠ 0

structure Decimal where
  digits : Text
  nonempty : digits ≠ []
  isDigits : forall c, c ∈ digits -> isdigit c = true
  leading : digits.head? = some (byte '0') -> digits.length = 1
  room : (Ps.scanDigits 10 0 digits).1 < 2 ^ 64

def Decimal.value (n : Decimal) : Nat :=
  (Ps.scanDigits 10 0 n.digits).1

inductive Operation where
  | read
  | write
  | sync
  | async
  | total
deriving DecidableEq

def Operation.name : Operation -> Text
  | .read => bytes "Read"
  | .write => bytes "Write"
  | .sync => bytes "Sync"
  | .async => bytes "Async"
  | .total => bytes "Total"

inductive Form where
  /-- What a device has done. -/
  | device (name : Word) (operation : Operation) (value : Decimal)
  /-- The line behind those of the devices. -/
  | total (value : Decimal)

def Form.text : Form -> Text
  | .device name operation value =>
      name.text ++ (32 :: (operation.name ++ (32 :: value.digits)))
  | .total value => bytes "Total" ++ (32 :: value.digits)

def Form.valueOf (operation : Operation) : Form -> Nat
  | .device _ operation' value => if operation' = operation then value.value else 0
  | .total _ => 0

/-- A line of fewer than 1024 characters. -/
structure Line where
  form : Form
  short : form.text.length < 1024

def content (lines : List Line) : Text :=
  (lines.map (fun line => line.form.text ++ [newline])).flatten

/-- The sum of the values of an operation. -/
def sumOf (operation : Operation) (lines : List Line) : Nat :=
  (lines.map (fun line => line.form.valueOf operation)).sum

/-!
# One line
-/

theorem not_blank_of_isdigit {c : UInt8} (h : isdigit c = true) :
    isBlank c = false ∧ c ≠ 0 ∧ isspace c = false := by
  have hrange : 48 <= c ∧ c <= 57 := by simpa [isdigit] using h
  have hlow := UInt8.le_iff_toNat_le.mp hrange.left
  have hne : forall d : UInt8, d.toNat < 48 -> c ≠ d := by
    rintro d hd rfl
    simp at hlow
    omega
  have hhigh : ¬ c <= 13 := by
    intro hle
    have hle' := UInt8.le_iff_toNat_le.mp hle
    simp at hlow hle'
    omega
  refine ⟨?_, hne 0 (by decide), ?_⟩
  · simp [isBlank, hne 32 (by decide), hne 9 (by decide), hne 10 (by decide),
      hne 13 (by decide)]
  · simp [isspace, hne 32 (by decide), hhigh]

theorem ne_zero_of_isBlank {c : UInt8} (h : isBlank c = true) : c ≠ 0 := by
  rintro rfl
  cases h

/-- A number in decimal is read with base 10, except for zero, for which the
base does not matter. -/
theorem scanMagnitude_decimal (n : Decimal) :
    exists rest, Ps.scanMagnitude n.digits = some (n.value, rest) := by
  rcases n with ⟨digits, hne, hdigits, hleading, hroom⟩
  cases digits with
  | nil =>
      exact absurd rfl hne
  | cons d ds =>
      by_cases hzero : d = byte '0'
      · subst hzero
        cases ds with
        | nil =>
            exact ⟨[], rfl⟩
        | cons e ds =>
            have hlength := hleading rfl
            simp at hlength
      · refine ⟨(Ps.scanDigits 10 0 (d :: ds)).2, ?_⟩
        have hdigit : isdigit d = true := hdigits d List.mem_cons_self
        exact (if_neg hzero).trans (if_pos hdigit)

theorem scanNumber_decimal (n : Decimal) : exists rest, Ps.scanNumber n.digits =
    (false, n.value, rest) := by
  rcases scanMagnitude_decimal n with ⟨rest, hmagnitude⟩
  refine ⟨rest, ?_⟩
  have hhead : forall c, n.digits.head? = some c -> isdigit c = true := by
    intro c hc
    exact n.isDigits c (List.mem_of_head? hc)
  have htrimmed : n.digits.dropWhile isspace = n.digits := by
    cases hdigits : n.digits with
    | nil =>
        rfl
    | cons d ds =>
        apply List.dropWhile_cons_of_neg
        rw [(not_blank_of_isdigit
          (hhead d (congrArg List.head? hdigits))).right.right]
        decide
  have hsign : forall c, isdigit c = false -> ¬ n.digits.head? = some c := by
    intro c hc hhead'
    rw [hhead c hhead'] at hc
    cases hc
  unfold Ps.scanNumber
  simp only [htrimmed, hsign (byte '-') rfl, hsign (byte '+') rfl, or_self,
    if_false, hmagnitude, decide_false]

theorem strtoull_decimal (n : Decimal) :
    strtoull n.digits = UInt64.ofNat n.value := by
  rcases scanNumber_decimal n with ⟨rest, hnumber⟩
  have hroom : ¬ Ps.ulongMax < n.value :=
    Nat.not_lt.mpr (Nat.le_sub_one_of_lt n.room)
  unfold strtoull Ps.strtoul
  rw [hnumber]
  simp only [if_neg hroom, Bool.false_eq_true, if_false]

theorem rdropWhile_blanks {text blanks : Text}
    (hblanks : forall c, c ∈ blanks -> isBlank c = true) :
    (text ++ blanks).rdropWhile isBlank = text.rdropWhile isBlank := by
  induction blanks using List.reverseRecOn with
  | nil =>
      rw [List.append_nil]
  | append_singleton blanks c ih =>
      have hc : isBlank c = true :=
        hblanks c (List.mem_append_right blanks List.mem_cons_self)
      rw [← List.append_assoc, List.rdropWhile_concat_pos _ _ _ hc]
      exact ih (fun d hd => hblanks d (List.mem_append_left [c] hd))

theorem strstrip_line {text blanks : Text}
    (hblanks : forall c, c ∈ blanks -> isBlank c = true)
    (hfirst : forall c, text.head? = some c -> isBlank c = false)
    (hlast : forall c, text.getLast? = some c -> isBlank c = false)
    (hne : text ≠ []) :
    strstrip (text ++ blanks) = text := by
  have hstart : (text ++ blanks).dropWhile isBlank = text ++ blanks := by
    cases text with
    | nil =>
        exact absurd rfl hne
    | cons c text =>
        have hc : ¬ isBlank c = true := by
          rw [hfirst c rfl]
          decide
        exact List.dropWhile_cons_of_neg hc
  have hend : text.rdropWhile isBlank = text := by
    rw [List.rdropWhile_eq_self_iff]
    intro hnil
    rw [hlast _ (List.getLast?_eq_some_getLast hnil)]
    decide
  rw [strstrip, hstart, rdropWhile_blanks hblanks, hend]

theorem fields_line {first rest blanks : Text} (hfirst : first ≠ [])
    (hplain : forall c, c ∈ first -> isBlank c = false ∧ c ≠ 0)
    (hrest : forall c, c ∈ rest -> c ≠ 0)
    (hhead : forall c, rest.head? = some c -> isBlank c = false)
    (hlast : forall c, rest.getLast? = some c -> isBlank c = false)
    (hne : rest ≠ [])
    (hblanks : forall c, c ∈ blanks -> isBlank c = true) :
    ((strstrip (cString (first ++ (32 :: rest) ++ blanks))).dropWhile
    (fun c => !isBlank c)).dropWhile isBlank =
      rest := by
  have hstring : cString (first ++ (32 :: rest) ++ blanks) = first ++
      (32 :: rest) ++ blanks := by
    apply cString_of_plain
    intro c hc
    rcases List.mem_append.mp hc with hc | hc
    · rcases List.mem_append.mp hc with hc | hc
      · exact (hplain c hc).right
      · rcases List.mem_cons.mp hc with rfl | hc
        · decide
        · exact hrest c hc
    · exact ne_zero_of_isBlank (hblanks c hc)
  have hstrip : strstrip (first ++ (32 :: rest) ++ blanks) = first ++
      (32 :: rest) := by
    apply strstrip_line hblanks
    · intro c hc
      rw [List.head?_append_of_ne_nil _ hfirst] at hc
      exact (hplain c (List.mem_of_head? hc)).left
    · intro c hc
      have hbehind : (32 :: rest).getLast? = rest.getLast? :=
        List.getLast?_append_of_ne_nil [32] hne
      rw [List.getLast?_append_of_ne_nil _ (List.cons_ne_nil 32 rest),
        hbehind] at hc
      exact hlast c hc
    · exact List.append_ne_nil_of_left_ne_nil hfirst _
  have hword : (first ++ (32 :: rest)).dropWhile (fun c => !isBlank c) = 32 ::
      rest := by
    rw [List.dropWhile_append_of_pos]
    · exact List.dropWhile_cons_of_neg (by decide)
    · intro c hc
      rw [(hplain c hc).left]
      rfl
  rw [hstring, hstrip, hword, List.dropWhile_cons_of_pos (by decide)]
  cases rest with
  | nil =>
      rfl
  | cons c rest =>
      apply List.dropWhile_cons_of_neg
      rw [hhead c rfl]
      decide

theorem Decimal.last (n : Decimal) : forall c, n.digits.getLast? = some c ->
    isBlank c = false := by
  intro c hc
  exact (not_blank_of_isdigit (n.isDigits c (List.mem_of_getLast? hc))).left

theorem Decimal.dropWhile_isBlank (n : Decimal) :
    (32 :: n.digits).dropWhile isBlank = n.digits := by
  rw [List.dropWhile_cons_of_pos (by decide)]
  cases hdigits : n.digits with
  | nil =>
      rfl
  | cons d ds =>
      have hd : isdigit d = true :=
        n.isDigits d (by rw [hdigits]; exact List.mem_cons_self)
      apply List.dropWhile_cons_of_neg
      rw [(not_blank_of_isdigit hd).left]
      decide

theorem Operation.plain (operation : Operation) :
    operation.name.all (fun c => !isBlank c && c != 0 && c != newline) = true := by
  cases operation with
  | read => rfl
  | write => rfl
  | sync => rfl
  | async => rfl
  | total => rfl

theorem addLine_fields {t l : Text} (totals : Totals)
    (h : ((strstrip (cString t)).dropWhile (fun c => !isBlank c)).dropWhile
    isBlank = l) :
    addLine t totals =
      if (firstWord l (bytes "Read")).isSome then
        { totals with rd := totals.rd + strtoull ((l.drop 4).dropWhile isBlank) }
      else if (firstWord l (bytes "Write")).isSome then
        { totals with wr := totals.wr + strtoull ((l.drop 5).dropWhile isBlank) }
      else totals := by
  rw [← h]
  rfl

theorem firstWord_self {word : Text} (hne : word ≠ []) (rest : Text) :
    (firstWord (word ++ (32 :: rest)) word).isSome = true := by
  have hlength : ¬ (word ++ (32 :: rest)).length < word.length := by
    rw [List.length_append]
    omega
  unfold firstWord
  rw [if_neg hlength, if_neg hne, if_neg (not_not.mpr List.take_left),
    List.drop_left]
  rfl

theorem firstWord_none {l word : Text} (hne : word ≠ [])
    (hhead : l.head? ≠ word.head?) :
    firstWord l word = none := by
  have htake : l.take word.length ≠ word := by
    intro htake
    have hsame := congrArg List.head? htake
    rw [List.head?_take,
      if_neg (Nat.ne_of_gt (List.length_pos_of_ne_nil hne))] at hsame
    exact hhead hsame
  unfold firstWord
  by_cases hlength : l.length < word.length
  · exact if_pos hlength
  · rw [if_neg hlength, if_neg hne, if_pos htake]

theorem addLine_device (name : Word) (operation : Operation) (value : Decimal)
    {blanks : Text}
    (hblanks : forall c, c ∈ blanks -> isBlank c = true) (totals : Totals) :
    addLine ((Form.device name operation value).text ++ blanks) totals =
      ⟨totals.rd + UInt64.ofNat ((Form.device name operation value).valueOf .read),
        totals.wr +
          UInt64.ofNat ((Form.device name operation value).valueOf .write)⟩ := by
  have hplain := List.all_eq_true.mp operation.plain
  have hne : operation.name ≠ [] := by
    cases operation with
    | read => exact List.cons_ne_nil _ _
    | write => exact List.cons_ne_nil _ _
    | sync => exact List.cons_ne_nil _ _
    | async => exact List.cons_ne_nil _ _
    | total => exact List.cons_ne_nil _ _
  have hfields :
      ((strstrip (cString ((Form.device name operation value).text ++
    blanks))).dropWhile
      (fun c => !isBlank c)).dropWhile isBlank = operation.name ++
        (32 :: value.digits) := by
    apply fields_line name.nonempty name.plain _ _ _ _ hblanks
    · intro c hc
      rcases List.mem_append.mp hc with hc | hc
      · have := hplain c hc
        simp at this
        exact this.left.right
      · rcases List.mem_cons.mp hc with rfl | hc
        · decide
        · exact (not_blank_of_isdigit (value.isDigits c hc)).right.left
    · intro c hc
      rw [List.head?_append_of_ne_nil _ hne] at hc
      have := hplain c (List.mem_of_head? hc)
      simp at this
      exact this.left.left
    · intro c hc
      have hbehind : (32 :: value.digits).getLast? = value.digits.getLast? :=
        List.getLast?_append_of_ne_nil [32] value.nonempty
      rw [List.getLast?_append_of_ne_nil _ (List.cons_ne_nil _ _), hbehind] at hc
      exact value.last c hc
    · exact List.append_ne_nil_of_left_ne_nil hne _
  have hread : operation.name.head? ≠ some (byte 'R') ->
      firstWord (operation.name ++ (32 :: value.digits)) (bytes "Read") =
        none := fun hhead =>
    firstWord_none (List.cons_ne_nil _ _)
      (by rw [List.head?_append_of_ne_nil _ hne]; exact hhead)
  have hwrite : operation.name.head? ≠ some (byte 'W') ->
      firstWord (operation.name ++ (32 :: value.digits)) (bytes "Write") =
        none := fun hhead =>
    firstWord_none (List.cons_ne_nil _ _)
      (by rw [List.head?_append_of_ne_nil _ hne]; exact hhead)
  rw [addLine_fields totals hfields]
  cases operation with
  | read =>
      have hself : (firstWord (Operation.read.name ++ (32 :: value.digits))
        (bytes "Read")).isSome = true :=
        firstWord_self (List.cons_ne_nil _ _) _
      have hdrop : (Operation.read.name ++ (32 :: value.digits)).drop 4 = 32 ::
          value.digits := rfl
      rw [if_pos hself, hdrop, value.dropWhile_isBlank, strtoull_decimal]
      simp [Form.valueOf]
  | write =>
      have hself : (firstWord (Operation.write.name ++ (32 :: value.digits))
        (bytes "Write")).isSome = true :=
        firstWord_self (List.cons_ne_nil _ _) _
      have hdrop : (Operation.write.name ++ (32 :: value.digits)).drop 5 = 32 ::
          value.digits := rfl
      rw [hread (by decide), if_neg (by decide), if_pos hself, hdrop,
        value.dropWhile_isBlank, strtoull_decimal]
      simp [Form.valueOf]
  | sync =>
      rw [hread (by decide), hwrite (by decide), if_neg (by decide),
        if_neg (by decide)]
      simp [Form.valueOf]
  | async =>
      rw [hread (by decide), hwrite (by decide), if_neg (by decide),
        if_neg (by decide)]
      simp [Form.valueOf]
  | total =>
      rw [hread (by decide), hwrite (by decide), if_neg (by decide),
        if_neg (by decide)]
      simp [Form.valueOf]

theorem addLine_total (value : Decimal) {blanks : Text}
    (hblanks : forall c, c ∈ blanks -> isBlank c = true) (totals : Totals) :
    addLine ((Form.total value).text ++ blanks) totals = totals := by
  have hdigit : forall c, c ∈ value.digits -> isBlank c = false ∧ c ≠ 0 ∧
      isspace c = false := fun c hc =>
    not_blank_of_isdigit (value.isDigits c hc)
  have hplain : (bytes "Total").all (fun c => !isBlank c && c != 0) = true := rfl
  have hfields : ((strstrip (cString ((Form.total value).text ++ blanks))).dropWhile
      (fun c => !isBlank c)).dropWhile isBlank = value.digits := by
    apply fields_line (List.cons_ne_nil _ _) _ _ _ value.last value.nonempty hblanks
    · intro c hc
      have := List.all_eq_true.mp hplain c hc
      simpa using this
    · intro c hc
      exact (hdigit c hc).right.left
    · intro c hc
      exact (hdigit c (List.mem_of_head? hc)).left
  have hhead : forall c, isdigit c = false -> value.digits.head? ≠ some c := by
    intro c hc hhead
    rw [value.isDigits c (List.mem_of_head? hhead)] at hc
    cases hc
  have hread : firstWord value.digits (bytes "Read") = none :=
    firstWord_none (List.cons_ne_nil _ _) (hhead (byte 'R') rfl)
  have hwrite : firstWord value.digits (bytes "Write") = none :=
    firstWord_none (List.cons_ne_nil _ _) (hhead (byte 'W') rfl)
  rw [addLine_fields totals hfields, hread, hwrite]
  rfl

def Form.add (form : Form) (totals : Totals) : Totals :=
  ⟨totals.rd + UInt64.ofNat (form.valueOf .read), totals.wr +
    UInt64.ofNat (form.valueOf .write)⟩

theorem addLine_form (form : Form) {blanks : Text}
    (hblanks : forall c, c ∈ blanks -> isBlank c = true)
    (totals : Totals) : addLine (form.text ++ blanks) totals = form.add totals := by
  cases form with
  | device name operation value =>
      exact addLine_device name operation value hblanks totals
  | total value =>
      rw [addLine_total value hblanks]
      simp [Form.add, Form.valueOf]

/-!
# The whole file
-/

theorem newline_not_mem (form : Form) : newline ∉ form.text := by
  have hblank : forall c, isBlank c = false -> c ≠ newline := by
    rintro c hc rfl
    cases hc
  have hdigits : forall value : Decimal, newline ∉ value.digits := fun value hmem =>
    hblank newline (not_blank_of_isdigit (value.isDigits newline hmem)).left rfl
  cases form with
  | device name operation value =>
      have hname : newline ∉ name.text := fun hmem =>
        hblank newline (name.plain newline hmem).left rfl
      have hoperation : newline ∉ operation.name := by
        intro hmem
        have hplain := List.all_eq_true.mp operation.plain newline hmem
        cases hplain
      simp only [Form.text, List.mem_append, List.mem_cons, not_or]
      exact ⟨hname, by decide, hoperation, by decide, hdigits value⟩
  | total value =>
      simp only [Form.text, List.mem_append, List.mem_cons, not_or]
      exact ⟨by decide, by decide, hdigits value⟩

/-- One line is read with one call of `fgets` or, where it just fits, with two. -/
theorem addLines_line (line : Line) {fuel : Nat} {f : Stream} {rest : Text}
    (totals : Totals)
    (hrest : f.rest = line.form.text ++ newline :: rest)
    (hfuel : f.rest.length < fuel) :
    exists fuel', rest.length < fuel' ∧
      addLines fuel f totals = addLines fuel' { f with rest := rest }
        (line.form.add totals) := by
  have hplain := newline_not_mem line.form
  have hlength : f.rest.length = line.form.text.length + (rest.length + 1) := by
    rw [hrest, List.length_append, List.length_cons]
  have hnewline : forall c, c ∈ [newline] -> isBlank c = true := by
    intro c hc
    rw [List.mem_singleton.mp hc]
    rfl
  cases fuel with
  | zero =>
      cases hfuel
  | succ fuel =>
      rcases Nat.lt_or_ge line.form.text.length 1023 with hshort | hfull
      · have hread : fgets 1024 f = some (line.form.text ++ [newline],
          { f with rest := rest }) := by
          unfold fgets
          rw [hrest, takeLine_short hplain hshort]
          exact if_pos
            (Or.inl (by rw [List.getLast?_append_of_ne_nil _
            (List.cons_ne_nil _ _)]; rfl))
        refine ⟨fuel, by omega, ?_⟩
        rw [addLines, hread]
        show addLines fuel _ (addLine (line.form.text ++ [newline]) totals) = _
        rw [addLine_form line.form hnewline]
      · have hexact : line.form.text.length = 1023 :=
          Nat.le_antisymm (Nat.le_of_lt_succ line.short) hfull
        cases fuel with
        | zero =>
            omega
        | succ fuel =>
            have hread : fgets 1024 f =
                some (line.form.text, { f with rest := newline :: rest }) := by
              unfold fgets
              rw [hrest, show 1024 - 1 = line.form.text.length from hexact.symm,
                takeLine_full hplain]
              exact if_pos (Or.inr rfl)
            have hread' : fgets 1024 { f with rest := newline :: rest } =
                some ([newline], { f with rest := rest }) := rfl
            have hnone : forall c : UInt8, c ∈ [] -> isBlank c = true := by
              intro c hc
              cases hc
            have hform := addLine_form line.form hnone totals
            rw [List.append_nil] at hform
            refine ⟨fuel, by omega, ?_⟩
            rw [addLines, hread]
            show addLines (fuel + 1) _ (addLine line.form.text totals) = _
            rw [hform, addLines, hread']
            rfl

theorem addLines_content (lines : List Line) :
    forall {fuel : Nat} {f : Stream} {totals : Totals},
    f.rest = content lines -> f.rest.length < fuel ->
      addLines fuel f totals = lines.foldl
        (fun totals line => line.form.add totals) totals := by
  induction lines with
  | nil =>
      intro fuel f totals hrest hfuel
      cases fuel with
      | zero =>
          cases hfuel
      | succ fuel =>
          have hread : fgets 1024 f = none := by
            unfold fgets
            rw [hrest]
            rfl
          rw [addLines, hread]
          rfl
  | cons line lines ih =>
      intro fuel f totals hrest hfuel
      have hcontent : content (line :: lines) = line.form.text ++ newline ::
          content lines := by
        rw [content, List.map_cons, List.flatten_cons, List.append_assoc]
        rfl
      rcases addLines_line line totals (hrest.trans hcontent) hfuel with
        ⟨fuel', hfuel', hline⟩
      rw [hline, List.foldl_cons]
      exact ih rfl hfuel'

theorem foldl_add (lines : List Line) : forall totals : Totals,
    lines.foldl (fun totals line => line.form.add totals) totals =
      ⟨totals.rd + UInt64.ofNat (sumOf .read lines), totals.wr +
        UInt64.ofNat (sumOf .write lines)⟩ := by
  induction lines with
  | nil =>
      intro totals
      simp [sumOf]
  | cons line lines ih =>
      intro totals
      rw [List.foldl_cons, ih]
      simp only [Form.add, sumOf, List.map_cons, List.sum_cons,
        UInt64.ofNat_add, UInt64.add_assoc]

theorem totalsOf_content (lines : List Line) (ending : Ending) :
    totalsOf (.opened (content lines) ending) =
      ⟨UInt64.ofNat (sumOf .read lines), UInt64.ofNat (sumOf .write lines)⟩ := by
  unfold totalsOf
  rw [addLines_content lines rfl (Nat.lt_succ_self _), foldl_add]
  simp

/--
`process` adds up every file, and `read_from_blkio` delivers the sums if and
only if the variables that it is to store them in hold them before.
-/
theorem readFromBlkio_delivers_iff (lines : List Line) (ending : Ending)
    (m n : UInt64) :
    totalsOf (.opened (content lines) ending) =
        ⟨UInt64.ofNat (sumOf .read lines), UInt64.ofNat (sumOf .write lines)⟩ ∧
      ((readFromBlkio (some (.opened (content lines) ending)) m n).m =
        UInt64.ofNat (sumOf .read lines) ∧
          (readFromBlkio (some (.opened (content lines) ending)) m n).n =
            UInt64.ofNat (sumOf .write lines) <->
        m = UInt64.ofNat (sumOf .read lines) ∧
          n = UInt64.ofNat (sumOf .write lines)) :=
  ⟨totalsOf_content lines ending, Iff.rfl⟩

/-- One byte was read; `process` finds it, and the variables keep the zeros they
began with. -/
theorem readFromBlkio_keeps_zero :
    totalsOf (.opened (bytes "8:0 Read 1\n8:0 Write 0\nTotal 1\n") .eof) = ⟨1, 0⟩ ∧
      (readFromBlkio
        (some (.opened (bytes "8:0 Read 1\n8:0 Write 0\nTotal 1\n") .eof)) 0
        0).m = 0 :=
  ⟨by decide +kernel, rfl⟩

end Cgtop
end Lepd
