import Lepd.CJson.Printer
import Lepd.Cgtop.Blkio
import Lepd.Foundation.Search

/-!
# Rates of interrupts

`irq_info_main`, which reads `/proc/stat` twice into one buffer and searches it
for two counters. It has no answer where the buffer holds no string for them to
look at.
-/

namespace Lepd
namespace Customization

open Foundation
open Ps (Text bytes byte isspace isdigit)
open CJson (decimalText)
open Cgtop (newline)

def buffSize : Nat := 64 * 1024 - 1

/-- `read`: what the file has, as far as there is room, over what is in the
buffer. -/
def fill (buff content : Text) : Text :=
  content.take buffSize ++ buff.drop (content.take buffSize).length

def ullongMax : Nat := 2 ^ 64 - 1

/-- `%Lu` behind the blanks: the number, if one is converted. -/
def scanLu : Text -> Option UInt64
  | [] => none
  | c :: cs =>
      let number := if c = byte '-' ∨ c = byte '+' then cs else c :: cs
      let digits := number.takeWhile isdigit
      let n := (Ps.scanDigits 10 0 digits).1
      if digits = [] then none
      else if ullongMax < n then some (UInt64.ofNat ullongMax)
      else if c = byte '-' then some (-UInt64.ofNat n)
      else some (UInt64.ofNat n)

def sscanfLu (word text : Text) : Option UInt64 :=
  if word <+: text then scanLu ((text.drop word.length).dropWhile isspace) else none

/-- A search, and where it finds something the conversion into `llbuf`. -/
def lookUp (word buff : Text) (llbuf : UInt64) : Option (Option Nat × UInt64) := do
  let text <- stringIn 0 buff
  match strstrIndex word text with
  | none => some (none, llbuf)
  | some i => some (some i, (sscanfLu word (text.drop i)).getD llbuf)

structure Found where
  irqAt : Option Nat
  irq : UInt64
  softirqAt : Option Nat
  softirq : UInt64
deriving DecidableEq

def findCounters (buff : Text) (llbuf : UInt64) : Option Found := do
  let (irqAt, llbuf) <- lookUp (bytes "intr") buff llbuf
  let irq := llbuf
  let (softirqAt, llbuf) <- lookUp (bytes "softirq") buff llbuf
  some { irqAt := irqAt, irq := irq, softirqAt := softirqAt, softirq := llbuf }

/-- What the two turns find. -/
structure Report where
  first : Found
  second : Found
deriving DecidableEq

/-- `%d` of an `unsigned long long` takes its low half. -/
def lowInt (x : UInt64) : Int :=
  x.toUInt32.toInt32.toInt

def Report.irq (report : Report) : Int :=
  lowInt (report.second.irq - report.first.irq)

def Report.softirq (report : Report) : Int :=
  lowInt (report.second.softirq - report.first.softirq)

def Report.text (report : Report) : Text :=
  bytes "irq:" ++ decimalText report.irq ++ bytes "/s softirq:" ++
    decimalText report.softirq ++ bytes "/s \n"

/-- `irq_info_main`, for the two contents of `/proc/stat`. -/
def irqInfoMain (content content' : Text) : Option Report := do
  let buff := List.replicate buffSize 0
  let buff := fill buff content
  let first <- findCounters buff 0
  let buff := fill buff content'
  let second <- findCounters buff first.softirq
  some { first := first, second := second }

/-!
# Lines
-/

/-- A content of `/proc/stat` with a line that starts with a word and a counter. -/
structure Line (word : Text) where
  front : Text
  digits : Text
  stop : UInt8
  rest : Text
  starts : front = [] ∨ front.getLast? = some newline
  nonempty : digits ≠ []
  isDigits : forall c, c ∈ digits -> isdigit c = true
  stops : stop = 32 ∨ stop = newline

section Lines

variable {word : Text}

def Line.content (line : Line word) : Text :=
  line.front ++ (word ++ (32 :: (line.digits ++ line.stop :: line.rest)))

/-- The first counter of the line. -/
def Line.counter (line : Line word) : Nat :=
  (Ps.scanDigits 10 0 line.digits).1

structure Line.Reached (line : Line word) : Prop where
  null : (0 : UInt8) ∉ line.front
  first : ¬ word <:+: line.front

end Lines

/-- A content of `/proc/stat`. -/
structure Stat where
  content : Text
  intr : Line (bytes "intr")
  softirq : Line (bytes "softirq")
  intr_content : intr.content = content
  softirq_content : softirq.content = content

def Stat.Reached (stat : Stat) : Prop :=
  stat.intr.Reached ∧ stat.softirq.Reached

/-- A NUL is left in the buffer when it is filled for the first time. -/
def Ended (content : Text) : Prop :=
  content.length < buffSize ∨ (0 : UInt8) ∈ content.take buffSize

/-- A NUL is left in the buffer when it is filled for the second time, over what
it was filled with before. -/
def EndedOver (content content' : Text) : Prop :=
  (0 : UInt8) ∈ content'.take buffSize ∨
    (content.length < buffSize ∧ content'.length < buffSize) ∨
    (0 : UInt8) ∈ (content.take buffSize).drop content'.length

def Found.At (found : Found) (stat : Stat) : Prop :=
  found.irqAt = some stat.intr.front.length ∧ found.softirqAt =
    some stat.softirq.front.length

/-- The searches stay in the buffer and end at the lines, and the differences of
their counters are reported. -/
def Right (stat stat' : Stat) : Prop :=
  exists report, irqInfoMain stat.content stat'.content = some report ∧
    report.first.At stat ∧ report.second.At stat' ∧
      report.irq = (stat'.intr.counter : Int) - stat.intr.counter ∧
        report.softirq = (stat'.softirq.counter : Int) - stat.softirq.counter

/-- The counters are of 64 bits and their difference is an `int`, or there is
none. -/
def Representable (n n' : Nat) : Prop :=
  n = n' ∨ n <= ullongMax ∧ n' <= ullongMax ∧ -2 ^ 31 <= (n' : Int) - n ∧
    (n' : Int) - n < 2 ^ 31

/-!
# The conversion
-/

def saturated (n : Nat) : UInt64 :=
  UInt64.ofNat (min n ullongMax)

theorem not_isspace_of_isdigit {c : UInt8} (h : isdigit c = true) :
    isspace c = false :=
  (Cgtop.not_blank_of_isdigit h).right.right

theorem not_sign_of_isdigit {c : UInt8} (h : isdigit c = true) :
    ¬ (c = byte '-' ∨ c = byte '+') := by
  intro hsign
  rcases hsign with rfl | rfl
  · exact absurd h (by decide)
  · exact absurd h (by decide)

section Conversion

variable {word digits : Text}

theorem dropWhile_blank (hdigits : forall c, c ∈ digits -> isdigit c = true)
    (hne : digits ≠ []) (rest : Text) :
    (32 :: (digits ++ rest)).dropWhile isspace = digits ++ rest := by
  rw [List.dropWhile_cons_of_pos (by decide)]
  cases digits with
  | nil =>
      exact absurd rfl hne
  | cons d ds =>
      have hd := not_isspace_of_isdigit (hdigits d List.mem_cons_self)
      exact List.dropWhile_cons_of_neg (by rw [hd]; decide)

theorem sscanfLu_append (rest : Text) :
    sscanfLu word (word ++ rest) = scanLu (rest.dropWhile isspace) := by
  rw [sscanfLu, if_pos (List.prefix_append _ _), List.drop_left]

theorem scanLu_digits (hdigits : forall c, c ∈ digits -> isdigit c = true)
    (hne : digits ≠ [])
    {stop : UInt8} (hstop : isdigit stop = false) (rest : Text) :
    scanLu (digits ++ stop :: rest) =
      some (saturated (Ps.scanDigits 10 0 digits).1) := by
  have htake : (digits ++ stop :: rest).takeWhile isdigit = digits := by
    rw [List.takeWhile_append_of_pos hdigits,
      List.takeWhile_cons_of_neg (by rw [hstop]; decide), List.append_nil]
  cases digits with
  | nil =>
      exact absurd rfl hne
  | cons d ds =>
      have hsign := not_sign_of_isdigit (hdigits d List.mem_cons_self)
      rw [List.cons_append] at htake
      rw [List.cons_append, scanLu]
      simp only [if_neg hsign, if_neg (not_or.mp hsign).left, htake,
        List.cons_ne_nil, if_false]
      split
      · next hlarge => rw [saturated, Nat.min_eq_right (Nat.le_of_lt hlarge)]
      · next hsmall => rw [saturated, Nat.min_eq_left (Nat.not_lt.mp hsmall)]

end Conversion

/-!
# The buffer
-/

theorem fill_length {buff : Text} (h : buff.length = buffSize) (content : Text) :
    (fill buff content).length = buffSize := by
  have htake := List.length_take_le buffSize content
  rw [fill, List.length_append, List.length_drop]
  omega

/-- What is in front of a byte that has come into the buffer is there too. -/
theorem fill_of_lt {front : Text} (h : front.length < buffSize) (c : UInt8)
    (rest buff : Text) :
    exists rest', fill buff (front ++ c :: rest) = front ++ c :: rest' := by
  have htake : (front ++ c :: rest).take buffSize = front ++ c ::
      rest.take (buffSize - front.length - 1) := by
    rw [List.take_append, List.take_of_length_le (Nat.le_of_lt h)]
    cases hroom : buffSize - front.length with
    | zero => omega
    | succ n => rfl
  unfold fill
  rw [htake, List.append_assoc, List.cons_append]
  exact ⟨_, rfl⟩

theorem fill_of_le {buff front rest : Text} (hbuff : buff.length = buffSize)
    (h : buffSize <= front.length) :
    fill buff (front ++ rest) = front.take buffSize := by
  have htake : (front ++ rest).take buffSize = front.take buffSize :=
    List.take_append_of_le_length h
  have hlength : (front.take buffSize).length = buffSize := by
    rw [List.length_take]
    omega
  unfold fill
  rw [htake, hlength, ← hbuff, List.drop_length, List.append_nil]

theorem ended_iff (content : Text) :
    (0 : UInt8) ∈ fill (List.replicate buffSize 0) content <-> Ended content := by
  unfold fill Ended
  rw [List.mem_append, List.drop_replicate, List.mem_replicate, List.length_take]
  constructor
  · rintro (hmem | ⟨hroom, _⟩)
    · exact Or.inr hmem
    · left
      omega
  · rintro (hroom | hmem)
    · right
      exact ⟨by omega, rfl⟩
    · exact Or.inl hmem

theorem endedOver_iff (content content' : Text) :
    (0 : UInt8) ∈ fill (fill (List.replicate buffSize 0) content) content' <->
      EndedOver content content' := by
  have hleft : (0 : UInt8) ∈ (fill (List.replicate buffSize 0) content).drop
      (content'.take buffSize).length <->
      (content.length < buffSize ∧ content'.length < buffSize) ∨
        (0 : UInt8) ∈ (content.take buffSize).drop content'.length := by
    have htake := List.length_take (i := buffSize) (l := content)
    have htake' := List.length_take (i := buffSize) (l := content')
    unfold fill
    rw [List.drop_append, List.mem_append, List.drop_replicate,
      List.drop_replicate, List.mem_replicate]
    rcases Nat.lt_or_ge content'.length buffSize with hshort | hlong
    · rw [htake', Nat.min_eq_right (Nat.le_of_lt hshort)]
      constructor
      · rintro (hmem | ⟨hroom, _⟩)
        · exact Or.inr hmem
        · left
          omega
      · rintro (⟨hroom, _⟩ | hmem)
        · right
          exact ⟨by omega, rfl⟩
        · exact Or.inl hmem
    · have hnone : (content.take buffSize).drop content'.length = [] :=
        List.drop_eq_nil_of_le (Nat.le_trans (List.length_take_le _ _) hlong)
      have hnone' : (content.take buffSize).drop
          (content'.take buffSize).length = [] := by
        rw [htake', Nat.min_eq_left hlong]
        exact List.drop_eq_nil_of_le (List.length_take_le _ _)
      rw [hnone, hnone']
      constructor
      · rintro (hmem | ⟨hroom, _⟩)
        · cases hmem
        · omega
      · rintro (⟨_, hroom⟩ | hmem)
        · omega
        · cases hmem
  unfold EndedOver
  rw [← hleft]
  exact List.mem_append

/-!
# One search
-/

theorem lookUp_found {word buff : Text} {llbuf n : UInt64} {i : Nat}
    (h : lookUp word buff llbuf = some (some i, n)) :
    exists text, stringIn 0 buff = some text ∧ strstrIndex word text = some i := by
  unfold lookUp at h
  rcases Option.bind_eq_some_iff.mp h with ⟨text, htext, h⟩
  refine ⟨text, htext, ?_⟩
  split at h
  · cases h
  · next j hj =>
      cases h
      exact hj

section Search

variable {word : Text}

/-- The part of the content that the search and the conversion look at, but for
the byte behind the counter. -/
def Line.head (line : Line word) : Text :=
  line.front ++ (word ++ (32 :: line.digits))

theorem Line.content_eq (line : Line word) :
    line.content = line.head ++ line.stop :: line.rest := by
  simp only [content, head, List.append_assoc, List.cons_append]

structure IsWord (word : Text) : Prop where
  nonempty : word ≠ []
  line : newline ∉ word
  null : (0 : UInt8) ∉ word

theorem Line.stop_not_digit (line : Line word) : isdigit line.stop = false := by
  rcases line.stops with h | h
  · rw [h]
    decide
  · rw [h]
    decide

theorem Line.stop_not_null (line : Line word) : line.stop ≠ 0 := by
  rcases line.stops with h | h
  · rw [h]
    decide
  · rw [h]
    decide

variable {line : Line word} {buff : Text}

theorem Line.Reached.null_head (h : line.Reached) (hword : IsWord word) :
    (0 : UInt8) ∉ line.head := by
  have hdigits : (0 : UInt8) ∉ line.digits := fun hmem =>
    absurd (line.isDigits 0 hmem) (by decide)
  simp only [Line.head, List.mem_append, List.mem_cons, not_or]
  exact ⟨h.null, hword.null, by decide, hdigits⟩

/-- A string that ends in the buffer has the counter of a line that is reached,
and the byte behind it. -/
theorem stringIn_fill (hword : IsWord word) (h : line.Reached)
    (hbuff : buff.length = buffSize)
    (hend : (0 : UInt8) ∈ fill buff line.content) :
    exists rest, stringIn 0 (fill buff line.content) =
      some (line.head ++ line.stop :: rest) := by
  have hhead := h.null_head hword
  rw [line.content_eq] at hend ⊢
  rcases Nat.lt_or_ge line.head.length buffSize with hlength | hlength
  · rcases fill_of_lt hlength line.stop line.rest buff with ⟨rest, hfill⟩
    rw [hfill] at hend ⊢
    refine ⟨rest.takeWhile (fun c => c ≠ 0), ?_⟩
    have hstop : decide (line.stop ≠ 0) = true := decide_eq_true line.stop_not_null
    rw [stringIn_of_front hhead ((List.mem_append.mp hend).resolve_left hhead),
      List.takeWhile_cons, hstop]
    rfl
  · rw [fill_of_le hbuff hlength] at hend
    exact absurd (List.mem_of_mem_take hend) hhead

theorem lookUp_of_reached (hword : IsWord word) (h : line.Reached)
    (hbuff : buff.length = buffSize)
    (hend : (0 : UInt8) ∈ fill buff line.content) (llbuf : UInt64) :
    lookUp word (fill buff line.content) llbuf =
      some (some line.front.length, saturated line.counter) := by
  rcases stringIn_fill hword h hbuff hend with ⟨rest, hstring⟩
  have hmem : word ++ (32 :: (line.digits ++ line.stop :: rest)) ≠ [] :=
    List.append_ne_nil_of_left_ne_nil hword.nonempty _
  have hfound := strstrIndex_of_first hmem (List.prefix_append _ _)
    ((not_found_in_front_iff hword.nonempty hword.line line.starts).mpr h.first)
  have htext : line.head ++ line.stop :: rest =
      line.front ++ (word ++ (32 :: (line.digits ++ line.stop :: rest))) := by
    simp only [Line.head, List.append_assoc, List.cons_append]
  have hnumber :
      sscanfLu word (word ++ (32 :: (line.digits ++ line.stop :: rest))) =
      some (saturated line.counter) := by
    rw [sscanfLu_append, dropWhile_blank line.isDigits line.nonempty,
      scanLu_digits line.isDigits line.nonempty line.stop_not_digit]
    rfl
  unfold lookUp
  rw [hstring, htext]
  simp only [Option.bind_eq_bind, Option.bind_some, hfound, List.drop_left,
    hnumber, Option.getD_some]

/-- A search that ends at the line has reached it, in a string that ends in the
buffer. -/
theorem reached_of_lookUp (hword : IsWord word) (hbuff : buff.length = buffSize)
    {llbuf n : UInt64}
    (h : lookUp word (fill buff line.content) llbuf =
    some (some line.front.length, n)) :
    line.Reached ∧ (0 : UInt8) ∈ fill buff line.content := by
  rcases lookUp_found h with ⟨text, htext, hfound⟩
  rcases stringIn_eq_some htext with ⟨hend, hprefix, hnull⟩
  rcases strstrIndex_found hfound with ⟨hle, hword', hfirst⟩
  have hshort : line.front.length < buffSize := by
    have htextLength := hprefix.length_le
    rw [fill_length hbuff] at htextLength
    have hpos := List.length_pos_iff.mpr hword.nonempty
    have hwithin := hword'.length_le
    rw [List.length_drop] at hwithin
    omega
  have hfront : text.take line.front.length = line.front := by
    rcases hprefix with ⟨behind, hbehind⟩
    have hstart : (fill buff line.content).take line.front.length = line.front := by
      have hlong : line.front.length <= (line.content.take buffSize).length := by
        rw [List.length_take, Line.content, List.length_append]
        omega
      rw [fill, List.take_append_of_le_length hlong, List.take_take,
        Nat.min_eq_left (Nat.le_of_lt hshort),
        Line.content, List.take_left]
    rw [← hbehind, List.take_append_of_le_length hle] at hstart
    exact hstart
  have hsplit : text = line.front ++ text.drop line.front.length := by
    conv => lhs; rw [← List.take_append_drop line.front.length text, hfront]
  refine ⟨⟨?_, ?_⟩, hend⟩
  · intro hmem
    rw [← hfront] at hmem
    exact hnull (List.mem_of_mem_take hmem)
  · rw [hsplit] at hfirst
    exact (not_found_in_front_iff hword.nonempty hword.line line.starts).mp hfirst

end Search

/-!
# The difference
-/

theorem lowInt_eq (x : UInt64) : lowInt x = (x.toNat : Int).bmod (2 ^ 32) := by
  unfold lowInt
  rw [Int32.toInt, UInt32.toBitVec_toInt32, BitVec.toInt_eq_toNat_bmod,
    UInt32.toNat_toBitVec, UInt64.toNat_toUInt32]
  exact Int.emod_bmod (x.toNat : Int) (2 ^ 32)

theorem saturated_toNat (n : Nat) : (saturated n).toNat = min n ullongMax := by
  have hle := Nat.min_le_right n ullongMax
  rw [saturated, UInt64.toNat_ofNat', Nat.mod_eq_of_lt]
  exact Nat.lt_of_le_of_lt hle (by decide)

theorem lowInt_sub_eq_iff (n n' : Nat) :
    lowInt (saturated n' - saturated n) = (n' : Int) - n <->
      Representable n n' := by
  have hmax : ullongMax = 18446744073709551615 := rfl
  rw [lowInt_eq, UInt64.toNat_sub, saturated_toNat, saturated_toNat, Int.bmod_def]
  unfold Representable
  rw [hmax]
  constructor
  · intro h
    split at h <;> omega
  · intro h
    split <;> omega

/-!
# The two turns
-/

theorem isWord_intr : IsWord (bytes "intr") where
  nonempty := by decide
  line := by decide
  null := by decide

theorem isWord_softirq : IsWord (bytes "softirq") where
  nonempty := by decide
  line := by decide
  null := by decide

def Stat.found (stat : Stat) : Found where
  irqAt := some stat.intr.front.length
  irq := saturated stat.intr.counter
  softirqAt := some stat.softirq.front.length
  softirq := saturated stat.softirq.counter

theorem findCounters_of_reached {stat : Stat} {buff : Text} (h : stat.Reached)
    (hbuff : buff.length = buffSize)
    (hend : (0 : UInt8) ∈ fill buff stat.content) (llbuf : UInt64) :
    findCounters (fill buff stat.content) llbuf = some stat.found := by
  have hend' := hend
  rw [← stat.intr_content] at hend
  rw [← stat.softirq_content] at hend'
  have hintr := lookUp_of_reached isWord_intr h.left hbuff hend llbuf
  have hsoftirq := lookUp_of_reached isWord_softirq h.right hbuff hend'
    (saturated stat.intr.counter)
  rw [stat.intr_content] at hintr
  rw [stat.softirq_content] at hsoftirq
  unfold findCounters
  rw [hintr]
  show (lookUp (bytes "softirq") (fill buff stat.content)
    (saturated stat.intr.counter)).bind _ = _
  rw [hsoftirq]
  rfl

theorem reached_of_findCounters {stat : Stat} {buff : Text} {llbuf : UInt64}
    {found : Found}
    (hbuff : buff.length = buffSize)
    (h : findCounters (fill buff stat.content) llbuf = some found)
    (hat : found.At stat) :
    stat.Reached ∧ (0 : UInt8) ∈ fill buff stat.content := by
  unfold findCounters at h
  rcases Option.bind_eq_some_iff.mp h with ⟨⟨irqAt, irq⟩, hintr, h⟩
  rcases Option.bind_eq_some_iff.mp h with ⟨⟨softirqAt, softirq⟩, hsoftirq, h⟩
  cases h
  rcases hat with ⟨hirqAt, hsoftirqAt⟩
  dsimp only at hirqAt hsoftirqAt hintr hsoftirq
  rw [hirqAt, ← stat.intr_content] at hintr
  rw [hsoftirqAt, ← stat.softirq_content] at hsoftirq
  rcases reached_of_lookUp isWord_intr hbuff hintr with ⟨hreached, hend⟩
  rw [stat.intr_content] at hend
  exact ⟨⟨hreached, (reached_of_lookUp isWord_softirq hbuff hsoftirq).left⟩, hend⟩

theorem zeros_buffer : (List.replicate buffSize (0 : UInt8)).length = buffSize :=
  List.length_replicate

theorem irqInfoMain_of_reached {stat stat' : Stat} (h : stat.Reached)
    (h' : stat'.Reached)
    (hend : Ended stat.content) (hend' : EndedOver stat.content stat'.content) :
    irqInfoMain stat.content stat'.content =
      some { first := stat.found, second := stat'.found } := by
  unfold irqInfoMain
  show (findCounters (fill (List.replicate buffSize 0) stat.content) 0).bind _ = _
  rw [findCounters_of_reached h zeros_buffer ((ended_iff _).mpr hend)]
  show (findCounters (fill (fill (List.replicate buffSize 0) stat.content)
    stat'.content) _).bind _ = _
  rw [findCounters_of_reached h' (fill_length zeros_buffer _)
    ((endedOver_iff _ _).mpr hend')]
  rfl

theorem reached_of_right {stat stat' : Stat} (h : Right stat stat') :
    (stat.Reached ∧ Ended stat.content) ∧ stat'.Reached ∧
    EndedOver stat.content stat'.content := by
  rcases h with ⟨report, hrun, hfirst, hsecond, _, _⟩
  unfold irqInfoMain at hrun
  rcases Option.bind_eq_some_iff.mp hrun with ⟨first, hfound, hrun⟩
  rcases Option.bind_eq_some_iff.mp hrun with ⟨second, hfound', hrun⟩
  cases hrun
  rcases reached_of_findCounters zeros_buffer hfound hfirst with ⟨hreached, hend⟩
  rcases reached_of_findCounters (fill_length zeros_buffer stat.content) hfound'
    hsecond with
    ⟨hreached', hend'⟩
  exact ⟨⟨hreached, (ended_iff _).mp hend⟩, hreached', (endedOver_iff _ _).mp hend'⟩

/--
The rates are those of the right lines if and only if both lines are reached in
both contents, a NUL is left in the buffer, and the differences of the counters
are representable.
-/
theorem irqInfoMain_right_iff (stat stat' : Stat) :
    Right stat stat' <-> (stat.Reached ∧ Ended stat.content) ∧
      (stat'.Reached ∧ EndedOver stat.content stat'.content) ∧
        Representable stat.intr.counter stat'.intr.counter ∧
          Representable stat.softirq.counter stat'.softirq.counter := by
  constructor
  · intro hright
    rcases reached_of_right hright with ⟨⟨h, hend⟩, h', hend'⟩
    rcases hright with ⟨report, hrun, _, _, hirq, hsoftirq⟩
    rw [irqInfoMain_of_reached h h' hend hend'] at hrun
    cases hrun
    exact ⟨⟨h, hend⟩, ⟨h', hend'⟩, (lowInt_sub_eq_iff _ _).mp hirq,
      (lowInt_sub_eq_iff _ _).mp hsoftirq⟩
  · rintro ⟨⟨h, hend⟩, ⟨h', hend'⟩, hirq, hsoftirq⟩
    exact ⟨_, irqInfoMain_of_reached h h' hend hend', ⟨rfl, rfl⟩, ⟨rfl, rfl⟩,
      (lowInt_sub_eq_iff _ _).mpr hirq, (lowInt_sub_eq_iff _ _).mpr hsoftirq⟩

def zeros : Text :=
  (List.replicate 32768 [48, 32]).flatten

theorem zeros_length : zeros.length = 65536 := by
  rw [zeros, List.length_flatten, List.map_replicate, List.sum_replicate]
  rfl

def longIntr : Line (bytes "intr") where
  front := []
  digits := [49]
  stop := 32
  rest := zeros ++ newline :: (bytes "softirq" ++ [32, 53, newline])
  starts := Or.inl rfl
  nonempty := List.cons_ne_nil _ _
  isDigits := List.forall_mem_singleton.mpr rfl
  stops := Or.inl rfl

def lateSoftirq : Line (bytes "softirq") where
  front := bytes "intr" ++ [32, 49, 32] ++ zeros ++ [newline]
  digits := [53]
  stop := newline
  rest := []
  starts := Or.inr List.getLast?_concat
  nonempty := List.cons_ne_nil _ _
  isDigits := List.forall_mem_singleton.mpr rfl
  stops := Or.inr rfl

theorem lateSoftirq_content : lateSoftirq.content = longIntr.content := by
  simp [Line.content, longIntr, lateSoftirq]

/-- A content with an `intr` line that fills the buffer. -/
def longStat : Stat where
  content := longIntr.content
  intr := longIntr
  softirq := lateSoftirq
  intr_content := rfl
  softirq_content := lateSoftirq_content

/-- The `intr` line leaves no NUL in the buffer, and the search for `softirq`
leaves it. -/
theorem irqInfoMain_long : ¬ Right longStat longStat := by
  intro h
  have hfront : buffSize <= lateSoftirq.front.length := by
    have hsize : buffSize = 65535 := rfl
    simp only [lateSoftirq, List.length_append, zeros_length]
    omega
  have hnull : (0 : UInt8) ∉ lateSoftirq.front :=
    (reached_of_right h).left.left.right.null
  have hcontent : longStat.content = lateSoftirq.front ++
      (bytes "softirq" ++ [32, 53, newline]) :=
    lateSoftirq_content.symm
  rcases (reached_of_right h).left.right with hshort | hmem
  · rw [hcontent, List.length_append] at hshort
    omega
  · rw [hcontent, List.take_append_of_le_length hfront] at hmem
    exact hnull (List.mem_of_mem_take hmem)

end Customization
end Lepd
