import Lepd.CJson.CutPlaces
import Lepd.CJson.RoundTrip
import Lepd.Foundation.Programs
import Lepd.Foundation.Writer

/-!
# The buffers of the printer

Each printer first adds up the size of its text, allocates a block of that size,
and then stores the text in it. The model stores byte by byte and answers
nothing when a byte would be stored behind the end of the block.
-/

namespace Lepd
namespace CJson
namespace PrintBuffers

open Foundation
open Foundation.Program
open Foundation.Writer

/-!
# Allocation
-/

/-- What the allocations answer, in their order: a null pointer, or a block with
its old contents. -/
abbrev Heap : Type :=
  Nat -> Option (Nat -> UInt8)

abbrev Printing (value : Type) : Type :=
  Program Nat value

def malloc (heap : Heap) (n : Nat) : Printing (Option (List UInt8)) :=
  fun k => some ((heap k).map (fun bytes => (List.range n).map bytes), k + 1)

def compose (heap : Heap) (len : Nat)
    (write : Writer UInt8 -> Option (Writer UInt8)) :
    Printing (Option (List UInt8)) := do
  match <- malloc heap len with
  | none => return none
  | some out =>
      let w <- StateT.lift (write (start out))
      let text <- StateT.lift (w.string nul)
      return some text

def cJSONStrdup (heap : Heap) (str : List UInt8) : Printing (Option (List UInt8)) :=
  compose heap (str.length + 1) (memcpy (str ++ [nul]))

/-!
# Strings
-/

/-- The loop that adds up the size of a string. -/
def stringLength : List UInt8 -> Nat -> Nat
  | [], len => len
  | token :: str, len =>
      if token ∈ [quote, backslash, 8, 12, 10, 13, 9] then
        stringLength str (len + 1 + 1)
      else if token < 32 then stringLength str (len + 1 + 5)
      else stringLength str (len + 1)

def escapeLetter (token : UInt8) : Option UInt8 :=
  if token = backslash then some backslash
  else if token = quote then some quote
  else if token = 8 then some 98
  else if token = 12 then some 102
  else if token = 10 then some 110
  else if token = 13 then some 114
  else if token = 9 then some 116
  else none

def putChar (c : UInt8) (w : Writer UInt8) : Option (Writer UInt8) :=
  if 31 < c ∧ c ≠ quote ∧ c ≠ backslash then put c w
  else do
    let w <- put backslash w
    match escapeLetter c with
    | some letter => put letter w
    | none =>
        copy nul [lowerU, zeroDigit, zeroDigit, hexDigitText (c.toNat / 16),
          hexDigitText (c.toNat % 16)] w

def putChars : List UInt8 -> Writer UInt8 -> Option (Writer UInt8)
  | [], w => some w
  | c :: str, w => do
      let w <- putChar c w
      putChars str w

def putString (str : List UInt8) (w : Writer UInt8) : Option (Writer UInt8) := do
  let w <- put quote w
  let w <- putChars str w
  let w <- put quote w
  put nul w

def printStringPtr (heap : Heap) : Option (List UInt8) -> Printing
    (Option (List UInt8))
  | none => cJSONStrdup heap []
  | some str =>
      compose heap (stringLength (cString str) 0 + 3) (putString (cString str))

/-!
# Containers
-/

def putEntries (fmt : Bool) : List (List UInt8) -> Writer UInt8 ->
    Option (Writer UInt8)
  | [], w => some w
  | [entry], w => copy nul entry w
  | entry :: entries, w => do
      let w <- copy nul entry w
      let w <- put comma w
      let w <- optionally fmt (put 32) w
      let w <- store nul w
      putEntries fmt entries w

def putArray (fmt : Bool) (entries : List (List UInt8)) (w : Writer UInt8) :
    Option (Writer UInt8) := do
  let w <- put lbracket w
  let w <- store nul w
  let w <- putEntries fmt entries w
  let w <- put rbracket w
  put nul w

def putMembers (depth : Nat) (fmt : Bool) :
    List (List UInt8 × List UInt8) -> Writer UInt8 -> Option (Writer UInt8)
  | [], w => some w
  | (name, entry) :: entries, w => do
      let w <- optionally fmt (fill tab depth) w
      let w <- copy nul name w
      let w <- put colon w
      let w <- optionally fmt (put tab) w
      let w <- copy nul entry w
      let w <- optionally (!entries.isEmpty) (put comma) w
      let w <- optionally fmt (put newline) w
      let w <- store nul w
      putMembers depth fmt entries w

/-- `depth` is the one of the members. -/
def putObject (depth : Nat) (fmt : Bool)
    (entries : List (List UInt8 × List UInt8)) (w : Writer UInt8) :
    Option (Writer UInt8) := do
  let w <- put lbrace w
  let w <- optionally fmt (put newline) w
  let w <- store nul w
  let w <- putMembers depth fmt entries w
  let w <- optionally fmt (fill tab (depth - 1)) w
  let w <- put rbrace w
  put nul w

/-!
# Trees
-/

/-- An item as the printer meets it: names and strings may be null pointers, and
types unknown. -/
inductive Tree (double : Type) where
  | null
  | false
  | true
  | number (valuedouble : double) (valueint : Int)
  | string (valuestring : Option (List UInt8))
  | array (child : List (Tree double))
  | object (child : List (Option (List UInt8) × Tree double))
  | unknown

variable {double : Type} [CPrintf double]

def numberRoom (d : double) (valueint : Int) : Nat :=
  if CPrintf.le (CPrintf.fabs (CPrintf.sub (CDouble.ofInt valueint) d))
    CPrintf.epsilon ∧
      CPrintf.le d (CDouble.ofInt (2 ^ 31 - 1)) ∧
        CPrintf.le (CDouble.ofInt (-2 ^ 31)) d then 21
  else 64

def printNumber (heap : Heap) (d : double) (valueint : Int) :
    Printing (Option (List UInt8)) := do
  match <- malloc heap (numberRoom d valueint) with
  | none => return none
  | some _ => return some (cString (CJson.printNumber d valueint))

def printArray (heap : Heap) (fmt : Bool) (numentries : Nat)
    (retrieve : Nat -> Printing (Option (List (List UInt8) × Nat))) :
    Printing (Option (List UInt8)) := do
  match <- malloc heap (8 * numentries) with
  | none => return none
  | some _ =>
      match <- retrieve 5 with
      | none => return none
      | some (entries, len) => compose heap len (putArray fmt entries)

/-- `print_object`, with the loop that retrieves names and entries, which are of
the given depth. -/
def printObject (heap : Heap) (depth : Nat) (fmt : Bool) (numentries : Nat)
    (retrieve : Nat -> Printing (Option (List (List UInt8 × List UInt8) × Nat))) :
    Printing (Option (List UInt8)) := do
  match <- malloc heap (8 * numentries) with
  | none => return none
  | some _ =>
      match <- malloc heap (8 * numentries) with
      | none => return none
      | some _ =>
          match <- retrieve (7 + if fmt then depth else 0) with
          | none => return none
          | some (entries, len) => compose heap len (putObject depth fmt entries)

mutual

/-- `print_value`. -/
def printValue (heap : Heap) (depth : Nat) (fmt : Bool) :
    Tree double -> Printing (Option (List UInt8))
  | .null => cJSONStrdup heap nullText
  | .false => cJSONStrdup heap falseText
  | .true => cJSONStrdup heap trueText
  | .number d i => printNumber heap d i
  | .string s => printStringPtr heap s
  | .array child =>
      printArray heap fmt child.length (printEntries heap (depth + 1) fmt child)
  | .object child =>
      printObject heap (depth + 1) fmt child.length
        (printMembers heap (depth + 1) fmt child)
  | .unknown => return none

def printEntries (heap : Heap) (depth : Nat) (fmt : Bool) :
    List (Tree double) -> Nat -> Printing (Option (List (List UInt8) × Nat))
  | [], len => return some ([], len)
  | item :: items, len => do
      match <- printValue heap depth fmt item with
      | none => return none
      | some ret =>
          let rest <- printEntries heap depth fmt items
              (len + (ret.length + 2 + if fmt then 1 else 0))
          return rest.map (fun r => (ret :: r.1, r.2))

/-- A failure does not end this loop. -/
def printMembers (heap : Heap) (depth : Nat) (fmt : Bool) :
    List (Option (List UInt8) × Tree double) -> Nat ->
      Printing (Option (List (List UInt8 × List UInt8) × Nat))
  | [], len => return some ([], len)
  | (name, item) :: members, len => do
      let str <- printStringPtr heap name
      let ret <- printValue heap depth fmt item
      match str, ret with
      | some str, some ret =>
          let rest <- printMembers heap depth fmt members
            (len + (ret.length + str.length + 2 + if fmt then 2 + depth else 0))
          return rest.map (fun r => ((str, ret) :: r.1, r.2))
      | _, _ =>
          let _ <- printMembers heap depth fmt members len
          return none

end

/-!
# What the printers store
-/

theorem escape_eq (c : UInt8) :
    escape c = if 31 < c ∧ c ≠ quote ∧ c ≠ backslash then [c]
      else backslash :: (match escapeLetter c with
        | some letter => [letter]
        | none =>
            [lowerU, zeroDigit, zeroDigit, hexDigitText (c.toNat / 16),
            hexDigitText (c.toNat % 16)]) := by
  unfold escape escapeLetter
  split
  · rfl
  · iterate 7
      split
      · rfl
    rfl

theorem appends_putChar (c : UInt8) : Appends (putChar c) (escape c)
    ((escape c).length + 1) := by
  rw [escape_eq]
  unfold putChar
  by_cases hplain : 31 < c ∧ c ≠ quote ∧ c ≠ backslash
  · simp only [if_pos hplain]
    exact (appends_put c).mono (by simp)
  · simp only [if_neg hplain]
    cases escapeLetter c with
    | some letter =>
        exact (Appends.bind (appends_put backslash) (appends_put letter)).mono
          (by simp)
    | none =>
        exact (Appends.bind (appends_put backslash) (appends_copy nul _)).mono
          (by simp)

theorem appends_putChars (str : List UInt8) :
    Appends (putChars str) (str.map escape).flatten
      ((str.map escape).flatten.length + 1) := by
  induction str with
  | nil =>
      exact appends_none.mono (Nat.zero_le _)
  | cons c str ih =>
      apply (Appends.bind (appends_putChar c) ih).congr
      · rw [List.map_cons, List.flatten_cons]
      · rw [List.map_cons, List.flatten_cons, List.length_append]
        omega

theorem appends_putString (str : List UInt8) :
    Appends (putString str) (CJson.printStringPtr str ++ [nul])
      ((str.map escape).flatten.length + 3) := by
  apply (Appends.bind (appends_put quote) (Appends.bind (appends_putChars str)
    (Appends.bind (appends_put quote) (appends_put nul)))).congr
  · simp [CJson.printStringPtr]
  · simp only [List.length_singleton]
    omega

example : (putString [1] (start (List.replicate 9 nul))).isSome = true ∧
    putString [1] (start (List.replicate 8 nul)) = none := ⟨rfl, rfl⟩

abbrev shortEscapes : List UInt8 :=
  [quote, backslash, 8, 12, 10, 13, 9]

theorem escape_length (c : UInt8) :
    (escape c).length = if c ∈ shortEscapes then 2 else if c < 32 then 6
    else 1 := by
  by_cases hshort : c ∈ shortEscapes
  · rw [if_pos hshort]
    simp only [List.mem_cons, List.not_mem_nil, or_false] at hshort
    rcases hshort with rfl | rfl | rfl | rfl | rfl | rfl | rfl
    all_goals rfl
  · have hletter : escapeLetter c = none := by
      simp only [List.mem_cons, List.not_mem_nil, or_false, not_or] at hshort
      simp [escapeLetter, hshort]
    have hquote : c ≠ quote := fun h => hshort (h ▸ List.mem_cons_self)
    have hbackslash : c ≠ backslash := fun h =>
      hshort (h ▸ List.mem_cons_of_mem _ List.mem_cons_self)
    rw [if_neg hshort, escape_eq, hletter]
    by_cases hcontrol : c < 32
    · have hplain : ¬ (31 < c ∧ c ≠ quote ∧ c ≠ backslash) := by
        intro h
        have hless := UInt8.lt_iff_toNat_lt.mp hcontrol
        have hmore := UInt8.lt_iff_toNat_lt.mp h.left
        simp at hless hmore
        omega
      rw [if_pos hcontrol, if_neg hplain]
      rfl
    · have hplain : 31 < c ∧ c ≠ quote ∧ c ≠ backslash := by
        refine ⟨?_, hquote, hbackslash⟩
        rw [UInt8.lt_iff_toNat_lt] at hcontrol ⊢
        simp at hcontrol ⊢
        omega
      rw [if_neg hcontrol, if_pos hplain]
      rfl

theorem stringLength_eq (str : List UInt8) :
    forall len, stringLength str len = len + (str.map escape).flatten.length := by
  induction str with
  | nil =>
      intro len
      rfl
  | cons c str ih =>
      intro len
      rw [List.map_cons, List.flatten_cons, List.length_append, escape_length,
        stringLength]
      split
      · rw [ih]
        omega
      · split
        · rw [ih]
          omega
        · rw [ih]
          omega

theorem appends_putEntries (fmt : Bool) (entries : List (List UInt8)) :
    Appends (putEntries fmt entries) (composeArray fmt entries)
      ((composeArray fmt entries).length + 1) := by
  induction entries with
  | nil =>
      exact appends_none.mono (Nat.zero_le _)
  | cons entry entries ih =>
      cases entries with
      | nil =>
          exact appends_copy nul entry
      | cons entry' entries =>
          apply (Appends.bind (appends_copy nul entry)
            (Appends.bind (appends_put comma)
            (Appends.bind (Appends.optionally fmt (appends_put 32))
              (Appends.bind (appends_store nul) ih)))).congr
          · rfl
          · have hcompose : composeArray fmt (entry :: entry' :: entries) =
                entry ++ (comma :: ((if fmt then [32] else []) ++
                  composeArray fmt (entry' :: entries))) := rfl
            rw [hcompose]
            generalize composeArray fmt (entry' :: entries) = text
            cases fmt with
            | false =>
                simp
                omega
            | true =>
                simp
                omega

theorem appends_putArray (fmt : Bool) (entries : List (List UInt8)) :
    Appends (putArray fmt entries) (lbracket ::
      (composeArray fmt entries ++ [rbracket]) ++ [nul])
      ((composeArray fmt entries).length + 3) := by
  apply (Appends.bind (appends_put lbracket) (Appends.bind (appends_store nul)
    (Appends.bind (appends_putEntries fmt entries)
      (Appends.bind (appends_put rbracket) (appends_put nul))))).congr
  · simp
  · simp
    omega

theorem appends_putMembers (depth : Nat) (fmt : Bool)
    (entries : List (List UInt8 × List UInt8)) :
    Appends (putMembers depth fmt entries) (composeObject depth fmt entries)
      ((composeObject depth fmt entries).length + 1) := by
  induction entries with
  | nil =>
      exact appends_none.mono (Nat.zero_le _)
  | cons entry entries ih =>
      rcases entry with ⟨name, entry⟩
      apply (Appends.bind (Appends.optionally fmt (appends_fill tab depth))
        (Appends.bind (appends_copy nul name) (Appends.bind (appends_put colon)
          (Appends.bind (Appends.optionally fmt (appends_put tab))
            (Appends.bind (appends_copy nul entry)
            (Appends.bind (Appends.optionally (!entries.isEmpty)
              (appends_put comma))
              (Appends.bind (Appends.optionally fmt (appends_put newline))
                (Appends.bind (appends_store nul) ih)))))))).congr
      · cases hlast : entries.isEmpty with
        | false =>
            simp [composeObject, hlast]
        | true =>
            simp [composeObject, hlast]
      · cases fmt with
        | false =>
            cases hlast : entries.isEmpty with
            | false =>
                simp [composeObject, hlast]
                omega
            | true =>
                simp [composeObject, hlast]
                omega
        | true =>
            cases hlast : entries.isEmpty with
            | false =>
                simp [composeObject, hlast]
                omega
            | true =>
                simp [composeObject, hlast]
                omega

theorem appends_putObject (depth : Nat) (fmt : Bool)
    (entries : List (List UInt8 × List UInt8)) :
    Appends (putObject depth fmt entries)
      (lbrace :: ((if fmt then [newline] else []) ++
        (composeObject depth fmt entries ++
        ((if fmt then List.replicate (depth - 1) tab else []) ++ [rbrace]))) ++
          [nul])
      ((composeObject depth fmt entries).length + 4 + if fmt then depth
        else 0) := by
  apply (Appends.bind (appends_put lbrace)
    (Appends.bind (Appends.optionally fmt (appends_put newline))
    (Appends.bind (appends_store nul)
    (Appends.bind (appends_putMembers depth fmt entries)
      (Appends.bind (Appends.optionally fmt (appends_fill tab (depth - 1)))
        (Appends.bind (appends_put rbrace) (appends_put nul))))))).congr
  · simp
  · cases fmt with
    | false =>
        simp
        omega
    | true =>
        simp
        omega

/-!
# What is added up
-/

def entriesRoom (fmt : Bool) (entries : List (List UInt8)) : Nat :=
  (entries.map (fun entry => entry.length + 2 + if fmt then 1 else 0)).sum

def membersRoom (depth : Nat) (fmt : Bool)
    (entries : List (List UInt8 × List UInt8)) : Nat :=
  (entries.map (fun entry => entry.2.length + entry.1.length + 2 + if fmt then
    2 + depth else 0)).sum

theorem composeArray_length_le (fmt : Bool) (entries : List (List UInt8)) :
    (composeArray fmt entries).length <= entriesRoom fmt entries := by
  induction entries with
  | nil =>
      exact Nat.le_refl 0
  | cons entry entries ih =>
      have hroom : entriesRoom fmt (entry :: entries) =
          entry.length + 2 + (if fmt then 1 else 0) + entriesRoom fmt entries := by
        unfold entriesRoom
        rw [List.map_cons, List.sum_cons]
      rw [hroom]
      cases entries with
      | nil =>
          show entry.length <= _
          omega
      | cons entry' entries =>
          have hcompose : composeArray fmt (entry :: entry' :: entries) =
              entry ++ (comma :: ((if fmt then [32] else []) ++
                composeArray fmt (entry' :: entries))) := rfl
          have hblank : (if fmt then [32] else [] : List UInt8).length =
              if fmt then 1 else 0 :=
            apply_ite List.length _ _ _
          rw [hcompose, List.length_append, List.length_cons,
            List.length_append, hblank]
          omega

theorem composeObject_length_le (depth : Nat) (fmt : Bool)
    (entries : List (List UInt8 × List UInt8)) :
    (composeObject depth fmt entries).length <= membersRoom depth fmt entries := by
  induction entries with
  | nil =>
      exact Nat.le_refl 0
  | cons entry entries ih =>
      rcases entry with ⟨name, entry⟩
      have hroom : membersRoom depth fmt ((name, entry) :: entries) =
          entry.length + name.length + 2 + (if fmt then 2 + depth else 0) +
            membersRoom depth fmt entries := by
        unfold membersRoom
        rw [List.map_cons, List.sum_cons]
      have hcomma : (if entries.isEmpty then [] else [comma] :
        List UInt8).length <= 1 := by
        cases entries.isEmpty with
        | false =>
            exact Nat.le_refl 1
        | true =>
            exact Nat.zero_le 1
      rw [hroom, composeObject]
      cases fmt with
      | false =>
          simp at hcomma ⊢
          omega
      | true =>
          simp at hcomma ⊢
          omega

/-!
# No null byte inside of a text
-/

theorem nul_not_mem_printStringPtr (str : List UInt8) :
    nul ∉ CJson.printStringPtr str := by
  rw [printStringPtr_eq]
  exact nul_not_mem_stringText _

theorem nul_not_mem_cString (bytes : List UInt8) : nul ∉ cString bytes := by
  intro hmem
  have hne := List.mem_takeWhile_imp hmem
  simp at hne

theorem nul_not_mem_fmt (fmt : Bool) {w : List UInt8} (h : nul ∉ w) :
    nul ∉ (if fmt then w else []) := by
  cases fmt with
  | false =>
      exact List.not_mem_nil
  | true =>
      exact h

theorem nul_not_mem_tabs (n : Nat) : nul ∉ List.replicate n tab := by
  intro h
  exact absurd (List.eq_of_mem_replicate h) (by decide)

theorem nul_not_mem_composeArray (fmt : Bool) {entries : List (List UInt8)}
    (h : forall entry, entry ∈ entries -> nul ∉ entry) :
    nul ∉ composeArray fmt entries := by
  induction entries with
  | nil =>
      exact List.not_mem_nil
  | cons entry entries ih =>
      have hentry : nul ∉ entry := h entry List.mem_cons_self
      cases entries with
      | nil =>
          exact hentry
      | cons entry' entries =>
          have hrest := ih (fun e he => h e (List.mem_cons_of_mem entry he))
          have hblank : nul ∉ (if fmt then [32] else [] : List UInt8) :=
            nul_not_mem_fmt fmt (by decide)
          have hcompose : composeArray fmt (entry :: entry' :: entries) =
              entry ++ (comma :: ((if fmt then [32] else []) ++
                composeArray fmt (entry' :: entries))) := rfl
          rw [hcompose, List.mem_append, List.mem_cons, List.mem_append]
          simp only [not_or]
          exact ⟨hentry, by decide, hblank, hrest⟩

theorem nul_not_mem_composeObject (depth : Nat) (fmt : Bool)
    {entries : List (List UInt8 × List UInt8)}
    (h : forall entry, entry ∈ entries -> nul ∉ entry.1 ∧ nul ∉ entry.2) :
    nul ∉ composeObject depth fmt entries := by
  induction entries with
  | nil =>
      exact List.not_mem_nil
  | cons entry entries ih =>
      rcases entry with ⟨name, entry⟩
      rcases h (name, entry) List.mem_cons_self with ⟨hname, hentry⟩
      have hrest := ih (fun e he => h e (List.mem_cons_of_mem _ he))
      have hcomma : nul ∉ (if entries.isEmpty then [] else [comma] :
        List UInt8) := by
        cases entries.isEmpty with
        | false =>
            decide
        | true =>
            exact List.not_mem_nil
      rw [composeObject]
      simp only [List.mem_append, List.mem_cons, not_or]
      refine ⟨⟨nul_not_mem_fmt fmt (nul_not_mem_tabs depth),
        hname⟩, by decide, ⟨⟨⟨?_, hentry⟩, hcomma⟩, ?_⟩, hrest⟩
      · exact nul_not_mem_fmt fmt (by decide)
      · exact nul_not_mem_fmt fmt (by decide)

/-!
# The printers
-/

/-- A null pointer only if `bad` holds, and otherwise something `good`. -/
def Yields {value : Type} (bad : Prop) (good : value -> Prop) : Option value -> Prop
  | none => bad
  | some r => good r

theorem Yields.mono {value : Type} {bad bad' : Prop}
    {good good' : value -> Prop} (hbad : bad -> bad')
    (hgood : forall r, good r -> good' r) (r : Option value)
    (h : Yields bad good r) : Yields bad' good' r := by
  cases r with
  | none =>
      exact hbad h
  | some r =>
      exact hgood r h

theorem malloc_answers (heap : Heap) (n : Nat) :
    Answers (malloc heap n) (Yields (exists k, heap k = none)
      (fun out => out.length = n)) := by
  intro k _
  refine ⟨_, k + 1, rfl, ?_⟩
  cases hheap : heap k with
  | none =>
      exact ⟨k, hheap⟩
  | some bytes =>
      show ((List.range n).map bytes).length = n
      rw [List.length_map, List.length_range]

/-- A text that fits into the size added up for it is stored and read back. -/
theorem compose_answers (heap : Heap) {len reach : Nat}
    {write : Writer UInt8 -> Option (Writer UInt8)}
    {text : List UInt8} (h : Appends write (text ++ [nul]) reach)
    (hroom : reach <= len) (hnul : nul ∉ text) :
    Answers (compose heap len write)
      (Yields (exists k, heap k = none) (fun r => r = text)) := by
  apply (malloc_answers heap len).bind
  intro out hout
  cases out with
  | none =>
      exact Answers.pure hout
  | some out =>
      have hlength : out.length = len := hout
      rw [← hlength] at hroom
      rcases h.run hroom with ⟨w, hwrite, hholds⟩
      have hstring : w.string nul = some text := hholds.string hnul
      intro k _
      refine ⟨some text, k, ?_, rfl⟩
      show ((StateT.lift (write (start out)) : Printing _) k).bind _ = _
      rw [hwrite]
      show ((StateT.lift (w.string nul) : Printing _) k).bind _ = _
      rw [hstring]
      rfl

theorem cJSONStrdup_answers (heap : Heap) {str : List UInt8} (hnul : nul ∉ str) :
    Answers (cJSONStrdup heap str) (Yields (exists k, heap k = none)
      (fun r => r = str)) := by
  apply compose_answers heap (appends_memcpy (str ++ [nul])) _ hnul
  rw [List.length_append, List.length_singleton]

theorem printStringPtr_answers (heap : Heap) (str : List UInt8) :
    Answers (printStringPtr heap (some str))
      (Yields (exists k, heap k = none) (fun r =>
        r = CJson.printStringPtr (cString str))) := by
  apply compose_answers heap (appends_putString (cString str)) _
    (nul_not_mem_printStringPtr _)
  rw [stringLength_eq, Nat.zero_add]

theorem printNumber_answers {double : Type} [CPrintf double] (heap : Heap)
    (d : double) (i : Int) :
    Answers (printNumber heap d i)
      (Yields (exists k, heap k = none) (fun r =>
        r = cString (CJson.printNumber d i))) := by
  apply (malloc_answers heap _).bind
  intro out hout
  cases out with
  | none =>
      exact Answers.pure hout
  | some out =>
      exact Answers.pure rfl

section Containers

variable {heap : Heap} {fmt : Bool} {numentries depth : Nat} {bad : Prop}

/-- What is known of the entries that are retrieved, and of the size added up
for them. -/
theorem printArray_answers {retrieve : Nat ->
    Printing (Option (List (List UInt8) × Nat))}
    (good : List (List UInt8) -> Prop) (hheap : (exists k, heap k = none) -> bad)
    (h : forall len, Answers (retrieve len)
    (Yields bad (fun r => good r.1 ∧ r.2 = len + entriesRoom fmt r.1)))
    (hnul : forall entries, good entries -> forall entry, entry ∈ entries ->
    nul ∉ entry) :
    Answers (printArray heap fmt numentries retrieve)
      (Yields bad (fun r => exists entries, good entries ∧
        r = lbracket :: (composeArray fmt entries ++ [rbracket]))) := by
  apply (malloc_answers heap _).bind
  intro out hout
  cases out with
  | none =>
      exact Answers.pure (hheap hout)
  | some out =>
      apply (h 5).bind
      intro ret hret
      cases ret with
      | none =>
          exact Answers.pure hret
      | some ret =>
          rcases ret with ⟨entries, len⟩
          rcases hret with ⟨hgood, hlen⟩
          have hroom : (composeArray fmt entries).length + 3 <= len := by
            have hle := composeArray_length_le fmt entries
            have hsum : len = 5 + entriesRoom fmt entries := hlen
            omega
          have hbody := nul_not_mem_composeArray fmt (hnul entries hgood)
          have htext : nul ∉ lbracket ::
              (composeArray fmt entries ++ [rbracket]) := by
            rw [List.mem_cons, List.mem_append]
            simp only [not_or]
            exact ⟨by decide, hbody, by decide⟩
          apply (compose_answers heap (appends_putArray fmt entries) hroom
            htext).mono
          apply Yields.mono hheap
          intro r hr
          exact ⟨entries, hgood, hr⟩

theorem printObject_answers {retrieve : Nat ->
    Printing (Option (List (List UInt8 × List UInt8) × Nat))}
    (good : List (List UInt8 × List UInt8) -> Prop)
    (hheap : (exists k, heap k = none) -> bad)
    (h : forall len, Answers (retrieve len)
      (Yields bad (fun r => good r.1 ∧ r.2 = len + membersRoom depth fmt r.1)))
    (hnul : forall entries, good entries -> forall entry, entry ∈ entries ->
    nul ∉ entry.1 ∧ nul ∉ entry.2) :
    Answers (printObject heap depth fmt numentries retrieve)
      (Yields bad (fun r => exists entries, good entries ∧
        r = lbrace :: ((if fmt then [newline] else []) ++
          (composeObject depth fmt entries ++
          ((if fmt then List.replicate (depth - 1) tab else []) ++
            [rbrace]))))) := by
  apply (malloc_answers heap _).bind
  intro out hout
  cases out with
  | none =>
      exact Answers.pure (hheap hout)
  | some out =>
      apply (malloc_answers heap _).bind
      intro names hnames
      cases names with
      | none =>
          exact Answers.pure (hheap hnames)
      | some names =>
          apply (h (7 + if fmt then depth else 0)).bind
          intro ret hret
          cases ret with
          | none =>
              exact Answers.pure hret
          | some ret =>
              rcases ret with ⟨entries, len⟩
              rcases hret with ⟨hgood, hlen⟩
              have hroom : (composeObject depth fmt entries).length + 4 +
                  (if fmt then depth else 0) <= len := by
                have hle := composeObject_length_le depth fmt entries
                have hsum : len = 7 + (if fmt then depth else 0) +
                    membersRoom depth fmt entries := hlen
                omega
              have hbody := nul_not_mem_composeObject depth fmt (hnul entries hgood)
              have htext : nul ∉ lbrace ::
                  ((if fmt then [newline] else []) ++
                (composeObject depth fmt entries ++
                  ((if fmt then List.replicate (depth - 1) tab else []) ++
                    [rbrace]))) := by
                simp only [List.mem_append, List.mem_cons, not_or]
                exact ⟨by decide, nul_not_mem_fmt fmt (by decide), hbody,
                  nul_not_mem_fmt fmt
                    (nul_not_mem_tabs _), by decide, List.not_mem_nil⟩
              apply (compose_answers heap (appends_putObject depth fmt entries)
                hroom htext).mono
              apply Yields.mono hheap
              intro r hr
              exact ⟨entries, hgood, hr⟩

end Containers

section Retrieving

variable {double source : Type} [CPrintf double] {heap : Heap} {depth : Nat}
  {fmt : Bool} {bad : Prop}

/-- The loop that retrieves the entries of an array, by what is known of each
entry. -/
theorem printEntries_answers (node : source -> Tree double)
    (good : source -> List UInt8 -> Prop)
    {items : List source}
    (h : forall i, i ∈ items -> Answers (printValue heap depth fmt (node i))
    (Yields bad (good i))) :
    forall len, Answers (printEntries heap depth fmt (items.map node) len)
      (Yields bad (fun r => List.Forall₂ good items r.1 ∧
        r.2 = len + entriesRoom fmt r.1)) := by
  induction items with
  | nil =>
      intro len
      rw [List.map_nil, printEntries]
      exact Answers.pure ⟨List.Forall₂.nil, rfl⟩
  | cons item items ih =>
      intro len
      rw [List.map_cons, printEntries]
      apply (h item List.mem_cons_self).bind
      intro ret hret
      cases ret with
      | none =>
          exact Answers.pure hret
      | some ret =>
          apply (ih (fun i hi => h i (List.mem_cons_of_mem item hi)) _).bind
          intro rest hrest
          apply Answers.pure
          cases rest with
          | none =>
              exact hrest
          | some rest =>
              rcases hrest with ⟨hgood, hlen⟩
              refine ⟨List.Forall₂.cons hret hgood, ?_⟩
              show rest.2 = _
              rw [hlen, entriesRoom, entriesRoom, List.map_cons, List.sum_cons,
                Nat.add_assoc]

theorem printMembers_answers (name : source -> Option (List UInt8))
    (node : source -> Tree double)
    (goodName good : source -> List UInt8 -> Prop) {members : List source}
    (hname : forall m, m ∈ members -> Answers (printStringPtr heap (name m))
    (Yields bad (goodName m)))
    (h : forall m, m ∈ members -> Answers (printValue heap depth fmt (node m))
    (Yields bad (good m))) :
    forall len,
      Answers (printMembers heap depth fmt
      (members.map (fun m => (name m, node m))) len)
      (Yields bad (fun r => List.Forall₂ (fun m e => goodName m e.1 ∧
        good m e.2) members r.1 ∧
        r.2 = len + membersRoom depth fmt r.1)) := by
  induction members with
  | nil =>
      intro len
      rw [List.map_nil, printMembers]
      exact Answers.pure ⟨List.Forall₂.nil, rfl⟩
  | cons m members ih =>
      intro len
      have hrest := ih (fun i hi => hname i (List.mem_cons_of_mem m hi))
        (fun i hi => h i (List.mem_cons_of_mem m hi))
      rw [List.map_cons, printMembers]
      apply (hname m List.mem_cons_self).bind
      intro str hstr
      apply (h m List.mem_cons_self).bind
      intro ret hret
      cases str with
      | none =>
          apply (hrest len).bind
          intro _ _
          exact Answers.pure hstr
      | some str =>
          cases ret with
          | none =>
              apply (hrest len).bind
              intro _ _
              exact Answers.pure hret
          | some ret =>
              apply (hrest _).bind
              intro rest hrest
              apply Answers.pure
              cases rest with
              | none =>
                  exact hrest
              | some rest =>
                  rcases hrest with ⟨hgood, hlen⟩
                  refine ⟨List.Forall₂.cons ⟨hstr, hret⟩ hgood, ?_⟩
                  show rest.2 = _
                  rw [hlen, membersRoom, membersRoom, List.map_cons,
                    List.sum_cons, Nat.add_assoc]

end Retrieving

/-!
# Every tree
-/

section Trees

variable {double : Type}

theorem yields_nul {bad : Prop} {text : List UInt8} (h : nul ∉ text)
    (r : Option (List UInt8))
    (hr : Yields bad (fun r => r = text) r) : Yields True (fun r => nul ∉ r) r :=
  Yields.mono (fun _ => trivial) (fun _ hr => hr ▸ h) r hr

theorem printStringPtr_yields (heap : Heap) (str : Option (List UInt8)) :
    Answers (printStringPtr heap str) (Yields True (fun r => nul ∉ r)) := by
  cases str with
  | none =>
      exact (cJSONStrdup_answers heap List.not_mem_nil).mono
        (yields_nul List.not_mem_nil)
  | some str =>
      exact (printStringPtr_answers heap str).mono
        (yields_nul (nul_not_mem_printStringPtr _))

theorem mem_right {α β : Type} {R : α -> β -> Prop} {as : List α} {bs : List β}
    (h : List.Forall₂ R as bs) :
    forall b, b ∈ bs -> exists a, R a b := by
  induction h with
  | nil =>
      intro b hb
      cases hb
  | @cons a b as bs hab _ ih =>
      intro c hc
      rcases List.mem_cons.mp hc with rfl | hc
      · exact ⟨a, hab⟩
      · exact ih c hc

section Containers

variable [CPrintf double] {heap : Heap} {depth : Nat} {fmt : Bool}

theorem printEntries_yields {child : List (Tree double)}
    (h : forall item, item ∈ child -> Answers (printValue heap depth fmt item)
    (Yields True (fun r => nul ∉ r)))
    (len : Nat) :
    Answers (printEntries heap depth fmt child len)
      (Yields True (fun r => (forall entry, entry ∈ r.1 -> nul ∉ entry) ∧
        r.2 = len + entriesRoom fmt r.1)) := by
  have hretrieve := printEntries_answers id (fun _ r => nul ∉ r) h len
  rw [List.map_id] at hretrieve
  apply hretrieve.mono
  apply Yields.mono id
  intro r hr
  refine ⟨?_, hr.right⟩
  intro entry hentry
  rcases mem_right hr.left entry hentry with ⟨_, hfree⟩
  exact hfree

theorem printMembers_yields {child : List (Option (List UInt8) × Tree double)}
    (h : forall m, m ∈ child -> Answers (printValue heap depth fmt m.2)
    (Yields True (fun r => nul ∉ r)))
    (len : Nat) :
    Answers (printMembers heap depth fmt child len)
      (Yields True (fun r => (forall entry, entry ∈ r.1 -> nul ∉ entry.1 ∧
        nul ∉ entry.2) ∧
        r.2 = len + membersRoom depth fmt r.1)) := by
  have hretrieve := printMembers_answers Prod.fst Prod.snd (fun _ r => nul ∉ r)
    (fun _ r => nul ∉ r)
    (fun m _ => printStringPtr_yields heap m.1) h len
  rw [List.map_id'' (fun _ => rfl)] at hretrieve
  apply hretrieve.mono
  apply Yields.mono id
  intro r hr
  refine ⟨?_, hr.right⟩
  intro entry hentry
  rcases mem_right hr.left entry hentry with ⟨_, hfree⟩
  exact hfree

theorem printArray_yields {child : List (Tree double)}
    (h : forall item, item ∈ child ->
      Answers (printValue heap (depth + 1) fmt item)
        (Yields True (fun r => nul ∉ r))) :
    Answers (printValue heap depth fmt (.array child))
      (Yields True (fun r => nul ∉ r)) := by
  rw [printValue]
  apply (printArray_answers _ (fun _ => trivial) (printEntries_yields h)
    (fun _ => id)).mono
  apply Yields.mono (fun _ => trivial)
  rintro r ⟨entries, hentries, rfl⟩
  rw [List.mem_cons, List.mem_append]
  simp only [not_or]
  exact ⟨by decide, nul_not_mem_composeArray fmt hentries, by decide⟩

theorem printObject_yields {child : List (Option (List UInt8) × Tree double)}
    (h : forall m, m ∈ child ->
      Answers (printValue heap (depth + 1) fmt m.2)
        (Yields True (fun r => nul ∉ r))) :
    Answers (printValue heap depth fmt (.object child))
      (Yields True (fun r => nul ∉ r)) := by
  rw [printValue]
  apply (printObject_answers _ (fun _ => trivial) (printMembers_yields h)
    (fun _ => id)).mono
  apply Yields.mono (fun _ => trivial)
  rintro r ⟨entries, hentries, rfl⟩
  simp only [List.mem_append, List.mem_cons, not_or]
  exact ⟨by decide, nul_not_mem_fmt fmt (by decide),
    nul_not_mem_composeObject _ fmt hentries,
    nul_not_mem_fmt fmt (nul_not_mem_tabs _), by decide, List.not_mem_nil⟩

end Containers

section Run

variable [CPrintf double]

/-- Every tree is printed without a byte stored behind the end of a block, and
as a C string. -/
theorem printValue_yields (heap : Heap) (depth : Nat) (fmt : Bool)
    (item : Tree double) :
    Answers (printValue heap depth fmt item) (Yields True (fun r => nul ∉ r)) := by
  match item with
  | .null =>
      rw [printValue]
      exact (cJSONStrdup_answers heap (by decide)).mono (yields_nul (by decide))
  | .false =>
      rw [printValue]
      exact (cJSONStrdup_answers heap (by decide)).mono (yields_nul (by decide))
  | .true =>
      rw [printValue]
      exact (cJSONStrdup_answers heap (by decide)).mono (yields_nul (by decide))
  | .number d i =>
      rw [printValue]
      exact (printNumber_answers heap d i).mono (yields_nul (nul_not_mem_cString _))
  | .string s =>
      rw [printValue]
      exact printStringPtr_yields heap s
  | .array child =>
      exact printArray_yields (fun item _ =>
        printValue_yields heap (depth + 1) fmt item)
  | .object child =>
      exact printObject_yields (fun m hm => by
        have hless : sizeOf m.2 < sizeOf child := by
          rcases m with ⟨name, item⟩
          have hmem := List.sizeOf_lt_of_mem hm
          rw [Prod.mk.sizeOf_spec] at hmem
          show sizeOf item < sizeOf child
          omega
        exact printValue_yields heap (depth + 1) fmt m.2)
  | .unknown =>
      rw [printValue]
      exact Answers.pure trivial
termination_by item

/-- Every byte that is stored has room in a block of `len` bytes. -/
def Fits (len : Nat) (write : Writer UInt8 -> Option (Writer UInt8)) : Prop :=
  forall out : List UInt8, out.length = len -> exists w, write (start out) =
    some w ∧ w.ptr <= len

theorem fits_of_appends {len reach : Nat}
    {write : Writer UInt8 -> Option (Writer UInt8)} {cells : List UInt8}
    (h : Appends write cells reach) (hroom : reach <= len) : Fits len write := by
  intro out hout
  rw [← hout] at hroom ⊢
  rcases h.run hroom with ⟨w, hwrite, hholds⟩
  refine ⟨w, hwrite, ?_⟩
  rw [hholds.ptr]
  exact hholds.length_le

/--
The printers have room for what they store in blocks of the sizes they added up,
whatever the tree, and the whole tree is printed so.
-/
theorem printers_fit (heap : Heap) (depth : Nat) (fmt : Bool) :
    (forall str, Fits (stringLength str 0 + 3) (putString str)) ∧
      (forall child : List (Tree double),
        Answers (printEntries heap (depth + 1) fmt child 5)
        (Yields True (fun r => Fits r.2 (putArray fmt r.1)))) ∧
      (forall child : List (Option (List UInt8) × Tree double),
        Answers (printMembers heap (depth + 1) fmt child (7 + if fmt then
          depth + 1 else 0))
          (Yields True (fun r => Fits r.2 (putObject (depth + 1) fmt r.1)))) ∧
      (forall item : Tree double, Answers (printValue heap depth fmt item)
        (fun _ => True)) := by
  refine ⟨?_, ?_, ?_, ?_⟩
  · intro str
    apply fits_of_appends (appends_putString str)
    rw [stringLength_eq, Nat.zero_add]
  · intro child
    apply (printEntries_yields (fun item _ =>
      printValue_yields heap (depth + 1) fmt item) 5).mono
    apply Yields.mono id
    rintro ⟨entries, len⟩ ⟨_, hlen⟩
    have hsum : len = 5 + entriesRoom fmt entries := hlen
    have hle := composeArray_length_le fmt entries
    apply fits_of_appends (appends_putArray fmt entries)
    show _ <= len
    omega
  · intro child
    apply (printMembers_yields (fun m _ =>
      printValue_yields heap (depth + 1) fmt m.2) _).mono
    apply Yields.mono id
    rintro ⟨entries, len⟩ ⟨_, hlen⟩
    have hsum : len = 7 + (if fmt then depth + 1 else 0) +
        membersRoom (depth + 1) fmt entries := hlen
    have hle := composeObject_length_le (depth + 1) fmt entries
    apply fits_of_appends (appends_putObject (depth + 1) fmt entries)
    show _ <= len
    omega
  · intro item
    exact (printValue_yields heap depth fmt item).mono (fun _ _ => trivial)

end Run

/-!
# The texts in the blocks
-/

mutual

def tree : Item double -> Tree double
  | .null => .null
  | .false => .false
  | .true => .true
  | .number d i => .number d i
  | .string s => .string (some s)
  | .array child => .array (trees child)
  | .object child => .object (memberTrees child)

def trees : List (Item double) -> List (Tree double)
  | [] => []
  | item :: items => tree item :: trees items

def memberTrees : List (List UInt8 × Item double) ->
    List (Option (List UInt8) × Tree double)
  | [] => []
  | (name, item) :: members => (some name, tree item) :: memberTrees members

end

theorem trees_eq (items : List (Item double)) : trees items = items.map tree := by
  induction items with
  | nil =>
      rfl
  | cons item items ih =>
      rw [trees, ih]
      rfl

theorem memberTrees_eq (members : List (List UInt8 × Item double)) :
    memberTrees members = members.map (fun m => (some m.1, tree m.2)) := by
  induction members with
  | nil =>
      rfl
  | cons m members ih =>
      rcases m with ⟨name, item⟩
      rw [memberTrees, ih]
      rfl

variable [CPrintf double]

theorem printItems_of_forall₂ {depth : Nat} {fmt : Bool}
    {items : List (Item double)} :
    forall {entries : List (List UInt8)},
      List.Forall₂ (fun item r => r = CJson.printValue depth fmt item) items
        entries ->
        entries = printItems depth fmt items := by
  induction items with
  | nil =>
      intro entries h
      cases h
      rfl
  | cons item items ih =>
      intro entries h
      cases h with
      | cons hentry hrest =>
          rw [printItems, hentry, ih hrest]

theorem printMembers_of_forall₂ {depth : Nat} {fmt : Bool}
    {members : List (List UInt8 × Item double)} :
    forall {entries : List (List UInt8 × List UInt8)},
      List.Forall₂ (fun m e => e.1 = CJson.printStringPtr m.1 ∧
        e.2 = CJson.printValue depth fmt m.2)
        members entries -> entries = CJson.printMembers depth fmt members := by
  induction members with
  | nil =>
      intro entries h
      cases h
      rfl
  | cons m members ih =>
      intro entries h
      rcases m with ⟨name, item⟩
      cases h with
      | @cons _ e _ _ hentry hrest =>
          rcases e with ⟨str, ret⟩
          rw [CJson.printMembers, ← hentry.left, ← hentry.right, ih hrest]

variable [LawfulDouble double]

theorem nul_not_mem_printValue {item : Item double} (h : OnWire item)
    (depth : Nat) (fmt : Bool) :
    nul ∉ CJson.printValue depth fmt item :=
  nul_not_mem_denotes (denotes_printValue h depth fmt)

theorem nul_not_mem_printItems {depth : Nat} {fmt : Bool}
    {items : List (Item double)}
    (h : forall item, item ∈ items -> OnWire item) :
    forall entry, entry ∈ printItems depth fmt items -> nul ∉ entry := by
  induction items with
  | nil =>
      intro entry hentry
      cases hentry
  | cons item items ih =>
      intro entry hentry
      rw [printItems] at hentry
      rcases List.mem_cons.mp hentry with rfl | hentry
      · exact nul_not_mem_printValue (h item List.mem_cons_self) depth fmt
      · exact ih (fun i hi => h i (List.mem_cons_of_mem item hi)) entry hentry

theorem nul_not_mem_printMembers {depth : Nat} {fmt : Bool}
    {members : List (List UInt8 × Item double)}
    (h : forall m, m ∈ members -> OnWire m.2) :
    forall entry, entry ∈ CJson.printMembers depth fmt members ->
      nul ∉ entry.1 ∧ nul ∉ entry.2 := by
  induction members with
  | nil =>
      intro entry hentry
      cases hentry
  | cons m members ih =>
      intro entry hentry
      rcases m with ⟨name, item⟩
      rw [CJson.printMembers] at hentry
      rcases List.mem_cons.mp hentry with rfl | hentry
      · exact ⟨nul_not_mem_printStringPtr name,
          nul_not_mem_printValue (h (name, item) List.mem_cons_self) depth fmt⟩
      · exact ih (fun i hi => h i (List.mem_cons_of_mem _ hi)) entry hentry

theorem printValue_tree (heap : Heap) (fmt : Bool) {item : Item double}
    (h : OnWire item) (depth : Nat) :
    Answers (printValue heap depth fmt (tree item))
      (Yields (exists k, heap k = none) (fun r =>
        r = CJson.printValue depth fmt item)) := by
  induction h generalizing depth with
  | null =>
      rw [tree, printValue]
      exact cJSONStrdup_answers heap (by decide)
  | false =>
      rw [tree, printValue]
      exact cJSONStrdup_answers heap (by decide)
  | true =>
      rw [tree, printValue]
      exact cJSONStrdup_answers heap (by decide)
  | @number i hi =>
      rw [tree, printValue]
      have hdenotes : Denotes (.value (.number (CDouble.ofInt i) i) : Node double)
          (CJson.printNumber (CDouble.ofInt i : double) i) := denotes_printNumber hi
      have hnul := nul_not_mem_denotes hdenotes
      have htext := printNumber_answers heap (CDouble.ofInt i : double) i
      rw [cString_of_not_mem hnul] at htext
      exact htext
  | @string s hs =>
      rw [tree, printValue]
      have htext := printStringPtr_answers heap s
      rw [cString_of_not_mem hs] at htext
      exact htext
  | @array items hitems ih =>
      rw [tree, printValue, trees_eq]
      have hretrieve := printEntries_answers tree (fun item r =>
        r = CJson.printValue (depth + 1) fmt item)
        (fun item hitem => ih item hitem (depth + 1))
      have hentries : forall len, Answers
          (printEntries heap (depth + 1) fmt (items.map tree) len)
          (Yields (exists k, heap k = none)
            (fun r => r.1 = printItems (depth + 1) fmt items ∧
              r.2 = len + entriesRoom fmt r.1)) := by
        intro len
        apply (hretrieve len).mono
        apply Yields.mono id
        intro r hr
        exact ⟨printItems_of_forall₂ hr.left, hr.right⟩
      apply (printArray_answers (fun entries =>
        entries = printItems (depth + 1) fmt items) id hentries
        (fun _ heq => heq ▸ nul_not_mem_printItems hitems)).mono
      apply Yields.mono id
      rintro r ⟨entries, rfl, rfl⟩
      rfl
  | @object members hnames hmembers ih =>
      rw [tree, printValue, memberTrees_eq]
      have hname : forall m, m ∈ members -> Answers (printStringPtr heap (some m.1))
          (Yields (exists k, heap k = none) (fun r =>
            r = CJson.printStringPtr m.1)) := by
        intro m hm
        have htext := printStringPtr_answers heap m.1
        rw [cString_of_not_mem (hnames m hm)] at htext
        exact htext
      have hretrieve := printMembers_answers (fun m => some m.1) (fun m => tree m.2)
        (fun m r => r = CJson.printStringPtr m.1) (fun m r =>
          r = CJson.printValue (depth + 1) fmt m.2)
        hname (fun m hm => ih m hm (depth + 1))
      have hentries : forall len, Answers
          (printMembers heap (depth + 1) fmt
            (members.map (fun m => (some m.1, tree m.2))) len)
          (Yields (exists k, heap k = none) (fun r =>
            r.1 = CJson.printMembers (depth + 1) fmt members ∧
            r.2 = len + membersRoom (depth + 1) fmt r.1)) := by
        intro len
        apply (hretrieve len).mono
        apply Yields.mono id
        intro r hr
        exact ⟨printMembers_of_forall₂ hr.left, hr.right⟩
      apply (printObject_answers (fun entries =>
        entries = CJson.printMembers (depth + 1) fmt members) id hentries
        (fun _ heq => heq ▸ nul_not_mem_printMembers hmembers)).mono
      apply Yields.mono id
      rintro r ⟨entries, rfl, rfl⟩
      rfl

end Trees

end PrintBuffers
end CJson
end Lepd
