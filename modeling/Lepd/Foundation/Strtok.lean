import Lepd.Foundation.Block

/-!
# Tokenising in place

`strtok` with one delimiter, on a block that holds a string.  A call finds the next
token from an index on, ends it with a null cell, and says where to go on.
-/

namespace Lepd
namespace Foundation
namespace Strtok

variable {cell : Type} {null delim : cell} {word text rest mem : List cell}

/-!
# Tokens in a block
-/

/-- The token at an index, with a null cell behind it that is not behind a given
index. -/
def TokenAt (null : cell) (mem : List cell) (i start : Nat)
    (token : List cell) : Prop :=
  null ∉ token ∧ exists more, (mem.take (i + 1)).drop start = token ++ null :: more

theorem TokenAt.mono {mem' : List cell} {i j start : Nat} {token : List cell}
    (h : TokenAt null mem i start token) (hij : i <= j)
    (hsame : mem'.take (i + 1) = mem.take (i + 1)) :
    TokenAt null mem' j start token := by
  rcases h with ⟨hnull, more, hmore⟩
  have hstart : start <= (mem.take (i + 1)).length := by
    have hlength := congrArg List.length hmore
    rw [List.length_drop, List.length_append, List.length_cons] at hlength
    omega
  refine ⟨hnull, more ++ (mem'.take (j + 1)).drop (i + 1), ?_⟩
  have htake : (mem'.take (j + 1)).take (i + 1) = mem.take (i + 1) := by
    rw [List.take_take, Nat.min_eq_left (by omega), hsame]
  calc (mem'.take (j + 1)).drop start
      = ((mem'.take (j + 1)).take (i + 1) ++ (mem'.take (j + 1)).drop
        (i + 1)).drop start := by
        rw [List.take_append_drop]
    _ = token ++ null :: (more ++ (mem'.take (j + 1)).drop (i + 1)) := by
        rw [htake, List.drop_append_of_le_length hstart, hmore]
        simp

theorem dropWhile_cases (p : cell -> Bool) (text : List cell) :
    text.dropWhile p = [] ∨ exists c rest, text.dropWhile p = c :: rest ∧
      p c = false := by
  induction text with
  | nil =>
      exact Or.inl rfl
  | cons c text ih =>
      cases hc : p c with
      | false =>
          exact Or.inr ⟨c, text, List.dropWhile_cons_of_neg (by simp [hc]), hc⟩
      | true =>
          rw [List.dropWhile_cons_of_pos hc]
          exact ih

variable [DecidableEq cell]


/-- The words of a text, when the given cells of the current one were read
already. -/
def wordsFrom (delim : cell) (word : List cell) : List cell -> List (List cell)
  | [] => if word = [] then [] else [word]
  | c :: text =>
      if c = delim then
        if word = [] then wordsFrom delim [] text
        else word :: wordsFrom delim [] text
      else wordsFrom delim (word ++ [c]) text

/-- The words of a text: its maximal parts without a delimiter. -/
def words (delim : cell) (text : List cell) : List (List cell) :=
  wordsFrom delim [] text

theorem wordsFrom_eq (hword : delim ∉ word) :
    wordsFrom delim word text =
      ((word ++ text).splitOnP (fun c => c = delim)).filter (fun w => w ≠ []) := by
  have hfree : forall {w : List cell}, delim ∉ w -> forall c, c ∈ w ->
      decide (c = delim) = false := by
    intro w hw c hc
    have hne : c ≠ delim := fun heq => hw (heq ▸ hc)
    simpa using hne
  induction text generalizing word with
  | nil =>
      rw [List.append_nil, List.splitOnP_eq_singleton (hfree hword), wordsFrom]
      by_cases hnil : word = []
      · simp [hnil]
      · simp [hnil]
  | cons c text ih =>
      rw [wordsFrom]
      by_cases hc : c = delim
      · subst hc
        rw [List.splitOnP_append_cons_of_forall_mem (hfree hword) c
          (by simp) text, if_pos rfl,
          ih List.not_mem_nil, List.nil_append]
        by_cases hnil : word = []
        · simp [hnil]
        · simp [hnil]
      · have hnext : delim ∉ word ++ [c] := by
          simp [hword, Ne.symm hc]
        rw [if_neg hc, ih hnext, List.append_assoc]
        rfl

theorem words_eq (delim : cell) (text : List cell) :
    words delim text = (text.splitOnP (fun c => c = delim)).filter
      (fun w => w ≠ []) :=
  wordsFrom_eq List.not_mem_nil

theorem wordsFrom_free (word rest : List cell) (htext : delim ∉ text) :
    wordsFrom delim word (text ++ rest) = wordsFrom delim (word ++ text) rest := by
  induction text generalizing word with
  | nil =>
      simp
  | cons c text ih =>
      rw [List.mem_cons, not_or] at htext
      rw [List.cons_append, wordsFrom, if_neg (Ne.symm htext.left),
        ih _ htext.right, List.append_assoc]
      rfl

theorem words_delims (delim : cell) (n : Nat) (rest : List cell) :
    words delim (List.replicate n delim ++ rest) = words delim rest := by
  induction n with
  | zero =>
      rfl
  | succ n ih =>
      rw [List.replicate_succ, List.cons_append, words, wordsFrom, if_pos rfl,
        if_pos rfl]
      exact ih

theorem words_last (hword : delim ∉ word) (hne : word ≠ []) :
    words delim word = [word] := by
  have hfree := wordsFrom_free [] [] hword
  rw [List.append_nil, List.nil_append, wordsFrom, if_neg hne] at hfree
  exact hfree

theorem words_first (hword : delim ∉ word) (hne : word ≠ []) :
    words delim (word ++ delim :: rest) = word :: words delim rest := by
  rw [words, wordsFrom_free [] _ hword, List.nil_append, wordsFrom, if_pos rfl,
    if_neg hne]
  rfl

/-!
# One call
-/

/-- What a call leaves: the block, where the next one goes on, and where the
token is. -/
structure Scanned (cell : Type) where
  mem : List cell
  next : Nat
  token : Option Nat

/-- A call of `strtok` that starts at an index; outside of the block there is no
answer. -/
def scan (null delim : cell) (mem : List cell) (i : Nat) : Option (Scanned cell) :=
  match Block.strlen null mem i with
  | none => none
  | some _ =>
      let text := Block.string null mem i
      let start := i + (text.takeWhile (fun c => c = delim)).length
      let token := (text.dropWhile (fun c => c = delim)).takeWhile
        (fun c => c ≠ delim)
      let stop := start + token.length
      if token = [] then some { mem := mem, next := start, token := none }
      else if mem[stop]? = some null then
        some { mem := mem, next := stop, token := some start }
      else some { mem := mem.set stop null, next := stop + 1, token := some start }

/-- A text splits into delimiters, a word, and what starts with the next
delimiter. -/
theorem split_first (delim : cell) (text : List cell) :
    exists n word after, text = List.replicate n delim ++ (word ++ after) ∧
      delim ∉ word ∧
      (text.takeWhile (fun c => c = delim)).length = n ∧
      (text.dropWhile (fun c => c = delim)).takeWhile (fun c => c ≠ delim) = word ∧
      (after = [] ∨ exists rest, after = delim :: rest ∧ word ≠ []) := by
  have hdelims : text.takeWhile (fun c => c = delim) =
      List.replicate (text.takeWhile (fun c => c = delim)).length delim := by
    refine List.eq_replicate_of_mem (fun c hc => ?_)
    simpa using List.mem_takeWhile_imp hc
  have htext := List.takeWhile_append_dropWhile (p :=
    fun c => decide (c = delim)) (l := text)
  have hbody := dropWhile_cases (fun c => decide (c = delim)) text
  generalize text.dropWhile (fun c => c = delim) = body at htext hbody ⊢
  have hafter := dropWhile_cases (fun c => decide (c ≠ delim)) body
  have hsplit := List.takeWhile_append_dropWhile (p :=
    fun c => decide (c ≠ delim)) (l := body)
  refine ⟨_, _, body.dropWhile (fun c => c ≠ delim), ?_, ?_, rfl, rfl, ?_⟩
  · rw [hsplit, ← hdelims, htext]
  · intro hmem
    have hne := List.mem_takeWhile_imp hmem
    simp at hne
  · rcases hafter with hnil | ⟨c, rest, hcons, hc⟩
    · exact Or.inl hnil
    · have heq : c = delim := by
        simpa using hc
      subst heq
      refine Or.inr ⟨rest, hcons, ?_⟩
      intro hword
      rw [hword, List.nil_append, hcons] at hsplit
      rcases hbody with hnil | ⟨d, more, hcons', hd⟩
      · rw [hnil] at hsplit
        cases hsplit
      · rw [hcons'] at hsplit
        cases hsplit
        simp at hd

theorem TokenAt.string {i start : Nat} {token : List cell}
    (h : TokenAt null mem i start token) :
    Block.string null mem start = token := by
  rcases h with ⟨hnull, more, hmore⟩
  have hstart : start <= (mem.take (i + 1)).length := by
    have hlength := congrArg List.length hmore
    rw [List.length_drop, List.length_append, List.length_cons] at hlength
    omega
  have hdrop : mem.drop start = token ++ null :: (more ++ mem.drop (i + 1)) := by
    calc mem.drop start
        = (mem.take (i + 1) ++ mem.drop (i + 1)).drop start := by
          rw [List.take_append_drop]
      _ = token ++ null :: (more ++ mem.drop (i + 1)) := by
          rw [List.drop_append_of_le_length hstart, hmore]
          simp
  exact Block.string_of_drop hnull hdrop

/-!
# What a call does
-/

theorem scan_none {i n : Nat} (hnull : null ∉ List.replicate n delim)
    (h : mem.drop i = List.replicate n delim ++ [null]) :
    scan null delim mem i = some { mem := mem, next := i + n, token := none } := by
  have hstring := Block.string_of_drop hnull h
  have hstrlen := Block.strlen_of_drop hnull h
  have hall : forall c, c ∈ List.replicate n delim -> decide (c = delim) =
      true := by
    intro c hc
    simpa using List.eq_of_mem_replicate hc
  unfold scan
  rw [hstrlen]
  simp only [hstring]
  rw [List.takeWhile_eq_self_iff.mpr hall, List.dropWhile_eq_nil_iff.mpr hall,
    List.length_replicate]
  rfl

theorem scan_spec {i : Nat} (hdelim : delim ≠ null) (hnull : null ∉ text)
    (h : mem.drop i = text ++ [null]) :
    (words delim text = [] ∧ exists next,
        scan null delim mem i = some { mem := mem, next := next, token := none }) ∨
      exists (token rest mem' : List cell) (start next : Nat),
        words delim text = token :: words delim rest ∧
        scan null delim mem i =
          some { mem := mem', next := next, token := some start } ∧
        i <= next ∧ mem'.take (i + 1) = mem.take (i + 1) ∧
          TokenAt null mem' next start token ∧
        mem'.drop next = rest ++ [null] ∧ null ∉ rest := by
  have hstring := Block.string_of_drop hnull h
  have hstrlen := Block.strlen_of_drop hnull h
  rcases split_first delim text with
    ⟨n, word, after, htext, hfree, hstart, hword, hafter⟩
  have hwordNull : null ∉ word := by
    intro hmem
    exact hnull (by rw [htext]; simp [hmem])
  by_cases hne : word = []
  · have hnil : after = [] := by
      rcases hafter with hnil | ⟨rest, _, hword'⟩
      · exact hnil
      · exact absurd hne hword'
    rw [hne, hnil, List.append_nil, List.append_nil] at htext
    subst htext
    refine Or.inl ⟨?_, _, scan_none hnull h⟩
    have hwords := words_delims delim n []
    rw [List.append_nil] at hwords
    exact hwords
  · refine Or.inr ?_
    have hwords : words delim text = words delim (word ++ after) := by
      rw [htext, words_delims]
    have hdropStart : mem.drop (i + n) = word ++ (after ++ [null]) := by
      rw [← List.drop_drop, h, htext, List.append_assoc, List.append_assoc]
      exact List.drop_left' List.length_replicate
    have hdropStop : mem.drop (i + n + word.length) = after ++ [null] := by
      rw [← List.drop_drop, hdropStart, List.drop_left]
    have hcell : mem[i + n + word.length]? = (after ++ [null])[0]? := by
      rw [← hdropStop, List.getElem?_drop]
      rfl
    have hscan : scan null delim mem i =
        if mem[i + n + word.length]? = some null then
          some { mem := mem, next := i + n + word.length, token := some (i + n) }
        else some { mem := mem.set (i + n +
          word.length) null, next := i + n + word.length + 1,
                    token := some (i + n) } := by
      unfold scan
      rw [hstrlen]
      simp only [hstring, hstart, hword]
      rw [if_neg hne]
    have hpositive : 0 < word.length := List.length_pos_of_ne_nil hne
    rcases hafter with rfl | ⟨rest, rfl, _⟩
    · refine ⟨word, [], mem, i + n, i + n + word.length, ?_,
        ?_, by omega, rfl, ⟨hwordNull, [], ?_⟩, hdropStop,
        List.not_mem_nil⟩
      · rw [hwords, List.append_nil, words_last hfree hne]
        rfl
      · rw [hscan, if_pos (by rw [hcell]; rfl)]
      · rw [List.drop_take, hdropStart, List.nil_append,
          (by omega : i + n + word.length + 1 - (i + n) = word.length + 1),
            List.take_length_add_append]
        rfl
    · have hrest : null ∉ rest := by
        intro hmem
        exact hnull (by rw [htext]; simp [hmem])
      refine ⟨word, rest, mem.set (i + n + word.length) null, i + n,
        i + n + word.length + 1, ?_, ?_,
        by omega, ?_, ⟨hwordNull, (rest ++ [null]).take 1, ?_⟩, ?_, hrest⟩
      · rw [hwords, words_first hfree hne]
      · rw [hscan, if_neg]
        rw [hcell]
        simpa using hdelim
      · exact List.take_set_of_le (by omega)
      · rw [List.drop_take, List.drop_set, if_neg (by omega), hdropStart,
          (by omega : i + n + word.length - (i + n) = word.length),
          (by omega : i + n + word.length + 1 + 1 - (i + n) = word.length + 2)]
        simp [List.take_length_add_append]
      · rw [List.drop_set_of_lt (by omega), ← List.drop_drop, hdropStop]
        rfl

end Strtok
end Foundation
end Lepd
