import Mathlib.Data.Fintype.Basic
import Mathlib.Data.List.Forall2
import Mathlib.Logic.Function.Basic
import Lepd.CJson.Syntax
import Lepd.Foundation.Runs
import Lepd.Foundation.Strtok

/-!
# Tokenising a command

The workers split the command of a request into arguments with `strtok`, which keeps
its place in one variable of the C library.  Each call is a step of the worker that
makes it; the calls of different workers can follow each other in any order.
-/

namespace Lepd
namespace Server

open Foundation
open CJson

def maxCmdArgv : Nat := 32

abbrev blank : UInt8 := 32

/-- A string of C: bytes other than NUL. -/
abbrev CString : Type :=
  { bytes : List UInt8 // nul ∉ bytes }

/-- A pointer into the copy of a command that a worker made. -/
structure Pointer (worker : Type) where
  block : worker
  offset : Nat
deriving DecidableEq

/-- Where a worker stands in an execution of `run_builtin_cmd`. -/
inductive Tokenising (worker : Type) where
  /-- In front of the first call, with the copy `p` of its command made. -/
  | ready
  /-- At the head of the loop, with a token found. -/
  | looping (argv : List (Pointer worker))
  /-- Behind the loop. -/
  | finished (argv : List (Pointer worker))
  /-- It has accessed memory outside of an object. -/
  | undefined
deriving DecidableEq

/-- The workers, the copies of their commands, and the variable that `strtok`
keeps. -/
structure Workers (worker : Type) where
  mem : worker -> List UInt8
  save : Option (Pointer worker)
  state : worker -> Tokenising worker

/-!
# Arguments in memory
-/

variable {worker : Type}

/-- The strings that the arguments of a worker point to. -/
def Workers.strings (s : Workers worker) (argv : List (Pointer worker)) :
    List (List UInt8) :=
  argv.map (fun p => Block.string nul (s.mem p.block) p.offset)

/-- The arguments found so far, when what follows `offset` has not been looked
at. -/
def Found (t : worker) (mem : List UInt8) (offset : Nat)
    (argv : List (Pointer worker))
    (tokens : List (List UInt8)) : Prop :=
  List.Forall₂ (fun p token => p.block = t ∧
    Strtok.TokenAt nul mem offset p.offset token) argv tokens

theorem Found.strings {s : Workers worker} {t : worker} {offset : Nat}
    {argv : List (Pointer worker)}
    {tokens : List (List UInt8)} (h : Found t (s.mem t) offset argv tokens) :
    s.strings argv = tokens := by
  unfold Workers.strings
  induction h with
  | nil =>
      rfl
  | cons hhead _ ih =>
      rcases hhead with ⟨hblock, htoken⟩
      rw [List.map_cons, ih, hblock, htoken.string]

theorem Found.mono {t : worker} {mem mem' : List UInt8} {offset next : Nat}
    {argv : List (Pointer worker)} {tokens : List (List UInt8)}
    (h : Found t mem offset argv tokens)
    (hnext : offset <= next) (hsame : mem'.take (offset + 1) =
    mem.take (offset + 1)) :
    Found t mem' next argv tokens :=
  h.imp (fun _ _ hp => ⟨hp.left, hp.right.mono hnext hsame⟩)

theorem Found.snoc {t : worker} {mem : List UInt8} {offset start : Nat}
    {argv : List (Pointer worker)}
    {tokens : List (List UInt8)} {token : List UInt8}
    (h : Found t mem offset argv tokens)
    (htoken : Strtok.TokenAt nul mem offset start token) :
    Found t mem offset (argv ++ [{ block := t, offset := start }])
      (tokens ++ [token]) :=
  List.rel_append h (.cons ⟨rfl, htoken⟩ .nil)

/-!
# Workers in order
-/

/-- The arguments that a command has: its parts without a blank. -/
def arguments (command : CString) : List (List UInt8) :=
  Strtok.words blank command.val

/-- What is known of a worker that has made `calls` calls, none of which was
disturbed. -/
def InOrder (command : worker -> CString) (s : Workers worker) (t : worker)
    (calls : Nat) : Prop :=
  match s.state t with
  | .ready => calls = 0 ∧ s.mem t = (command t).val ++ [nul]
  | .looping argv =>
      exists (offset : Nat) (tokens : List (List UInt8)) (rest : List UInt8),
        s.save = some { block := t, offset := offset } ∧
        arguments (command t) = tokens ++ Strtok.words blank rest ∧
        Found t (s.mem t) offset argv tokens ∧ (s.mem t).drop offset = rest ++
          [nul] ∧ nul ∉ rest ∧
        argv.length = calls
  | .finished argv =>
      (exists offset, Found t (s.mem t) offset argv (arguments (command t))) ∧
        calls = (arguments (command t)).length + 1
  | .undefined => False

/-- A worker in order that has made all its calls has all its arguments. -/
theorem InOrder.finished {command : worker -> CString} {s : Workers worker}
    {t : worker} {calls : Nat}
    (h : InOrder command s t calls) (hcalls : (arguments (command t)).length <
    calls) :
    exists argv, s.state t = .finished argv := by
  unfold InOrder at h
  cases hstate : s.state t with
  | ready =>
      rw [hstate] at h
      omega
  | looping argv =>
      rw [hstate] at h
      rcases h with ⟨offset, tokens, rest, _, harguments, hfound, _, _, hlength⟩
      have hsame : argv.length = tokens.length := List.Forall₂.length_eq hfound
      rw [harguments, List.length_append] at hcalls
      omega
  | finished argv =>
      exact ⟨argv, rfl⟩
  | undefined =>
      rw [hstate] at h
      exact h.elim

def Tokenising.isLooping : Tokenising worker -> Bool
  | .looping _ => true
  | _ => false

theorem InOrder.of_frame {command : worker -> CString} {s s' : Workers worker}
    {u : worker}
    {calls : Nat} (h : InOrder command s u calls)
    (hloop : (s.state u).isLooping = false)
    (hmem : s'.mem u = s.mem u) (hstate : s'.state u = s.state u) :
    InOrder command s' u calls := by
  unfold InOrder at h ⊢
  rw [hstate, hmem]
  cases hu : s.state u with
  | looping argv =>
      rw [hu] at hloop
      cases hloop
  | ready | finished | undefined =>
      rw [hu] at h
      exact h

/-!
# The calls
-/

variable [DecidableEq worker]

namespace Workers

def enter (s : Workers worker) (t : worker) (state : Tokenising worker) :
    Workers worker :=
  { s with state := Function.update s.state t state }

def strtok (s : Workers worker) (str : Option (Pointer worker)) :
    Option (Option (Pointer worker) × Workers worker) := do
  let p <- str.or s.save
  let scanned <- Strtok.scan nul blank (s.mem p.block) p.offset
  return (scanned.token.map (Pointer.mk p.block),
    { s with mem := Function.update s.mem p.block scanned.mem,
             save := some { block := p.block, offset := scanned.next } })

/--
The next call of a worker, with what it does up to the call after that. Behind
the first one, `lookup_func` compares the token it is given, which must not be
`NULL`; the arguments and the final `NULL` go into an array of `MAX_CMD_ARGV`
pointers.
-/
def call (s : Workers worker) (t : worker) : Option (Workers worker) :=
  match s.state t with
  | .ready =>
      match s.strtok (some { block := t, offset := 0 }) with
      | some (some r, s') => some (s'.enter t (.looping [r]))
      | some (none, s') => some (s'.enter t .undefined)
      | none => some (s.enter t .undefined)
  | .looping argv =>
      match s.strtok none with
      | some (some r, s') =>
          if argv.length < maxCmdArgv then
            some (s'.enter t (.looping (argv ++ [r])))
          else some (s'.enter t .undefined)
      | some (none, s') =>
          if argv.length < maxCmdArgv then some (s'.enter t (.finished argv))
          else some (s'.enter t .undefined)
      | none => some (s.enter t .undefined)
  | .finished _ => none
  | .undefined => none

end Workers

/-- All workers have copied their commands, and none has begun to tokenise. -/
def commandsCopied (command : worker -> CString) (save : Option (Pointer worker)) :
    Workers worker where
  mem t := (command t).val ++ [nul]
  save := save
  state _ := .ready

/-- One call of one worker. -/
def Calls (s : Workers worker) (t : worker) (s' : Workers worker) : Prop :=
  s.call t = some s'

/-!
# The loop of one worker
-/

theorem strtok_spec (s : Workers worker) (t : worker)
    (str : Option (Pointer worker)) {offset : Nat}
    {text : List UInt8}
    (hplace : str.or s.save = some { block := t, offset := offset })
    (htext : (s.mem t).drop offset = text ++ [nul]) (hnul : nul ∉ text) :
    (Strtok.words blank text = [] ∧ exists next,
        s.strtok str =
          some (none, { s with save := some { block := t, offset := next } })) ∨
      exists (token rest mem : List UInt8) (start next : Nat),
        Strtok.words blank text = token :: Strtok.words blank rest ∧
        s.strtok str = some (some { block := t, offset := start },
          { s with mem := Function.update s.mem t mem,
                   save := some { block := t, offset := next } }) ∧
        offset <= next ∧ mem.take (offset + 1) = (s.mem t).take (offset + 1) ∧
        Strtok.TokenAt nul mem next start token ∧ mem.drop next = rest ++
          [nul] ∧ nul ∉ rest := by
  rcases Strtok.scan_spec (by decide : blank ≠ nul) hnul htext with
    ⟨hwords, next, hscan⟩ | ⟨token, rest, mem, start, next, hwords, hscan, hrest⟩
  · refine Or.inl ⟨hwords, next, ?_⟩
    simp only [Workers.strtok, hplace, hscan, Option.bind_eq_bind,
      Option.bind_some, Option.pure_def,
      Option.map_none, Function.update_eq_self]
  · refine Or.inr ⟨token, rest, mem, start, next, hwords, ?_, hrest⟩
    simp only [Workers.strtok, hplace, hscan, Option.bind_eq_bind,
      Option.bind_some, Option.pure_def,
      Option.map_some]

/-- The command has an argument, and its arguments leave room for the final
`NULL`. -/
def FitsArgv (command : CString) : Prop :=
  1 <= (arguments command).length ∧ (arguments command).length < maxCmdArgv

theorem inOrder_ready {command : worker -> CString} {s s' : Workers worker}
    {t : worker}
    (hmem : s.mem t = (command t).val ++ [nul]) (hready : s.state t = .ready)
    (hfits : FitsArgv (command t)) (hcall : Calls s t s') :
    InOrder command s' t 1 := by
  rcases strtok_spec s t (some { block := t, offset := 0 }) rfl hmem
    (command t).property with
    ⟨hwords, _⟩ | ⟨token, rest, mem, start, next, hwords, hstrtok, _, _, htoken,
      hdrop, hnul⟩
  · have hlength := hfits.left
    rw [arguments, hwords] at hlength
    exact absurd hlength (by decide)
  · unfold Calls Workers.call at hcall
    simp only [hready, hstrtok, Option.some.injEq] at hcall
    subst hcall
    simp only [InOrder, Workers.enter, Function.update_self]
    exact ⟨next, [token], rest, rfl, hwords, .cons ⟨rfl, htoken⟩ .nil, hdrop,
      hnul, rfl⟩

theorem inOrder_looping {command : worker -> CString} {s s' : Workers worker}
    {t : worker}
    {argv : List (Pointer worker)} {calls : Nat} (h : InOrder command s t calls)
    (hlooping : s.state t = .looping argv) (hfits : FitsArgv (command t))
    (hcall : Calls s t s') :
    InOrder command s' t (calls + 1) := by
  unfold InOrder at h
  rw [hlooping] at h
  rcases h with ⟨offset, tokens, rest, hsave, harguments, hfound, hdrop, hnul,
    hlength⟩
  have hsame : argv.length = tokens.length := hfound.length_eq
  have htotal := congrArg List.length harguments
  rw [List.length_append] at htotal
  have hroom : argv.length < maxCmdArgv := by
    have hmax := hfits.right
    omega
  unfold Calls Workers.call at hcall
  rcases strtok_spec s t none hsave hdrop hnul with
    ⟨hwords, next, hstrtok⟩ |
      ⟨token, rest', mem, start, next, hwords, hstrtok, hnext, htake, htoken,
        hdrop', hnul'⟩
  · simp only [hlooping, hstrtok, if_pos hroom, Option.some.injEq] at hcall
    subst hcall
    rw [hwords, List.append_nil] at harguments
    simp only [InOrder, Workers.enter, Function.update_self]
    refine ⟨⟨offset, ?_⟩, ?_⟩
    · rw [harguments]
      exact hfound
    · rw [harguments]
      omega
  · simp only [hlooping, hstrtok, if_pos hroom, Option.some.injEq] at hcall
    subst hcall
    simp only [InOrder, Workers.enter, Function.update_self]
    refine ⟨next, tokens ++ [token], rest', rfl, ?_,
      (hfound.mono hnext htake).snoc htoken, hdrop', hnul',
      ?_⟩
    · rw [harguments, hwords, List.append_assoc]
      rfl
    · rw [List.length_append, hlength]
      rfl

/-!
# Interleavings
-/

/-- A call of `strtok` touches only the block of the place where it starts. -/
theorem strtok_frame {s s' : Workers worker} {t u : worker}
    {str r : Option (Pointer worker)}
    (hblock : forall p, str.or s.save = some p -> p.block = t) (hu : u ≠ t)
    (h : s.strtok str = some (r, s')) :
    s'.mem u = s.mem u ∧ s'.state u = s.state u := by
  simp only [Workers.strtok, Option.bind_eq_bind, Option.bind_eq_some_iff,
    Option.pure_def,
    Option.some.injEq, Prod.mk.injEq] at h
  rcases h with ⟨p, hp, scanned, _, _, rfl⟩
  rw [hblock p hp]
  exact ⟨Function.update_of_ne hu _ _, rfl⟩

theorem enter_frame (s : Workers worker) {t u : worker}
    (state : Tokenising worker) (hu : u ≠ t) :
    (s.enter t state).mem u = s.mem u ∧ (s.enter t state).state u = s.state u :=
  ⟨rfl, Function.update_of_ne hu _ _⟩

theorem call_frame {command : worker -> CString} {s s' : Workers worker}
    {t u : worker} {calls : Nat}
    (h : InOrder command s t calls) (hu : u ≠ t) (hcall : Calls s t s') :
    s'.mem u = s.mem u ∧ s'.state u = s.state u := by
  have hframe : forall {str r : Option (Pointer worker)} {mid : Workers worker}
      (state : Tokenising worker), (forall p, str.or s.save = some p ->
        p.block = t) ->
      s.strtok str = some (r, mid) ->
        (mid.enter t state).mem u = s.mem u ∧ (mid.enter t state).state u =
          s.state u := by
    intro str r mid state hblock hstrtok
    rcases strtok_frame hblock hu hstrtok with ⟨hmem, hstate⟩
    rcases enter_frame mid state hu with ⟨hmem', hstate'⟩
    exact ⟨hmem'.trans hmem, hstate'.trans hstate⟩
  unfold Calls Workers.call at hcall
  cases hstate : s.state t with
  | ready =>
      have hblock : forall p, (some { block := t, offset := 0 } :
        Option (Pointer worker)).or s.save =
          some p -> p.block = t := by
        intro p hp
        cases hp
        rfl
      simp only [hstate] at hcall
      split at hcall
      · next hstrtok =>
          cases hcall
          exact hframe _ hblock hstrtok
      · next hstrtok =>
          cases hcall
          exact hframe _ hblock hstrtok
      · cases hcall
        exact enter_frame s _ hu
  | looping argv =>
      have hblock : forall p, (none : Option (Pointer worker)).or s.save =
          some p -> p.block = t := by
        intro p hp
        unfold InOrder at h
        rw [hstate] at h
        rcases h with ⟨offset, _, _, hsave, _⟩
        cases hsave.symm.trans hp
        rfl
      simp only [hstate] at hcall
      split at hcall
      · next hstrtok =>
          split at hcall
          · cases hcall
            exact hframe _ hblock hstrtok
          · cases hcall
            exact hframe _ hblock hstrtok
      · next hstrtok =>
          split at hcall
          · cases hcall
            exact hframe _ hblock hstrtok
          · cases hcall
            exact hframe _ hblock hstrtok
      · cases hcall
        exact enter_frame s _ hu
  | finished argv =>
      simp only [hstate] at hcall
      cases hcall
  | undefined =>
      simp only [hstate] at hcall
      cases hcall

/-- No other worker is between its first and its last call. -/
def Undisturbed (s : Workers worker) (t : worker) : Prop :=
  forall u, u ≠ t -> (s.state u).isLooping = false

theorem inOrder_step {command : worker -> CString} {s s' : Workers worker}
    {t : worker} {calls : Nat}
    (h : InOrder command s t calls) (hfits : FitsArgv (command t))
    (hcall : Calls s t s') :
    InOrder command s' t (calls + 1) := by
  cases hstate : s.state t with
  | ready =>
      have hready := h
      unfold InOrder at hready
      rw [hstate] at hready
      rcases hready with ⟨rfl, hmem⟩
      exact inOrder_ready hmem hstate hfits hcall
  | looping argv =>
      exact inOrder_looping h hstate hfits hcall
  | finished argv =>
      unfold Calls Workers.call at hcall
      simp only [hstate] at hcall
      cases hcall
  | undefined =>
      unfold Calls Workers.call at hcall
      simp only [hstate] at hcall
      cases hcall

/--
In every interleaving in which no call comes between the calls of another
worker, each worker whose command fits ends with the arguments of its own
command, after one call more than there are arguments.
-/
theorem arguments_kept {command : worker -> CString}
    {save : Option (Pointer worker)}
    {calls : List worker} {s : Workers worker}
    (hrun : Runs (Guarded Calls (fun s t => Undisturbed s t ∧ FitsArgv (command t)))
      (commandsCopied command save) calls s) (t : worker) :
    s.state t ≠ .undefined ∧
      (forall argv, s.state t = .finished argv -> s.strings argv =
        arguments (command t)) ∧
      ((arguments (command t)).length < calls.count t -> exists argv,
        s.state t = .finished argv) := by
  have hinit : forall u, InOrder command (commandsCopied command save) u
      (List.count u []) :=
    fun u => ⟨rfl, rfl⟩
  have hstep : forall calls s t s',
      (forall u, InOrder command s u (calls.count u)) ->
      Guarded Calls (fun s t => Undisturbed s t ∧ FitsArgv (command t)) s t s' ->
      forall u, InOrder command s' u ((calls ++ [t]).count u) := by
    intro calls s t s' h hstep u
    rcases hstep with ⟨hcall, hundisturbed, hfits⟩
    rw [List.count_append]
    by_cases hu : u = t
    · subst hu
      rw [List.count_singleton_self]
      exact inOrder_step (h u) hfits hcall
    · rcases call_frame (h t) hu hcall with ⟨hmem, hstate⟩
      rw [List.count_singleton, if_neg (by simpa using Ne.symm hu)]
      exact (h u).of_frame (hundisturbed u hu) hmem hstate
  have hall : forall u, InOrder command s u (calls.count u) :=
    Runs.invariant_events hstep hrun hinit
  have ht := hall t
  refine ⟨?_, ?_, ht.finished⟩
  · intro hundefined
    unfold InOrder at ht
    rw [hundefined] at ht
    exact ht
  · intro argv hfinished
    unfold InOrder at ht
    rw [hfinished] at ht
    rcases ht.left with ⟨offset, hfound⟩
    exact hfound.strings

/-- The commands `a b` and `c d` of two workers. -/
def twoCommands : Bool -> CString
  | false => ⟨[97, blank, 98], by decide⟩
  | true => ⟨[99, blank, 100], by decide⟩

instance [Fintype worker] (s : Workers worker) (t : worker) :
    Decidable (Undisturbed s t) :=
  inferInstanceAs (Decidable (forall u, u ≠ t -> (s.state u).isLooping = false))

instance (command : CString) : Decidable (FitsArgv command) :=
  inferInstanceAs (Decidable (_ ∧ _))

def callAll (guard : Workers worker -> worker -> Prop)
    [forall s t, Decidable (guard s t)]
    (s : Workers worker) (calls : List worker) : Option (Workers worker) :=
  calls.foldlM (fun s t => if guard s t then s.call t else none) s

theorem runs_of_callAll {guard : Workers worker -> worker -> Prop}
    [forall s t, Decidable (guard s t)] {s s' : Workers worker}
    {calls : List worker}
    (h : callAll guard s calls = some s') :
    Runs (Guarded Calls guard) s calls s' := by
  unfold callAll at h
  induction calls generalizing s with
  | nil =>
      cases h
      exact .nil
  | cons t calls ih =>
      rw [List.foldlM_cons] at h
      rcases Option.bind_eq_some_iff.mp h with ⟨mid, hmid, hrest⟩
      split at hmid
      · next hguard =>
          exact .cons ⟨hmid, hguard⟩ (ih hrest)
      · cases hmid

/-- Between the first two calls of one worker the other one makes its first. -/
theorem arguments_mixed :
    exists s : Workers Bool, Runs Calls (commandsCopied twoCommands none)
      [false, true, false, false] s ∧
      exists argv, s.state false = .finished argv ∧ s.strings argv ≠
        arguments (twoCommands false) := by
  have hcalls : (callAll (fun _ _ => True) (commandsCopied twoCommands none)
      [false, true, false, false]).isSome = true := by
    decide
  refine ⟨_, (runs_of_callAll (Option.some_get hcalls).symm).of_guarded,
    [{ block := false, offset := 0 }, { block := true, offset := 2 }], rfl, ?_⟩
  change [[97], [100]] ≠ arguments (twoCommands false)
  decide

/-- Two workers make all their calls, the second one when the first one is
behind its loop. -/
theorem arguments_kept_in_turn :
    exists s : Workers Bool,
      Runs Calls (commandsCopied twoCommands none) [false, false, false, true,
        true, true] s ∧
        forall t, exists argv, s.state t = .finished argv ∧ s.strings argv =
          arguments (twoCommands t) := by
  have hcalls : (callAll (fun s t => Undisturbed s t ∧ FitsArgv (twoCommands t))
      (commandsCopied twoCommands none) [false, false, false, true, true,
        true]).isSome = true := by
    decide
  have hrun := runs_of_callAll (Option.some_get hcalls).symm
  refine ⟨_, hrun.of_guarded, fun t => ?_⟩
  have hcount : (arguments (twoCommands t)).length <
      [false, false, false, true, true, true].count t := by
    cases t <;> decide
  rcases arguments_kept hrun t with ⟨_, hkept, hends⟩
  rcases hends hcount with ⟨argv, hargv⟩
  exact ⟨argv, hargv, hkept argv hargv⟩

end Server
end Lepd
