import Lepd.Ps.Parser

/-!
# The options of one call after others

`reset_global` and `reset_sortformat` set back most of what a call leaves. The
count of `w` options, `force_bsd` and the digits of `pid_max` stay, and a call
has the options of its own arguments as long as these make no difference to it.
-/

namespace Lepd
namespace Ps

variable {tables : Tables} {ctx : Context} {call : Call} {s s' : Statics}
  {b b' : State}
  {value result : Type}

/-!
# Runs of the parser
-/

theorem run_bind {x : Run value} {f : value -> Run result} {r : result}
    (h : (x >>= f) b = .ok (r, b')) : exists a c, x b = .ok (a, c) ∧ f a c = .ok
    (r, b') := by
  change (x b >>= fun p => f p.1 p.2) = _ at h
  cases hx : x b with
  | error reason =>
      rw [hx] at h
      cases h
  | ok p =>
      rw [hx] at h
      exact ⟨p.1, p.2, rfl, h⟩

theorem bind_ok {x : Run value} {f : value -> Run result} {a : value}
    (h : x b = .ok (a, b')) :
    (x >>= f) b = f a b' := by
  change (x b >>= fun p => f p.1 p.2) = _
  rw [h]
  rfl

theorem bind_error {x : Run value} {f : value -> Run result} {reason : Stop}
    (h : x b = .error reason) :
    (x >>= f) b = .error reason := by
  change (x b >>= fun p => f p.1 p.2) = _
  rw [h]
  rfl

theorem bind_congr_ok {x : Run value} {f g : value -> Run result}
    (h : forall a c, x b = .ok (a, c) -> f a c = g a c) :
    (x >>= f) b = (x >>= g) b := by
  cases hx : x b with
  | error reason =>
      rw [bind_error hx, bind_error hx]
  | ok p =>
      rw [bind_ok hx, bind_ok hx]
      exact h p.1 p.2 hx

/-!
# Bits that are not looked at
-/

theorem selectBitsSetup_none (h : selectBitsSetup b = .ok (.ok none, b')) :
    b'.globals.allProcesses = true := by
  rcases run_bind h with ⟨g, c, hg, h⟩
  cases hg
  cases hbits : selectBits b.globals with
  | error err =>
      rw [hbits] at h
      cases h
  | ok bits =>
      rw [hbits] at h
      cases bits with
      | none =>
          cases h
          rfl
      | some bits =>
          cases h

theorem readArguments_none {force : Bool} {reading : Reading}
    (h : readArguments ctx force b = .ok (.ok reading, b'))
    (hbits : reading.bits = none) :
    b'.globals.allProcesses = true := by
  rcases run_bind h with ⟨⟨err, wide⟩, b1, _, h⟩
  cases err with
  | some err =>
      cases h
  | none =>
      rcases run_bind h with ⟨err, b2, _, h⟩
      cases err with
      | some err =>
          cases h
      | none =>
          rcases run_bind h with ⟨err, b3, _, h⟩
          cases err with
          | some err =>
              cases h
          | none =>
              rcases run_bind h with ⟨bits, b4, hsetup, h⟩
              cases bits with
              | error err =>
                  cases h
              | ok bits =>
                  cases h
                  have hnone : bits = none := hbits
                  subst hnone
                  exact selectBitsSetup_none hsetup

theorem firstReading_none {force : Bool} {reading : Reading}
    (h : firstReading ctx force b = .ok (some reading, b'))
    (hbits : reading.bits = none) :
    b'.globals.allProcesses = true := by
  change (if has b.globals.personality perForceBSD then
    (return none : Run (Option Reading))
    else readArguments ctx force >>= _) b = _ at h
  split at h
  · cases h
  · rcases run_bind h with ⟨found, c, hread, h⟩
    cases found with
    | error err =>
        cases h
    | ok found =>
        cases h
        exact readArguments_none hread hbits

theorem secondReading_none {reading : Reading}
    (h : secondReading ctx b = .ok (.ok reading, b'))
    (hbits : reading.bits = none) :
    b'.globals.allProcesses = true := by
  rcases run_bind h with ⟨_, b1, _, h⟩
  rcases run_bind h with ⟨_, b2, _, h⟩
  rcases run_bind h with ⟨_, b3, _, h⟩
  exact readArguments_none h hbits

theorem accept_ok {wCount : Nat} {force : Bool} {bits : Option Nat} {parse : Parse}
    (h : accept wCount force bits b = .ok (parse, b')) :
    parse.bits = bits ∧ b'.globals.allProcesses = b.globals.allProcesses := by
  cases h
  exact ⟨rfl, rfl⟩

theorem argParse_none {wCount : Nat} {force : Bool} {parse : Parse}
    (h : argParse ctx wCount force b = .ok (parse, b'))
    (hbits : parse.bits = none) :
    b'.globals.allProcesses = true := by
  rcases run_bind h with ⟨first, c, hfirst, h⟩
  cases first with
  | some reading =>
      rcases accept_ok h with ⟨hown, hall⟩
      rw [hall]
      exact firstReading_none hfirst (hown.symm.trans hbits)
  | none =>
      rcases run_bind h with ⟨second, d, hsecond, h⟩
      cases second with
      | error err =>
          cases h
      | ok reading =>
          rcases accept_ok h with ⟨hown, hall⟩
          rw [hall]
          exact secondReading_none hsecond (hown.symm.trans hbits)

theorem argCheckConflicts_ok {u : Unit}
    (h : argCheckConflicts b = .ok (u, b')) : b' = b := by
  change (if quickPidConflict b.globals then (stop .exit : Run Unit)
    else return ()) b = _ at h
  split at h
  · cases h
  · cases h
    rfl

theorem parseCall_ok {wCount : Nat} {force : Bool} {parse : Parse}
    (h : parseCall ctx wCount force b = .ok (parse, b')) :
    argParse ctx wCount force b = .ok (parse, b') := by
  rcases run_bind h with ⟨found, c, hparse, h⟩
  rcases run_bind h with ⟨_, d, hcheck, h⟩
  cases h
  rw [← argCheckConflicts_ok hcheck] at hparse
  exact hparse

theorem optionsOf_getD {wCount : Nat} {force : Bool} {parse : Parse}
    (h : parseCall ctx wCount force b = .ok (parse, b')) (bits bits' : Nat) :
    optionsOf b'.globals (parse.bits.getD bits) = optionsOf b'.globals
      (parse.bits.getD bits') := by
  cases hbits : parse.bits with
  | some own =>
      rfl
  | none =>
      unfold optionsOf
      rw [argParse_none (parseCall_ok h) hbits]
      rfl

/-!
# Arguments without letters
-/

/--
No argument is a group of letters, as far as arguments are read: those of long
options belong to these, and behind a number all are numbers.
-/
def noLetters (ctx : Context) : Nat -> List Text -> Bool
  | _, [] => true
  | used + 1, _ :: args => noLetters ctx used args
  | 0, arg :: args =>
      match argType arg with
      | .sysv => false
      | .bsd => false
      | .gnu => noLetters ctx (gnuUsed ctx arg args) args
      | .finish => true
      | .pgrp => true
      | .pid => true
      | .fail => true
      | .sess => true

theorem withArgument_used {found : Option (Text × Nat)} {missing : String}
    {action : Text -> Run (Option Err)} {used : Nat}
    (h : withArgument found missing action b = .ok ((none, used), b')) :
    used = (found.map Prod.snd).getD 0 := by
  cases found with
  | none =>
      cases h
  | some entry =>
      rcases run_bind h with ⟨err, c, _, h⟩
      cases h
      rfl

theorem parseGnuOption_used {arg : Text} {next : List Text} {parsed : Parsed}
    (h : parseGnuOption ctx arg next b = .ok (parsed, b'))
    (herr : parsed.err = none) :
    parsed.used = gnuUsed ctx arg next := by
  unfold parseGnuOption at h
  unfold gnuUsed
  cases hoption : gnuOption ctx arg with
  | none =>
      rw [hoption] at h
      rcases run_bind h with ⟨err, c, _, h⟩
      cases h
      rfl
  | some option =>
      rw [hoption] at h
      rcases run_bind h with ⟨⟨err, used⟩, c, hdo, h⟩
      cases h
      have hnone : err = none := herr
      subst hnone
      cases option with
      | argument missing action =>
          exact withArgument_used hdo
      | bare refusal action =>
          change (if (gnuName arg).2 ≠ [] then _
            else _ : Run (Option Err × Nat)) b = _ at hdo
          split at hdo
          · cases hdo
          · rcases run_bind hdo with ⟨_, d, _, hdo⟩
            cases hdo
            rfl
      | other action =>
          rcases run_bind hdo with ⟨_, d, _, hdo⟩
          cases hdo
          rfl

theorem parseNumbers_used {arg : Text} {next : List Text} {parsed : Parsed}
    (h : parseNumbers ctx arg next b = .ok (parsed, b')) :
    parsed.used = next.length := by
  rcases run_bind h with ⟨_, c, _, h⟩
  unfold parseTrailingPids at h
  cases hfound : (arg :: next).mapM (trailingPid ctx.sys) with
  | error err =>
      rw [hfound] at h
      cases h
      rfl
  | ok found =>
      rw [hfound] at h
      cases h
      rfl

theorem parseAllOptions_length {force : Bool} {wide : Nat} (args : List Text) :
    parseAllOptions ctx force args.length wide args = return (none, wide) := by
  induction args with
  | nil =>
      rfl
  | cons arg args ih =>
      exact ih

theorem parseAllOptions_cons {force : Bool} {wide : Nat} {arg : Text}
    {args : List Text} :
    parseAllOptions ctx force 0 wide (arg :: args) =
      parseArgument ctx force arg args >>= fun parsed =>
        if parsed.err.isSome then return (parsed.err, wide + parsed.wide)
        else parseAllOptions ctx force parsed.used (wide + parsed.wide) args :=
  rfl

theorem parseAllOptions_noLetters {force : Bool} {used wide : Nat}
    {args : List Text}
    (h : noLetters ctx used args = true) (b : State) :
    parseAllOptions ctx force used wide args b =
      parseAllOptions ctx false used wide args b := by
  induction args generalizing used wide b with
  | nil =>
      cases used <;> rfl
  | cons arg args ih =>
      cases used with
      | succ used =>
          exact ih h b
      | zero =>
          have hnumbers : forall parsed c, parseNumbers ctx arg args b =
              .ok (parsed, c) ->
              (if parsed.err.isSome then
                (return (parsed.err, wide + parsed.wide) : Run (Option Err × Nat))
                else parseAllOptions ctx force parsed.used (wide + parsed.wide)
                  args) c =
              (if parsed.err.isSome then
                (return (parsed.err, wide + parsed.wide) : Run (Option Err × Nat))
                else parseAllOptions ctx false parsed.used (wide + parsed.wide)
                  args) c := by
            intro parsed c hparse
            rw [parseNumbers_used hparse, parseAllOptions_length,
              parseAllOptions_length]
          rw [parseAllOptions_cons, parseAllOptions_cons]
          unfold noLetters at h
          unfold parseArgument
          cases htype : argType arg with
          | gnu =>
              rw [htype] at h
              apply bind_congr_ok
              intro parsed c hparse
              cases herr : parsed.err with
              | some err =>
                  rfl
              | none =>
                  have hused := parseGnuOption_used hparse herr
                  rw [← hused] at h
                  exact ih h c
          | sysv =>
              rw [htype] at h
              cases h
          | bsd =>
              rw [htype] at h
              cases h
          | finish =>
              rfl
          | fail =>
              rfl
          | pgrp =>
              exact bind_congr_ok hnumbers
          | pid =>
              exact bind_congr_ok hnumbers
          | sess =>
              exact bind_congr_ok hnumbers

theorem readArguments_noLetters {force : Bool}
    (h : noLetters ctx 0 (ctx.argv.drop 1) = true) (b : State) :
    readArguments ctx force b = readArguments ctx false b := by
  change (parseAllOptions ctx force 0 0 (ctx.argv.drop 1) b >>= _) =
    (parseAllOptions ctx false 0 0 _ b >>= _)
  rw [parseAllOptions_noLetters h]

/-!
# What makes no difference
-/

def Call.first (call : Call) : State :=
  begin call initial.state

def Call.Refused (tables : Tables) (call : Call) : Prop :=
  exists b, firstReading (call.context tables 0) false call.first = .ok (none, b)

/-- What earlier calls left makes no difference to the options of a call. -/
structure Harmless (tables : Tables) (call : Call) (s : Statics) : Prop where
  /-- The digits of `pid_max` are not known yet, or are still the same. -/
  pidDigits : s.pidDigits = 0 ∨ s.pidDigits = readPidDigits call.sys
  /-- No count of `w` options is left, or the second way of reading sets it back. -/
  wCount : s.wCount = 0 ∨ call.Refused tables
  /-- `force_bsd` is not left, or the personality sets it anyway, or there are
  no letters. -/
  forceBsd : s.forceBsd = false ∨ has (setPersonality call.env).personality
    perForceBSD = true ∨
    noLetters (call.context tables 0) 0 (call.argv.drop 1) = true

structure Settled (b : State) : Prop where
  sfList : b.sfList = []
  haveGnuSort : b.haveGnuSort = false
  alreadyParsedSort : b.alreadyParsedSort = false
  alreadyParsedFormat : b.alreadyParsedFormat = false

theorem initial_settled : Settled initial.state :=
  ⟨rfl, rfl, rfl, rfl⟩

/-- Behind `reset_global` a call finds nothing of the globals that earlier ones
left. -/
theorem Settled.begin_eq (h : Settled b) : begin call b = call.first := by
  rcases b with ⟨g, sfList, haveGnuSort, sort, format, read, nodes, freed⟩
  rcases h with ⟨hsf, hgnu, hsort, hformat⟩
  cases hsf
  cases hgnu
  cases hsort
  cases hformat
  unfold begin Call.first
  rw [resetGlobal_forgets call.env call.sys g initial.state.globals]
  rfl

theorem Harmless.context (h : Harmless tables call s) :
    call.context tables s.pidDigits = call.context tables 0 := by
  have hdigits : pidDigitsFor s.pidDigits call.sys = readPidDigits call.sys := by
    unfold pidDigitsFor
    split
    · rfl
    · next hread =>
        exact h.pidDigits.resolve_left hread
  unfold Call.context
  rw [hdigits]
  rfl

theorem Harmless.firstReading (h : Harmless tables call s) :
    firstReading (call.context tables 0) s.forceBsd call.first =
      firstReading (call.context tables 0) false call.first := by
  change (if has call.first.globals.personality perForceBSD then
    (return none : Run (Option Reading))
      else readArguments (call.context tables 0) s.forceBsd >>= _) call.first =
    (if has call.first.globals.personality perForceBSD then
    (return none : Run (Option Reading))
      else readArguments (call.context tables 0) false >>= _) call.first
  rcases h.forceBsd with hforce | hforce | hletters
  · rw [hforce]
  · have hpersonality : has call.first.globals.personality perForceBSD = true :=
      hforce
    rw [if_pos hpersonality, if_pos hpersonality]
  · split
    · rfl
    · change (readArguments (call.context tables 0) s.forceBsd call.first >>= _) =
        (readArguments (call.context tables 0) false call.first >>= _)
      rw [readArguments_noLetters hletters]

def parsed (found : Except Stop (Parse × State)) :
    Except Stop (Option Nat × State) :=
  found.map (fun p => (p.1.bits, p.2))

theorem Harmless.argParse (h : Harmless tables call s) :
    parsed (argParse (call.context tables 0) s.wCount s.forceBsd call.first) =
      parsed (argParse (call.context tables 0) 0 false call.first) := by
  cases hfirst : Ps.firstReading (call.context tables 0) false call.first with
  | error reason =>
      unfold Ps.argParse
      rw [bind_error (h.firstReading.trans hfirst), bind_error hfirst]
  | ok p =>
      rcases p with ⟨reading, c⟩
      unfold Ps.argParse
      rw [bind_ok (h.firstReading.trans hfirst), bind_ok hfirst]
      cases reading with
      | none =>
          rfl
      | some reading =>
          have hcount : s.wCount = 0 := by
            rcases h.wCount with hzero | ⟨d, hrefused⟩
            · exact hzero
            · rw [hfirst] at hrefused
              cases hrefused
          show parsed (accept (s.wCount + reading.wide) s.forceBsd reading.bits
            c) = _
          rw [hcount]
          rfl

theorem parsed_check {x y : Run Parse} (h : parsed (x b) = parsed (y b)) :
    parsed ((x >>= fun parse => argCheckConflicts >>= fun _ => pure parse) b) =
      parsed ((y >>= fun parse => argCheckConflicts >>= fun _ => pure parse)
        b) := by
  cases hx : x b with
  | error reason =>
      cases hy : y b with
      | error reason' =>
          rw [hx, hy] at h
          cases h
          rw [bind_error hx, bind_error hy]
      | ok q =>
          rw [hx, hy] at h
          cases h
  | ok p =>
      cases hy : y b with
      | error reason =>
          rw [hx, hy] at h
          cases h
      | ok q =>
          rw [hx, hy] at h
          rcases p with ⟨parse, c⟩
          rcases q with ⟨parse', d⟩
          have hpair : (parse.bits, c) = (parse'.bits, d) := Except.ok.inj h
          rcases Prod.mk.inj hpair with ⟨hbits, rfl⟩
          rw [bind_ok hx, bind_ok hy]
          cases hcheck : argCheckConflicts c with
          | error reason =>
              rw [bind_error hcheck, bind_error hcheck]
          | ok u =>
              rw [bind_ok hcheck, bind_ok hcheck]
              show Except.ok (parse.bits, u.2) = Except.ok (parse'.bits, u.2)
              rw [hbits]

/-!
# Many calls
-/

/-- The options that a call has by itself. -/
def Call.options (tables : Tables) (call : Call) : Except Stop Options :=
  (psMain tables call initial).map Prod.fst

/-- The options of the calls, one after the other. -/
def psRun (tables : Tables) : List Call -> Statics -> Except Stop (List Options)
  | [], _ => .ok []
  | call :: calls, s => do
      let (options, s) <- psMain tables call s
      let rest <- psRun tables calls s
      return options :: rest

/-- What earlier calls left makes no difference to any call. -/
def AllHarmless (tables : Tables) : List Call -> Statics -> Prop
  | [], _ => True
  | call :: calls, s =>
      Harmless tables call s ∧
        forall options s', psMain tables call s = .ok (options, s') ->
          AllHarmless tables calls s'

theorem psMain_of_error {reason : Stop}
    (h : parseCall (call.context tables s.pidDigits) s.wCount s.forceBsd
    (begin call s.state) = .error reason) :
    psMain tables call s = .error reason := by
  show (parseCall (call.context tables s.pidDigits) s.wCount s.forceBsd
    (begin call s.state) >>= _) = _
  rw [h]
  rfl

theorem psMain_of_ok {parse : Parse}
    (h : parseCall (call.context tables s.pidDigits) s.wCount s.forceBsd
    (begin call s.state) = .ok (parse, b)) :
    exists s', psMain tables call s =
      .ok (optionsOf b.globals (parse.bits.getD s.selectBits), s') ∧
      Settled s'.state := by
  have hleave : psMain tables call s = leave (call.context tables s.pidDigits) s
      parse b := by
    show (parseCall (call.context tables s.pidDigits) s.wCount s.forceBsd
      (begin call s.state) >>= _) = _
    rw [h]
    rfl
  exact ⟨_, hleave, rfl, rfl, rfl, rfl⟩

/-- A harmless call has the options that it has by itself, and is accepted if it
is by itself. -/
theorem Harmless.psMain (h : Harmless tables call s) (hsettled : Settled s.state) :
    (psMain tables call s).map Prod.fst = call.options tables := by
  have hparse :
      parsed (parseCall (call.context tables s.pidDigits) s.wCount s.forceBsd
    (begin call s.state)) =
      parsed (parseCall (call.context tables 0) 0 false call.first) := by
    rw [h.context, hsettled.begin_eq]
    exact parsed_check h.argParse
  cases hown : parseCall (call.context tables 0) 0 false call.first with
  | error reason =>
      rw [hown] at hparse
      cases hcall : parseCall (call.context tables s.pidDigits) s.wCount
        s.forceBsd (begin call s.state) with
      | error reason' =>
          rw [hcall] at hparse
          have hreason : reason' = reason := Except.error.inj hparse
          rw [Call.options, psMain_of_error hcall,
            psMain_of_error (s := initial) hown, hreason]
      | ok p =>
          rw [hcall] at hparse
          cases hparse
  | ok q =>
      rw [hown] at hparse
      cases hcall : parseCall (call.context tables s.pidDigits) s.wCount
        s.forceBsd (begin call s.state) with
      | error reason =>
          rw [hcall] at hparse
          cases hparse
      | ok p =>
          rw [hcall] at hparse
          rcases p with ⟨parse, b⟩
          rcases q with ⟨own, c⟩
          have hpair : (parse.bits, b) = (own.bits, c) := Except.ok.inj hparse
          rcases Prod.mk.inj hpair with ⟨hbits, rfl⟩
          rcases psMain_of_ok hcall with ⟨s', hs', _⟩
          rcases psMain_of_ok (s := initial) hown with ⟨t, ht, _⟩
          rw [Call.options, hs', ht]
          show Except.ok (optionsOf b.globals (parse.bits.getD s.selectBits)) =
            Except.ok _
          rw [optionsOf_getD hcall s.selectBits initial.selectBits, hbits]

theorem psMain_settled {options : Options}
    (h : psMain tables call s = .ok (options, s')) :
    Settled s'.state := by
  cases hcall : parseCall (call.context tables s.pidDigits) s.wCount s.forceBsd
    (begin call s.state) with
  | error reason =>
      rw [psMain_of_error hcall] at h
      cases h
  | ok p =>
      rcases psMain_of_ok hcall with ⟨t, ht, hsettled⟩
      rw [ht] at h
      cases h
      exact hsettled

theorem run_of_settled {calls : List Call} (hsettled : Settled s.state)
    (h : AllHarmless tables calls s) :
    psRun tables calls s = calls.mapM (Call.options tables) := by
  induction calls generalizing s with
  | nil =>
      rfl
  | cons call calls ih =>
      rcases h with ⟨hharmless, hrest⟩
      have hown := hharmless.psMain hsettled
      rw [List.mapM_cons, ← hown]
      cases hcall : psMain tables call s with
      | error reason =>
          show (psMain tables call s >>= _) = _
          rw [hcall]
          rfl
      | ok p =>
          rcases p with ⟨options, s'⟩
          have hcalls := ih (psMain_settled hcall) (hrest options s' hcall)
          show (psMain tables call s >>= _) = _
          rw [hcall]
          show (psRun tables calls s' >>= _) = _
          rw [hcalls]
          rfl

/--
In a run of calls to which nothing makes a difference that was left by earlier
ones, every call is accepted if it is accepted by itself, and has the options
that it has by itself.
-/
theorem calls_have_own_options (tables : Tables) (calls : List Call)
    (h : AllHarmless tables calls initial) :
    psRun tables calls initial = calls.mapM (Call.options tables) :=
  run_of_settled initial_settled h

/-!
# Calls to which it makes a difference
-/

def procFillcom : UInt32 := 0x0002
def procFillarg : UInt32 := 0x0100

def someFormats : List (String × FormatStruct) :=
  [("args", ⟨bytes "COMMAND", bytes "pr_args", bytes "sr_cmd", 27, procFillarg,
    0, 0x20000004⟩),
    ("bsdtime", ⟨bytes "TIME", bytes "pr_bsdtime", bytes "sr_nop", 6, 0, 5,
    0x40000003⟩),
    ("pid", ⟨bytes "PID", bytes "pr_procs", bytes "sr_procs", 5, 0, 0, 0x20000013⟩),
    ("stat", ⟨bytes "STAT", bytes "pr_stat", bytes "sr_state", 4, 0, 6,
    0x10000002⟩),
    ("time", ⟨bytes "TIME", bytes "pr_time", bytes "sr_time", 8, 0, 0, 0x40000003⟩),
    ("tname", ⟨bytes "TTY", bytes "pr_tty8", bytes "sr_tty", 8, 0, 2, 0x20000002⟩),
    ("ucmd", ⟨bytes "CMD", bytes "pr_comm", bytes "sr_cmd", 15, procFillcom, 2,
    0x20000004⟩)]

def searchSomeFormats (spec : Text) : Option FormatStruct :=
  (someFormats.find? (fun entry => bytes entry.1 == spec)).map Prod.snd

theorem no_macros (_spec head : Text) (h : (none : Option Text) = some head) :
    forall item, item ∈ macroSpecs head -> (searchSomeFormats item).isSome := by
  cases h

def someTables : Tables where
  searchFormatArray := searchSomeFormats
  searchMacroArray _ := none
  searchAixArray _ := none
  searchShortsortArray _ := none
  macros_flat := no_macros

/-- A terminal of 80 columns, and nothing in the environment. -/
def psCall (args : List String) : Call :=
  { sys := {
      getpwnam := fun _ => none
      getgrnam := fun _ => none
      stat := fun _ => none
      winsizes := [(80, 24)]
      stdoutIsTty := true
      selfTty := 0
      pidMax := some (bytes "32768\n") }
    env := { getenv := fun _ => none, wordHelp := bytes "help" }
    argv := bytes "ps" :: args.map bytes }

/-- `force_bsd` is left by the first call, and the second one has no letters. -/
theorem calls_have_own_options_numbers :
    psRun someTables [psCall ["-x"], psCall ["--pid", "1"]] initial =
      [psCall ["-x"], psCall ["--pid", "1"]].mapM (Call.options someTables) := by
  apply calls_have_own_options
  refine ⟨⟨Or.inl rfl, Or.inl rfl, Or.inl rfl⟩, ?_⟩
  intro options s hcall
  have hleft : (psMain someTables (psCall ["-x"]) initial).map
      (fun p => (p.2.pidDigits, p.2.wCount)) = .ok (5, 0) := by
    decide +kernel
  rw [hcall] at hleft
  rcases Prod.mk.inj (Except.ok.inj hleft) with ⟨hdigits, hcount⟩
  exact ⟨⟨Or.inr hdigits, Or.inl hcount, Or.inr (Or.inr rfl)⟩, fun _ _ _ => trivial⟩

/-- Calls that are accepted have the options that they have by themselves. -/
def Independent (tables : Tables) (calls : List Call) : Prop :=
  forall options own, psRun tables calls initial = .ok options ->
    calls.mapM (Call.options tables) = .ok own -> options = own

theorem not_independent {calls : List Call} {view : Type}
    {f : List Options -> view} {x y : view}
    (hrun : (psRun tables calls initial).map f = .ok x)
    (hown : (calls.mapM (Call.options tables)).map f = .ok y) (hne : x ≠ y) :
    ¬ Independent tables calls := by
  intro h
  cases hoptions : psRun tables calls initial with
  | error reason =>
      rw [hoptions] at hrun
      cases hrun
  | ok options =>
      cases hall : calls.mapM (Call.options tables) with
      | error reason =>
          rw [hall] at hown
          cases hown
      | ok own =>
          rw [hoptions] at hrun
          rw [hall] at hown
          cases hrun
          cases hown
          exact hne (congrArg f (h options own hoptions hall))

/--
Behind `ps -x`, which only the second way accepts, `ps -e` asks for the environment
instead of all processes; and `ps w` behind `ps w` is wider than the first one.
-/
theorem options_of_earlier_calls :
    ¬ Independent someTables [psCall ["-x"], psCall ["-e"]] ∧
      ¬ Independent someTables [psCall ["w"], psCall ["w"]] := by
  constructor
  · apply not_independent (f :=
      List.map (fun o => (o.globals.allProcesses, o.globals.bsdEOption)))
      (x := [(false, false), (false, true)]) (y := [(false, false), (true, false)])
    · decide +kernel
    · decide +kernel
    · decide
  · apply not_independent (f := List.map (fun o => o.globals.screenCols)) (x :=
      [132, 131072]) (y := [132, 132])
    · decide +kernel
    · decide +kernel
    · decide

end Ps
end Lepd
