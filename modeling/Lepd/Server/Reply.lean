import Lepd.CJson.Syntax
import Lepd.Foundation.Strtok

/-!
# Replies

The handlers that build a reply from external output.  Each reads into a local
buffer, appends the end marker, and hands the string in the buffer on.
-/

namespace Lepd
namespace Server

open Foundation
open CJson

/-- `PROC_BUFF` -/
def procBuff : Nat := 8192

def cmdBuff : Nat := 16384

/-- The text `lepdendstring`. -/
def endstring : List UInt8 :=
  [108, 101, 112, 100, 101, 110, 100, 115, 116, 114, 105, 110, 103]

/-- A local array, with whatever the stack holds there. -/
abbrev LocalArray (size : Nat) : Type :=
  { mem : List UInt8 // mem.length = size }

/-- Where a handler reads from: a call delivers no more bytes than asked for, or
fails. -/
structure Source where
  read : Nat -> Option (List UInt8)
  read_le : forall n bytes, read n = some bytes -> bytes.length <= n

/-- What a call delivers; a failed one delivers nothing. -/
def Source.delivered (source : Source) (n : Nat) : List UInt8 :=
  (source.read n).getD []

theorem Source.delivered_length (source : Source) (n : Nat) :
    (source.delivered n).length <= n := by
  unfold Source.delivered
  cases hread : source.read n with
  | none =>
      exact Nat.zero_le n
  | some bytes =>
      exact source.read_le n bytes hread

/-- What a handler meets before it reads: `ctx->data`, and whether `open`,
`pipe` or `popen` succeeds. -/
structure Call where
  data : Option (List UInt8)
  opened : Bool

def lookupTable : List (List UInt8 × Bool) :=
  [([115, 121, 115], false),
   ([112, 114, 111, 99], false),
   ([112, 101, 114, 102], false),
   ([112, 115], true),
   ([99, 112, 117, 105, 110, 102, 111], true),
   ([105, 111, 115, 116, 97, 116], true),
   ([109, 112, 115, 116, 97, 116], true),
   ([102, 114, 101, 101], true),
   ([116, 111, 112], true),
   ([112, 114, 111, 99, 114, 97, 110, 107], true),
   ([105, 111, 116, 111, 112], true),
   ([100, 102], true),
   ([100, 109, 101, 115, 103], true),
   ([99, 103, 116, 111, 112], true),
   ([105, 114, 113, 95, 105, 110, 102, 111], true)]

def lookupFunc (name : List UInt8) : Option Bool :=
  (lookupTable.find? (fun p => p.1 == name)).map Prod.snd

/-- What `lookup_func` finds for the first word of a command; there is no entry
for `NULL`. -/
def builtinOf (data : List UInt8) : Option Bool :=
  (Strtok.words 32 (cString data)).head?.bind lookupFunc

inductive Reply where
  | null
  /-- `cJSON_CreateString` is called with this string. -/
  | string (text : List UInt8)
  /-- A byte outside of the local array, or a null pointer, was accessed. -/
  | undefined
deriving DecidableEq

/-!
# The handlers
-/

/-- Clear the array, read up to `limit` bytes into it, and append the end marker. -/
def frame (array : List UInt8) (limit : Nat) (source : Source) :
    Option (List UInt8) := do
  let buff <- Block.memset array 0 0 array.length
  let buff <- Block.write buff 0 (source.delivered limit)
  let buff <- Block.strcat 0 buff endstring
  return Block.string 0 buff 0

def createString : Option (List UInt8) -> Reply
  | some text => .string text
  | none => .undefined

def readProc (array : LocalArray procBuff) (call : Call) (source : Source) :
    Reply :=
  if call.data.isNone then .null
  else if call.opened = false then .null
  else createString (frame array.val procBuff source)

def runBuiltinCmd (array : LocalArray cmdBuff) (call : Call) (source : Source) :
    Reply :=
  match call.data with
  | none => .null
  | some data =>
      match builtinOf data with
      -- `info` is read without a check
      | none => .undefined
      | some false => .null
      | some true =>
          if call.opened = false then .null
          else createString (frame array.val (cmdBuff - endstring.length - 1)
            source)

def runPopen (array : LocalArray cmdBuff) (call : Call) (source : Source) : Reply :=
  if call.data.isNone then .null
  else if call.opened = false then .null
  else createString (frame array.val (cmdBuff - endstring.length - 1) source)

def runCmd : LocalArray cmdBuff -> Call -> Source -> Reply :=
  runPopen

def runPerfReportCmd : LocalArray cmdBuff -> Call -> Source -> Reply :=
  runPopen

def runPerfScriptCmd : LocalArray cmdBuff -> Call -> Source -> Reply :=
  runPopen

/-!
# Framing
-/

/-- The handlers, by name. -/
inductive Handler where
  | readProc
  | runBuiltinCmd
  | runCmd
  | runPerfReportCmd
  | runPerfScriptCmd
deriving DecidableEq

namespace Handler

/-- The size of the local array. -/
def size : Handler -> Nat
  | .readProc => procBuff
  | _ => cmdBuff

/-- How many bytes are asked for. -/
def limit : Handler -> Nat
  | .readProc => procBuff
  | _ => cmdBuff - endstring.length - 1

def answer : (handler : Handler) -> LocalArray handler.size -> Call -> Source ->
    Reply
  | .readProc => Server.readProc
  | .runBuiltinCmd => Server.runBuiltinCmd
  | .runCmd => Server.runCmd
  | .runPerfReportCmd => Server.runPerfReportCmd
  | .runPerfScriptCmd => Server.runPerfScriptCmd

/-- The handler comes to its read. -/
def Reads (handler : Handler) (call : Call) : Prop :=
  call.opened = true ∧ exists data, call.data = some data ∧
    (handler = .runBuiltinCmd -> builtinOf data = some true)

end Handler

/-- The reply that is asked for: the bytes up to the first NUL, and the end
marker. -/
def framed (delivered : List UInt8) : List UInt8 :=
  cString delivered ++ endstring

/-- A handler that comes to its read hands on the string asked for, and any
other hands on none. -/
def Framed (handler : Handler) (array : LocalArray handler.size) (call : Call)
    (source : Source) :
    Prop :=
  (handler.Reads call ->
      handler.answer array call source =
        .string (framed (source.delivered handler.limit))) ∧
    (¬ handler.Reads call -> forall text, handler.answer array call source ≠
    .string text)

theorem nul_not_mem_endstring : nul ∉ endstring := by
  decide

theorem frame_eq {array : List UInt8} {limit : Nat} (source : Source)
    (hlimit : limit <= array.length) :
    frame array limit source =
      (Block.strcat 0 (source.delivered limit ++
        List.replicate (array.length - (source.delivered limit).length) 0)
          endstring).map
          (fun buff => Block.string 0 buff 0) := by
  have hclear : Block.memset array 0 0 array.length =
      some (List.replicate array.length 0) := by
    rw [Block.memset, Block.write_of_le (by rw [List.length_replicate]; omega),
      List.length_replicate,
      List.take_zero, Nat.zero_add, List.drop_length, List.append_nil,
        List.nil_append]
  have hlength := source.delivered_length limit
  have hwrite : Block.write (List.replicate array.length 0) 0
      (source.delivered limit) =
      some (source.delivered limit ++
        List.replicate (array.length - (source.delivered limit).length) 0) := by
    rw [Block.write_of_le (by rw [List.length_replicate]; omega),
      List.take_zero, Nat.zero_add,
      List.drop_replicate, List.nil_append]
  simp only [frame, hclear, hwrite, Option.bind_eq_bind, Option.bind_some,
    Option.pure_def]
  rw [Option.map_eq_bind]
  rfl

theorem cString_eq (bytes : List UInt8) : cString bytes = bytes.takeWhile
    (fun c => c ≠ nul) := by
  unfold cString
  congr 1
  funext c
  simp [bne, beq_eq_decide]

theorem nul_not_mem_cString (bytes : List UInt8) : nul ∉ cString bytes := by
  rw [cString_eq]
  intro hmem
  have hne := List.mem_takeWhile_imp hmem
  simp at hne

/-- The string at the front of the array is what was delivered up to its first
NUL. -/
theorem string_delivered (bytes : List UInt8) (n : Nat) :
    Block.string 0 (bytes ++ List.replicate n 0) 0 = cString bytes := by
  have hzeros : (List.replicate n (0 : UInt8)).takeWhile (fun c => c ≠ nul) =
      [] := by
    cases n with
    | zero =>
        rfl
    | succ n =>
        exact List.takeWhile_cons_of_neg (by simp)
  unfold Block.string
  rw [List.drop_zero, List.takeWhile_append, hzeros, List.append_nil, cString_eq]
  split
  · next hall =>
      exact ((List.takeWhile_prefix _).eq_of_length hall).symm
  · rfl

/-- The reply is framed when the marker and its NUL fit, and otherwise the array
is left. -/
theorem frame_framed {array : List UInt8} {limit : Nat} (source : Source)
    (hlimit : limit <= array.length) :
    frame array limit source =
      if (cString (source.delivered limit)).length + endstring.length + 1 <=
        array.length then
        some (framed (source.delivered limit))
      else none := by
  have hlength := source.delivered_length limit
  rw [frame_eq source hlimit]
  generalize source.delivered limit = bytes at hlength ⊢
  have hsize : (bytes ++ List.replicate (array.length - bytes.length)
    (0 : UInt8)).length =
      array.length := by
    rw [List.length_append, List.length_replicate]
    omega
  by_cases hmem : 0 ∈ bytes ++ List.replicate (array.length - bytes.length) 0
  · rcases Block.drop_eq_string (i := 0)
      (by rw [List.drop_zero]; exact hmem) with ⟨rest, hrest, hnul⟩
    rw [List.drop_zero] at hrest
    rw [string_delivered] at hrest hnul
    split
    · next hfits =>
        rcases Block.strcat_eq_some endstring hnul hrest
          (by rw [hsize]; exact hfits) with ⟨tail, htail⟩
        have hframed : nul ∉ framed bytes := by
          simp [framed, nul_not_mem_cString, nul_not_mem_endstring]
        rw [htail, Option.map_some, Block.string_of_drop hframed (by
          rw [List.drop_zero, framed, List.append_assoc])]
    · next hfull =>
        rw [Block.strcat_eq_none endstring hnul hrest (by omega), Option.map_none]
  · have hall : bytes.length = array.length := by
      rcases Nat.lt_or_ge bytes.length array.length with hlt | hge
      · exact absurd (List.mem_append_right bytes
          (List.mem_replicate.mpr ⟨by omega, rfl⟩)) hmem
      · omega
    have hself : cString bytes = bytes := by
      rw [cString_eq, List.takeWhile_eq_self_iff]
      intro c hc
      have hne : c ≠ nul := by
        rintro rfl
        exact hmem (List.mem_append_left _ hc)
      simpa using hne
    rw [Block.strcat_of_not_mem hmem, Option.map_none, if_neg]
    rw [hself]
    omega

/-!
# The handlers together
-/

theorem answer_of_reads {handler : Handler} {call : Call} (h : handler.Reads call)
    (array : LocalArray handler.size) (source : Source) :
    handler.answer array call source =
      createString (frame array.val handler.limit source) := by
  rcases h with ⟨hopened, data, hdata, hbuiltin⟩
  cases handler with
  | readProc =>
      simp [Handler.answer, readProc, hdata, hopened, Handler.limit]
  | runBuiltinCmd =>
      simp [Handler.answer, runBuiltinCmd, hdata, hopened, hbuiltin rfl,
        Handler.limit]
  | runCmd =>
      simp [Handler.answer, runCmd, runPopen, hdata, hopened, Handler.limit]
  | runPerfReportCmd =>
      simp [Handler.answer, runPerfReportCmd, runPopen, hdata, hopened,
        Handler.limit]
  | runPerfScriptCmd =>
      simp [Handler.answer, runPerfScriptCmd, runPopen, hdata, hopened,
        Handler.limit]

theorem limit_le_size (handler : Handler) : handler.limit <= handler.size := by
  cases handler <;> decide

theorem limit_fits {handler : Handler} (h : handler ≠ .readProc) :
    handler.limit + endstring.length + 1 <= handler.size := by
  cases handler with
  | readProc =>
      exact absurd rfl h
  | runBuiltinCmd | runCmd | runPerfReportCmd | runPerfScriptCmd =>
      decide

theorem runBuiltinCmd_of_not_reads {call : Call}
    (h : ¬ Handler.runBuiltinCmd.Reads call)
    (array : LocalArray cmdBuff) (source : Source) :
    runBuiltinCmd array call source = .null ∨ runBuiltinCmd array call source =
      .undefined := by
  unfold runBuiltinCmd
  split
  · exact .inl rfl
  · next data hdata =>
      split
      · exact .inr rfl
      · exact .inl rfl
      · next hbuiltin =>
          split
          · exact .inl rfl
          · next hopened =>
              exact absurd
                ⟨by simpa using hopened, data, hdata, fun _ => hbuiltin⟩ h

theorem runPopen_of_not_opened {call : Call}
    (h : ¬ (call.opened = true ∧ exists data, call.data = some data))
    (array : LocalArray cmdBuff) (source : Source) :
    runPopen array call source = .null := by
  unfold runPopen
  split
  · rfl
  · split
    · rfl
    · next hdata hopened =>
        rw [Option.isNone_iff_eq_none] at hdata
        exact absurd ⟨by simpa using hopened, Option.ne_none_iff_exists'.mp hdata⟩ h

theorem readProc_of_not_opened {call : Call}
    (h : ¬ (call.opened = true ∧ exists data, call.data = some data))
    (array : LocalArray procBuff) (source : Source) :
    readProc array call source = .null := by
  unfold readProc
  split
  · rfl
  · split
    · rfl
    · next hdata hopened =>
        rw [Option.isNone_iff_eq_none] at hdata
        exact absurd ⟨by simpa using hopened, Option.ne_none_iff_exists'.mp hdata⟩ h

theorem reads_iff {handler : Handler} (h : handler ≠ .runBuiltinCmd) (call : Call) :
    handler.Reads call <-> call.opened = true ∧ exists data, call.data =
      some data := by
  simp [Handler.Reads, h]

theorem answer_of_not_reads {handler : Handler} {call : Call}
    (h : ¬ handler.Reads call)
    (array : LocalArray handler.size) (source : Source) :
    handler.answer array call source = .null ∨
      handler.answer array call source = .undefined := by
  cases handler with
  | readProc =>
      exact .inl (readProc_of_not_opened ((reads_iff (by decide) call).not.mp h)
        array source)
  | runBuiltinCmd =>
      exact runBuiltinCmd_of_not_reads h array source
  | runCmd | runPerfReportCmd | runPerfScriptCmd =>
      exact .inl (runPopen_of_not_opened ((reads_iff (by decide) call).not.mp h)
        array source)

theorem createString_eq_string_iff {o : Option (List UInt8)} {text : List UInt8} :
    createString o = .string text <-> o = some text := by
  cases o with
  | none => exact ⟨(fun heq => nomatch heq), (fun heq => nomatch heq)⟩
  | some text' => rw [createString, Reply.string.injEq, Option.some.injEq]

/-- A handler that comes to its read leaves room for the marker, unless it is
`read_proc`. -/
theorem answer_framed_iff {handler : Handler} {call : Call} (h : handler.Reads call)
    (array : LocalArray handler.size) (source : Source) :
    handler.answer array call source =
      .string (framed (source.delivered handler.limit)) <->
      (handler = .readProc ->
        (cString (source.delivered handler.limit)).length + endstring.length +
          1 <= procBuff) := by
  have hstarts : (cString (source.delivered handler.limit)).length <=
      handler.limit :=
    Nat.le_trans (List.takeWhile_prefix _).length_le (source.delivered_length _)
  have hlimit : handler.limit <= array.val.length := by
    rw [array.property]
    exact limit_le_size handler
  rw [answer_of_reads h, createString_eq_string_iff, frame_framed source hlimit,
    array.property]
  by_cases hproc : handler = .readProc
  · subst hproc
    split
    · next hfits =>
        exact ⟨fun _ _ => hfits, fun _ => rfl⟩
    · next hfull =>
        exact ⟨(fun heq => nomatch heq), fun hroom => absurd (hroom rfl) hfull⟩
  · have hfits := limit_fits hproc
    rw [if_pos (by omega)]
    exact ⟨fun _ heq => absurd heq hproc, fun _ => rfl⟩

/--
A handler hands on the framed bytes, and stays in its array, if and only if it
is not `read_proc`, or the string that is delivered leaves room for the marker
and its NUL.
-/
theorem reply_framed_iff (handler : Handler) (array : LocalArray handler.size)
    (call : Call)
    (source : Source) :
    Framed handler array call source <->
      (handler = .readProc -> handler.Reads call ->
        (cString (source.delivered handler.limit)).length + endstring.length +
          1 <= procBuff) := by
  unfold Framed
  constructor
  · intro h hproc hreads
    exact (answer_framed_iff hreads array source).mp (h.left hreads) hproc
  · intro h
    constructor
    · intro hreads
      exact (answer_framed_iff hreads array source).mpr
        (fun hproc => h hproc hreads)
    · intro hreads text heq
      rcases answer_of_not_reads hreads array source with hnull | hundefined
      · cases hnull.symm.trans heq
      · cases hundefined.symm.trans heq

/-- A file that gives as many bytes as are asked for. -/
def longFile : Source where
  read n := some (List.replicate n 97)
  read_le n bytes h := by
    cases h
    rw [List.length_replicate]

/-- A read of `read_proc` fills its array, and the marker is written behind it. -/
theorem readProc_leaves :
    ¬ Framed .readProc ⟨List.replicate procBuff 0, List.length_replicate⟩
      { data := some [115, 116, 97, 116], opened := true } longFile := by
  have hstring : cString (longFile.delivered procBuff) =
      List.replicate procBuff 97 := by
    rw [cString_eq]
    exact List.takeWhile_eq_self_iff.mpr
      (fun c hc => by rw [List.eq_of_mem_replicate hc]; rfl)
  have hlimit : procBuff <= (List.replicate procBuff (0 : UInt8)).length :=
    Nat.le_of_eq List.length_replicate.symm
  intro h
  have hanswer := h.left ⟨rfl, _, rfl, fun heq => nomatch heq⟩
  change createString (frame (List.replicate procBuff 0) procBuff longFile) =
    _ at hanswer
  rw [createString_eq_string_iff, frame_framed longFile hlimit, hstring,
    List.length_replicate,
    List.length_replicate, if_neg (by omega)] at hanswer
  cases hanswer

end Server
end Lepd
