import Lepd.CJson.RoundTrip
import Lepd.Server.Reply

/-!
# The kernel log

`dmesg_main`, which prints the kernel log from an allocated buffer, and the
reply that `run_builtin_cmd` makes of it.
-/

namespace Lepd
namespace Server

open Foundation
open CJson

/-- A block from `malloc`, with whatever was left in it. -/
abbrev Allocation (size : Nat) : Type :=
  { mem : List UInt8 // mem.length = size }

/-- What `getopt32` makes of the arguments. -/
structure Options where
  /-- `OPT_c` -/
  c : Bool := false
  /-- `OPT_n` -/
  n : Bool := false
  /-- `len`, which `-s` sets -/
  len : Nat := 2048

/--
What `dmesg_main` writes into the pipe, if it stays in its buffer. The call of
`klogctl` tells its type and length, and delivers bytes or fails.
-/
def dmesgMain (opts : Options) (klogctl : Nat -> Nat -> Option (List UInt8))
    (buf : Allocation opts.len) :
    Option (List UInt8) :=
  if opts.n then some []
  else
    match klogctl (3 + if opts.c then 1 else 0) opts.len with
    | none => some []
    | some bytes =>
        if bytes.length = 0 then some []
        else do
          let buf <- Block.write buf.val 0 bytes
          let len <- Block.strlen 0 buf 0
          some (buf.take len ++ [10])

def lastBytes (log : List UInt8) (len : Nat) : List UInt8 :=
  log.drop (log.length - len)

theorem lastBytes_length (log : List UInt8) (len : Nat) :
    (lastBytes log len).length = min len log.length := by
  rw [lastBytes, List.length_drop]
  omega

/-- Both ways to read the log deliver its last bytes. -/
def klogctl (log : List UInt8) (_type len : Nat) : Option (List UInt8) :=
  some (lastBytes log len)

/-- The end of the pipe that is read, where the other one is closed. -/
def pipe (written : List UInt8) : Source where
  read n := some (written.take n)
  read_le n bytes h := by
    cases h
    exact List.length_take_le n written

def dmesgCall : Call where
  data := some [100, 109, 101, 115, 103]
  opened := true

def dmesgReply (array : LocalArray cmdBuff) (log : List UInt8)
    (buf : Allocation 2048) : Reply :=
  match dmesgMain {} (klogctl log) buf with
  | some written => runBuiltinCmd array dmesgCall (pipe written)
  | none => .undefined

/-!
# The reply that is asked for
-/

/-- What `klogctl` delivers of the log. -/
def delivered (log : List UInt8) : List UInt8 :=
  lastBytes log 2048

/-- The bytes delivered up to the first NUL, and a newline, up to the limit of
the read, and the end marker. -/
def asked (log : List UInt8) : List UInt8 :=
  (cString (delivered log) ++ [10]).take Handler.runBuiltinCmd.limit ++ endstring

/-- With two contents of the buffer the reply is one and the same, the one asked
for. -/
def Undisclosed (log : List UInt8) (buf buf' : Allocation 2048) : Prop :=
  forall array array' : LocalArray cmdBuff,
    dmesgReply array log buf = dmesgReply array' log buf' ∧
      dmesgReply array log buf = .string (asked log)

/-- A NUL is among the bytes delivered, or right behind them in the buffer. -/
def Ended (log : List UInt8) (buf : Allocation 2048) : Prop :=
  nul ∈ delivered log ∨ buf.val[(delivered log).length]? = some nul

/-!
# What is written
-/

theorem delivered_length (log : List UInt8) : (delivered log).length <= 2048 := by
  rw [delivered, lastBytes_length]
  exact Nat.min_le_left _ _

/-- The buffer after `klogctl`: the bytes delivered, and what was left behind
them. -/
theorem write_delivered (log : List UInt8) (buf : Allocation 2048) :
    Block.write buf.val 0 (delivered log) =
      some (delivered log ++ buf.val.drop (delivered log).length) := by
  have hlength := delivered_length log
  have hfits : 0 + (delivered log).length <= buf.val.length := by
    rw [buf.property]
    omega
  rw [Block.write_of_le hfits, List.take_zero, Nat.zero_add, List.nil_append]

theorem dmesgMain_empty {log : List UInt8} (h : delivered log = [])
    (buf : Allocation 2048) :
    dmesgMain {} (klogctl log) buf = some [] := by
  have hlength : (lastBytes log 2048).length = 0 := List.length_eq_zero_iff.mpr h
  simp only [dmesgMain, klogctl, Bool.false_eq_true, if_false, hlength, if_true]

/-- The string at the front of the buffer and a newline, if the string has an
end. -/
theorem dmesgMain_delivered {log : List UInt8} (h : delivered log ≠ [])
    (buf : Allocation 2048) :
    dmesgMain {} (klogctl log) buf =
      if nul ∈ delivered log ++ buf.val.drop (delivered log).length then
        some (cString (delivered log ++ buf.val.drop (delivered log).length) ++
          [10])
      else none := by
  have hlength : (lastBytes log 2048).length ≠ 0 := fun heq =>
    h (List.length_eq_zero_iff.mp heq)
  have hwrite : Block.write buf.val 0 (lastBytes log 2048) =
      some (delivered log ++ buf.val.drop (delivered log).length) :=
        write_delivered log buf
  simp only [dmesgMain, klogctl, Bool.false_eq_true, if_false, hlength, hwrite,
    Option.bind_eq_bind, Option.bind_some]
  generalize delivered log ++ buf.val.drop (delivered log).length = mem
  split
  · next hmem =>
      rw [Block.strlen_of_mem (by rw [List.drop_zero]; exact hmem),
        Option.bind_some, cString_eq, Block.string,
        List.drop_zero, ← List.prefix_iff_eq_take.mp (List.takeWhile_prefix _)]
  · next hmem =>
      rw [Block.strlen_of_not_mem hmem]
      rfl

/-!
# The reply
-/

theorem dmesgReply_of_line {log line : List UInt8} {buf : Allocation 2048}
    (array : LocalArray cmdBuff)
    (h : dmesgMain {} (klogctl log) buf = some line) (hplain : nul ∉ line)
    (hlength : line.length <= Handler.runBuiltinCmd.limit) :
    dmesgReply array log buf = .string (line ++ endstring) := by
  have hreads : Handler.runBuiltinCmd.Reads dmesgCall := ⟨rfl, _, rfl, fun _ => rfl⟩
  have hanswer := answer_of_reads hreads array (pipe line)
  have hlimit : Handler.runBuiltinCmd.limit <= array.val.length := by
    rw [array.property]
    exact limit_le_size _
  have hdelivered : (pipe line).delivered Handler.runBuiltinCmd.limit = line :=
    List.take_of_length_le hlength
  have hroom : Handler.runBuiltinCmd.limit + endstring.length + 1 <=
      cmdBuff := by decide
  have hfits : line.length + endstring.length + 1 <= cmdBuff := by omega
  rw [frame_framed (pipe line) hlimit, hdelivered, array.property,
    cString_of_not_mem hplain, if_pos hfits, framed,
    cString_of_not_mem hplain] at hanswer
  unfold dmesgReply
  rw [h]
  exact hanswer

theorem nul_not_mem_line (text : List UInt8) : nul ∉ cString text ++ [10] := by
  rw [List.mem_append, not_or]
  exact ⟨nul_not_mem_cString text, by decide⟩

theorem asked_eq (log : List UInt8) : asked log = cString (delivered log) ++
    [10] ++ endstring := by
  have hlength : (cString (delivered log)).length <= (delivered log).length :=
    (List.takeWhile_prefix _).length_le
  have hdelivered := delivered_length log
  have hlimit : 2049 <= Handler.runBuiltinCmd.limit := by decide
  have hfits : (cString (delivered log) ++ [10]).length <=
      Handler.runBuiltinCmd.limit := by
    rw [List.length_append, List.length_singleton]
    omega
  rw [asked, List.take_of_length_le hfits]

/-- The string in the buffer is the one delivered if it ends among the bytes
delivered or right behind them. -/
theorem cString_append_eq_iff (front rest : List UInt8) :
    nul ∈ front ++ rest ∧ cString (front ++ rest) = cString front <->
      nul ∈ front ∨ rest[0]? = some nul := by
  by_cases hfront : nul ∈ front
  · have hshort : ¬ (front.takeWhile (fun c => c ≠ nul)).length = front.length := by
      intro hlength
      have hall := (List.takeWhile_prefix _).eq_of_length hlength
      rw [← cString_eq] at hall
      exact nul_not_mem_cString front (hall.symm ▸ hfront)
    have hsame : cString (front ++ rest) = cString front := by
      rw [cString_eq, cString_eq, List.takeWhile_append, if_neg hshort]
    exact ⟨fun _ => Or.inl hfront, fun _ =>
      ⟨List.mem_append_left rest hfront, hsame⟩⟩
  · have hself := cString_of_not_mem hfront
    have hboth : cString (front ++ rest) = front ++ cString rest := by
      rw [cString_eq] at hself
      rw [cString_eq, cString_eq, List.takeWhile_append,
        if_pos (congrArg List.length hself)]
    rw [hboth, hself, List.append_right_eq_self, or_iff_right hfront]
    cases rest with
    | nil =>
        constructor
        · intro h
          exact absurd (by simpa using h.left) hfront
        · intro h
          cases h
    | cons c rest =>
        by_cases hc : c = nul
        · subst hc
          exact ⟨fun _ => rfl, fun _ => ⟨by simp, rfl⟩⟩
        · have hstring : cString (c :: rest) = c :: cString rest := by
            rw [cString_eq, cString_eq, List.takeWhile_cons_of_pos
              (by simpa using hc)]
          constructor
          · intro h
            exact absurd (hstring.symm.trans h.right) (List.cons_ne_nil _ _)
          · intro h
            exact absurd (Option.some.inj h) hc

/-- The reply is the one asked for if there is something delivered, and the
string ends there or right behind. -/
theorem dmesgReply_asked_iff (array : LocalArray cmdBuff) (log : List UInt8)
    (buf : Allocation 2048) :
    dmesgReply array log buf = .string (asked log) <-> delivered log ≠ [] ∧
      Ended log buf := by
  rw [asked_eq]
  by_cases hempty : delivered log = []
  · have hreply := dmesgReply_of_line array (dmesgMain_empty hempty buf)
      List.not_mem_nil (Nat.zero_le _)
    rw [hreply, hempty]
    constructor
    · intro h
      exact absurd (congrArg List.length (Reply.string.inj h)) (by decide)
    · intro h
      exact absurd rfl h.left
  · have hwritten := dmesgMain_delivered hempty buf
    have hended : Ended log buf <-> nul ∈ delivered log ++
        buf.val.drop (delivered log).length ∧
        cString (delivered log ++ buf.val.drop (delivered log).length) =
          cString (delivered log) := by
      rw [cString_append_eq_iff, List.getElem?_drop, Nat.add_zero]
      rfl
    have hlength :
        (delivered log ++ buf.val.drop (delivered log).length).length = 2048 := by
      have hle := delivered_length log
      rw [List.length_append, List.length_drop, buf.property]
      omega
    rw [hended]
    generalize delivered log ++ buf.val.drop (delivered log).length =
      mem at hwritten hlength
    split at hwritten
    · next hmem =>
        have hline : (cString mem ++ [10]).length <=
            Handler.runBuiltinCmd.limit := by
          have hle : (cString mem).length <= mem.length :=
            (List.takeWhile_prefix _).length_le
          have hlimit : 2049 <= Handler.runBuiltinCmd.limit := by decide
          rw [List.length_append, List.length_singleton]
          omega
        rw [dmesgReply_of_line array hwritten (nul_not_mem_line mem) hline,
          Reply.string.injEq, List.append_left_inj,
          List.append_left_inj]
        exact ⟨fun h => ⟨hempty, hmem, h⟩, fun h => h.right.right⟩
    · next hmem =>
        unfold dmesgReply
        rw [hwritten]
        exact ⟨fun h => (nomatch h), fun h => absurd h.right.left hmem⟩

theorem ended_of_undisclosed {log : List UInt8} {buf buf' : Allocation 2048}
    (h : Undisclosed log buf buf') :
    delivered log ≠ [] ∧ Ended log buf ∧ Ended log buf' := by
  have array : LocalArray cmdBuff :=
    ⟨List.replicate cmdBuff 0, List.length_replicate⟩
  rcases h array array with ⟨hsame, hreply⟩
  have hfirst := (dmesgReply_asked_iff array log buf).mp hreply
  have hsecond := (dmesgReply_asked_iff array log buf').mp (hsame ▸ hreply)
  exact ⟨hfirst.left, hfirst.right, hsecond.right⟩

theorem undisclosed_of_ended {log : List UInt8} {buf buf' : Allocation 2048}
    (h : delivered log ≠ [])
    (hbuf : Ended log buf) (hbuf' : Ended log buf') : Undisclosed log buf buf' := by
  intro array array'
  have hfirst := (dmesgReply_asked_iff array log buf).mpr ⟨h, hbuf⟩
  have hsecond := (dmesgReply_asked_iff array' log buf').mpr ⟨h, hbuf'⟩
  exact ⟨hfirst.trans hsecond.symm, hfirst⟩

/--
With two contents of the buffer the reply is the one asked for if and only if
there is something delivered, and in both of them the string ends among the
bytes delivered or right behind them.
-/
theorem dmesg_undisclosed_iff (log : List UInt8) (buf buf' : Allocation 2048) :
    Undisclosed log buf buf' <-> delivered log ≠ [] ∧ Ended log buf ∧
      Ended log buf' :=
  ⟨ended_of_undisclosed, fun h => undisclosed_of_ended h.left h.right.left
    h.right.right⟩

/-- A block that was full of one byte, up to the last one. -/
def leftover (byte last : UInt8) : Allocation 2048 :=
  ⟨List.replicate 2047 byte ++ [last], by rw [List.length_append,
    List.length_replicate, List.length_singleton]⟩

/-- For whatever is left in the buffer the reply is the one asked for only where
a NUL is delivered. -/
theorem undisclosed_of_every_iff (log : List UInt8) :
    (forall buf buf', Undisclosed log buf buf') <-> nul ∈ delivered log := by
  constructor
  · intro h
    rcases ended_of_undisclosed (h (leftover 1 1) (leftover 1 1)) with
      ⟨_, hmem | hbehind, _⟩
    · exact hmem
    · have hmem := List.mem_of_getElem? hbehind
      have hnone : nul ∉ (leftover 1 1).val := by
        rw [leftover, List.mem_append, List.mem_replicate, List.mem_singleton]
        decide
      exact absurd hmem hnone
  · intro h buf buf'
    exact undisclosed_of_ended (List.ne_nil_of_mem h) (Or.inl h) (Or.inl h)

/-- What is left of an earlier request follows the log. -/
theorem dmesg_discloses : ¬ Undisclosed [60, 54, 62, 117, 112] (leftover 0 0)
    (leftover 107 0) := by
  have hdelivered : delivered [60, 54, 62, 117, 112] = [60, 54, 62, 117, 112] := rfl
  have hnone : ¬ Ended [60, 54, 62, 117, 112] (leftover 107 0) := by
    unfold Ended
    rw [hdelivered]
    intro h
    rcases h with hmem | hbehind
    · exact absurd hmem (by decide)
    · exact absurd hbehind (by decide +kernel)
  exact fun h => hnone (ended_of_undisclosed h).right.right

end Server
end Lepd
