import Lepd.CJson.Grammar

/-!
# Single steps of the parser

What each function of the parser does at one place of its text, stated for the
bytes that stand there.  The larger results about whole texts are put together
from these.
-/

namespace Lepd
namespace CJson

open Foundation
open Foundation.Scan

variable {double : Type}

/-!
# White space
-/

theorem isspace_of_isWs {c : UInt8} (h : IsWs c) : isspace c = true := by
  rcases h with rfl | rfl | rfl | rfl <;> rfl

theorem skip_cons {c : UInt8} (h : isspace c = false) (cur : List UInt8) :
    skip (c :: cur) = .ok () (c :: cur) := by
  simp [skip, h]

theorem skip_ws {w : List UInt8} (hw : Ws w) (cur : List UInt8) :
    skip (w ++ cur) = skip cur := by
  induction w with
  | nil =>
      rfl
  | cons c w ih =>
      have hc : isspace c = true := isspace_of_isWs (hw c List.mem_cons_self)
      rw [List.cons_append, skip, if_pos hc]
      exact ih (fun d hd => hw d (List.mem_cons_of_mem c hd))

/-!
# Literals
-/

def dropCommon : List UInt8 -> List UInt8 -> List UInt8
  | s :: str, c :: cur => if c = s then dropCommon str cur else c :: cur
  | _, cur => cur

theorem dropCommon_suffix (str cur : List UInt8) : dropCommon str cur <:+ cur := by
  fun_induction dropCommon str cur with
  | case1 str c cur ih =>
      exact ih.trans (List.suffix_cons c cur)
  | case2 s str c cur hc =>
      exact List.suffix_rfl
  | case3 str cur h =>
      exact List.suffix_rfl

theorem byte_sub_ne_zero {c s : UInt8} (h : c ≠ s) :
    (c.toNat : Int) - s.toNat ≠ 0 := by
  intro hzero
  exact h (UInt8.toNat_inj.mp (by omega))

/-- A literal that the text spells is found, unless the text ends right after it. -/
theorem streamCmp_literal (str : List UInt8) {c : UInt8} (hc : c ≠ nul)
    (cur : List UInt8) :
    streamCmp (str ++ [nul]) (str ++ c :: cur) = .ok 0 (c :: cur) := by
  induction str with
  | nil =>
      simp only [List.nil_append, streamCmp, if_neg hc, if_true]
  | cons s str ih =>
      simpa only [List.cons_append, streamCmp, if_true] using ih

/-- At the end of the text the comparison runs past the end of the literal. -/
theorem streamCmp_literal_nul (str cur : List UInt8) :
    streamCmp (str ++ [nul]) (str ++ nul :: cur) = .fault .literal := by
  induction str with
  | nil =>
      simp only [List.nil_append, streamCmp, if_true]
  | cons s str ih =>
      simpa only [List.cons_append, streamCmp, if_true] using ih

theorem streamCmp_mismatch {str cur : List UInt8} (hstr : nul ∉ str)
    (hcur : nul ∈ cur)
    (h : ¬ str <+: cur) :
    exists k, k ≠ 0 ∧ streamCmp (str ++ [nul]) cur =
      .ok k (dropCommon str cur) := by
  fun_induction dropCommon str cur with
  | case1 str c cur ih =>
      have hc : c ≠ nul := fun hc => hstr (hc ▸ List.mem_cons_self)
      rcases ih (fun hs => hstr (List.mem_cons_of_mem c hs))
          ((List.mem_cons.mp hcur).resolve_left (Ne.symm hc))
          (fun hp => h ((List.prefix_cons_inj c).mpr hp)) with ⟨k, hk, heq⟩
      exact ⟨k, hk, by simpa only [List.cons_append, streamCmp, if_true] using heq⟩
  | case2 s str c cur hc =>
      have hs : s ≠ nul := fun hs => hstr (hs ▸ List.mem_cons_self)
      exact ⟨_, byte_sub_ne_zero hc, by simp only [List.cons_append, streamCmp,
        if_neg hc, if_neg hs]⟩
  | case3 str cur hne =>
      cases str with
      | nil =>
          exact absurd List.nil_prefix h
      | cons s str =>
          cases cur with
          | nil =>
              cases hcur
          | cons c cur =>
              exact absurd rfl (hne s str c cur rfl)

theorem dropCommon_other {s c : UInt8} (h : c ≠ s) (str cur : List UInt8) :
    dropCommon (s :: str) (c :: cur) = c :: cur := by
  simp only [dropCommon, if_neg h]

theorem not_prefix_other {s c : UInt8} (h : c ≠ s) (str cur : List UInt8) :
    ¬ s :: str <+: c :: cur := by
  rintro ⟨t, ht⟩
  injection ht with hs _
  exact h hs.symm

theorem streamCmp_other {s c : UInt8} (h : c ≠ s) (hs : s ≠ nul)
    (str cur : List UInt8) :
    exists k, k ≠ 0 ∧ streamCmp (s :: str ++ [nul]) (c :: cur) = .ok k (c :: cur) :=
  ⟨_, byte_sub_ne_zero h, by simp only [List.cons_append, streamCmp, if_neg h,
    if_neg hs]⟩

/-!
# Containers
-/

def Kind.parseEntry (stack : Stack) (parse : Parse (Item double)) :
    (kind : Kind) -> Parse (kind.Entry double)
  | .array => parseElement parse
  | .object => parseMember stack parse

theorem parseItems_empty {item : Type} {opening closing : UInt8}
    {parseItem : Parse item}
    {cur rest : List UInt8} (h : skip cur = .ok () (closing :: rest)) :
    parseItems opening closing parseItem (opening :: cur) = .ok [] rest := by
  simp [parseItems, peek, h]

theorem parseItems_first {item : Type} {opening closing c : UInt8}
    {parseItem : Parse item}
    {cur rest : List UInt8} (h : skip cur = .ok () (c :: rest)) (hc : c ≠ closing) :
    parseItems opening closing parseItem (opening :: cur) =
      andThen (parseItem (c :: rest))
        (fun child cur => itemsLoop closing parseItem (cur.length + 1)
          [child] cur) := by
  simp [parseItems, peek, h, hc]

theorem itemsLoop_close {item : Type} {closing : UInt8} (hclosing : closing ≠ comma)
    (parseItem : Parse item) (fuel : Nat) (items : List item) (cur : List UInt8) :
    itemsLoop closing parseItem (fuel + 1) items (closing :: cur) =
      .ok items cur := by
  simp only [itemsLoop, peek, bind_apply, peek_cons, andThen_ok,
    if_neg hclosing, closeItems, ne_eq,
    not_true_eq_false, if_false, advance_apply, List.tail_cons, pure_apply]

theorem itemsLoop_stop {item : Type} {closing c : UInt8} (hcomma : c ≠ comma)
    (hclosing : c ≠ closing) (parseItem : Parse item) (fuel : Nat)
    (items : List item)
    (cur : List UInt8) :
    itemsLoop closing parseItem (fuel + 1) items (c :: cur) = .null (c :: cur) := by
  simp only [itemsLoop, peek, bind_apply, peek_cons, andThen_ok, if_neg hcomma,
    closeItems, ne_eq,
    if_pos hclosing, fail_apply]

theorem itemsLoop_more {item : Type} {closing c : UInt8} {parseItem : Parse item}
    {cur rest : List UInt8} (h : skip cur = .ok () (c :: rest))
    (hc : c ≠ closing) (fuel : Nat)
    (items : List item) :
    itemsLoop closing parseItem (fuel + 1) items (comma :: cur) =
      andThen (parseItem (c :: rest))
        (fun child => itemsLoop closing parseItem fuel (items ++ [child])) := by
  simp only [itemsLoop, peek, bind_apply, peek_cons, andThen_ok, if_true,
    advance_apply,
    List.tail_cons, h, if_neg hc]

theorem closeItems_self {item : Type} (closing : UInt8) (items : List item)
    (cur : List UInt8) :
    closeItems closing items (closing :: cur) = .ok items cur := by
  simp only [closeItems, peek, bind_apply, peek_cons, andThen_ok, ne_eq,
    not_true_eq_false, if_false,
    advance_apply, List.tail_cons, pure_apply]

theorem closeItems_other {item : Type} {closing c : UInt8} (h : c ≠ closing)
    (items : List item)
    (cur : List UInt8) : closeItems closing items (c :: cur) = .null
    (c :: cur) := by
  simp only [closeItems, peek, bind_apply, peek_cons, andThen_ok, ne_eq,
    if_pos h, fail_apply]

/-- A comma before the closing bracket makes the loop ask for the bracket twice. -/
theorem itemsLoop_trailing {item : Type} {closing : UInt8} {parseItem : Parse item}
    {cur rest : List UInt8} (h : skip cur = .ok () (closing :: rest)) (fuel : Nat)
    (items : List item) :
    itemsLoop closing parseItem (fuel + 1) items (comma :: cur) =
      closeItems closing items rest := by
  simp only [itemsLoop, peek, bind_apply, peek_cons, andThen_ok, if_true,
    advance_apply,
    List.tail_cons, h]

theorem parseElement_apply (parse : Parse (Item double)) (cur : List UInt8) :
    parseElement parse cur =
      andThen (parse cur) (fun v rest =>
        andThen (skip rest) (fun _ rest => .ok v rest)) :=
  rfl

def afterColon (parse : Parse (Item double)) (name : List UInt8) :
    Parse (List UInt8 × Item double) := do
  skip
  let child <- parse
  skip
  return (name, child)

theorem afterColon_apply (parse : Parse (Item double)) (name : List UInt8)
    {cur rest : List UInt8} (h : skip cur = .ok () rest) :
    afterColon parse name cur =
      andThen (parseElement parse rest) (fun v after => .ok (name, v) after) := by
  simp only [afterColon, bind_apply, h, andThen_ok, parseElement_apply]
  cases parse rest with
  | ok v after =>
      simp only [andThen_ok, bind_apply]
      cases skip after <;> rfl
  | null after =>
      rfl
  | fault reason =>
      rfl

theorem parseMember_colon {stack : Stack} {parse : Parse (Item double)}
    {name : List UInt8}
    {cur mid rest : List UInt8} (hname : parseStringAt stack cur = .ok name mid)
    (hskip : skip mid = .ok () (colon :: rest)) :
    parseMember stack parse cur = afterColon parse name rest := by
  simp only [parseMember, bind_apply, hname, andThen_ok, hskip, peek, peek_cons,
    ne_eq,
    not_true_eq_false, if_false, advance_apply, List.tail_cons]
  rfl

theorem parseMember_stop {stack : Stack} {parse : Parse (Item double)}
    {name : List UInt8}
    {c : UInt8} {cur mid rest : List UInt8}
    (hname : parseStringAt stack cur = .ok name mid)
    (hskip : skip mid = .ok () (c :: rest)) (hc : c ≠ colon) :
    parseMember stack parse cur = .null (c :: rest) := by
  simp only [parseMember, bind_apply, hname, andThen_ok, hskip, peek, peek_cons,
    ne_eq, if_pos hc,
    fail_apply]

/-!
# Values
-/

variable [CDouble double]

def dispatch (stack : Stack) (parseValue : Parse (Item double)) :
    Parse (Item double) := do
  let c <- peek
  if c = quote then do
    let valuestring <- parseStringAt stack
    return .string valuestring
  else if c = minus ∨ isDigit c then parseNumber
  else if c = lbracket then parseArray parseValue
  else if c = lbrace then parseObject stack parseValue
  else fail

theorem parseValue_null {stack : Stack} {depth : Nat} {cur rest : List UInt8}
    (h : streamCmp (nullText ++ [nul]) cur = .ok 0 rest) :
    parseValue stack (depth + 1) cur = .ok (.null : Item double) rest := by
  simp only [parseValue, bind_apply, h, andThen_ok, ite_apply, if_true, pure_apply]

theorem parseValue_false {stack : Stack} {depth : Nat}
    {cur mid rest : List UInt8} {k : Int}
    (hk : k ≠ 0) (hnull : streamCmp (nullText ++ [nul]) cur = .ok k mid)
    (h : streamCmp (falseText ++ [nul]) mid = .ok 0 rest) :
    parseValue stack (depth + 1) cur = .ok (.false : Item double) rest := by
  simp only [parseValue, bind_apply, hnull, andThen_ok, ite_apply, if_neg hk, h,
    if_true, pure_apply]

theorem parseValue_true {stack : Stack} {depth : Nat}
    {cur mid mid' rest : List UInt8}
    {k k' : Int} (hk : k ≠ 0) (hnull : streamCmp (nullText ++ [nul]) cur =
    .ok k mid)
    (hk' : k' ≠ 0) (hfalse : streamCmp (falseText ++ [nul]) mid = .ok k' mid')
    (h : streamCmp (trueText ++ [nul]) mid' = .ok 0 rest) :
    parseValue stack (depth + 1) cur = .ok (.true : Item double) rest := by
  simp only [parseValue, bind_apply, hnull, andThen_ok, ite_apply, if_neg hk,
    hfalse, if_neg hk', h,
    if_true, pure_apply]

theorem parseValue_null_fault {stack : Stack} {depth : Nat} {cur : List UInt8}
    {reason : Fault}
    (h : streamCmp (nullText ++ [nul]) cur = .fault reason) :
    parseValue stack (depth + 1) cur =
      (.fault reason : Outcome _ _ (Item double)) := by
  simp only [parseValue, bind_apply, h, andThen_fault]

theorem parseValue_false_fault {stack : Stack} {depth : Nat}
    {cur mid : List UInt8} {k : Int}
    {reason : Fault} (hk : k ≠ 0) (hnull : streamCmp (nullText ++ [nul]) cur =
    .ok k mid)
    (h : streamCmp (falseText ++ [nul]) mid = .fault reason) :
    parseValue stack (depth + 1) cur =
      (.fault reason : Outcome _ _ (Item double)) := by
  simp only [parseValue, bind_apply, hnull, andThen_ok, ite_apply, if_neg hk, h,
    andThen_fault]

theorem parseValue_true_fault {stack : Stack} {depth : Nat}
    {cur mid mid' : List UInt8}
    {k k' : Int} {reason : Fault} (hk : k ≠ 0)
    (hnull : streamCmp (nullText ++ [nul]) cur = .ok k mid)
    (hk' : k' ≠ 0) (hfalse : streamCmp (falseText ++ [nul]) mid = .ok k' mid')
    (h : streamCmp (trueText ++ [nul]) mid' = .fault reason) :
    parseValue stack (depth + 1) cur =
      (.fault reason : Outcome _ _ (Item double)) := by
  simp only [parseValue, bind_apply, hnull, andThen_ok, ite_apply, if_neg hk,
    hfalse, if_neg hk', h,
    andThen_fault]

theorem parseValue_dispatch {stack : Stack} {depth : Nat}
    {cur mid mid' mid'' : List UInt8} {k k' k'' : Int}
    (hk : k ≠ 0) (hnull : streamCmp (nullText ++ [nul]) cur = .ok k mid)
    (hk' : k' ≠ 0) (hfalse : streamCmp (falseText ++ [nul]) mid = .ok k' mid')
    (hk'' : k'' ≠ 0) (htrue : streamCmp (trueText ++ [nul]) mid' = .ok k'' mid'') :
    parseValue stack (depth + 1) cur =
      dispatch stack (parseValue stack depth : Parse (Item double)) mid'' := by
  simp only [parseValue, bind_apply, hnull, andThen_ok, ite_apply, if_neg hk,
    hfalse, if_neg hk',
    htrue, if_neg hk'']
  rfl

theorem parseValue_other {stack : Stack} {depth : Nat} {c : UInt8}
    (hn : c ≠ 110) (hf : c ≠ 102) (ht : c ≠ 116) (cur : List UInt8) :
    parseValue stack (depth + 1) (c :: cur) =
      dispatch stack (parseValue stack depth : Parse (Item double)) (c :: cur) := by
  rcases streamCmp_other hn (by decide) [117, 108, 108] cur with ⟨k, hk, hnull⟩
  rcases streamCmp_other hf (by decide) [97, 108, 115, 101] cur with
    ⟨k', hk', hfalse⟩
  rcases streamCmp_other ht (by decide) [114, 117, 101] cur with ⟨k'', hk'', htrue⟩
  exact parseValue_dispatch hk hnull hk' hfalse hk'' htrue

theorem dispatch_string (stack : Stack) (parse : Parse (Item double))
    (cur : List UInt8) :
    dispatch stack parse (quote :: cur) =
      andThen (parseStringAt stack (quote :: cur))
        (fun s rest => .ok (.string s) rest) := by
  simp [dispatch, peek]
  rfl

theorem dispatch_number (stack : Stack) (parse : Parse (Item double)) {c : UInt8}
    (hc : c = minus ∨ isDigit c = true) (cur : List UInt8) :
    dispatch stack parse (c :: cur) = parseNumber (c :: cur) := by
  have hquote : c ≠ quote := by
    rintro rfl
    rcases hc with hc | hc <;> exact absurd hc (by decide)
  simp only [dispatch, peek, bind_apply, peek_cons, andThen_ok, if_neg hquote,
    if_pos hc]

theorem dispatch_fail (stack : Stack) (parse : Parse (Item double)) {c : UInt8}
    (hquote : c ≠ quote) (hnumber : ¬ (c = minus ∨ isDigit c = true))
    (hkind : forall kind : Kind, c ≠ kind.opening) (cur : List UInt8) :
    dispatch stack parse (c :: cur) = .null (c :: cur) := by
  have hbracket : c ≠ lbracket := hkind .array
  have hbrace : c ≠ lbrace := hkind .object
  simp only [dispatch, peek, bind_apply, peek_cons, andThen_ok, if_neg hquote,
    if_neg hnumber,
    if_neg hbracket, if_neg hbrace, fail_apply]

theorem dispatch_container (stack : Stack) (parse : Parse (Item double))
    (kind : Kind)
    (cur : List UInt8) :
    dispatch stack parse (kind.opening :: cur) =
      andThen (parseItems kind.opening kind.closing (kind.parseEntry stack parse)
        (kind.opening :: cur)) (fun items rest => .ok (kind.wrap items) rest) := by
  cases kind with
  | array =>
      rfl
  | object =>
      rfl

end CJson
end Lepd
