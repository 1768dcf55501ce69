import Lepd.CJson.LeafPrefixes

/-!
# Prefixes of a text

The results about strings, literals and numbers are carried over to whole texts
by induction on the grammar.  A cut inside a part of a text is a cut inside the
text, because the lexical state at the start of each part is the initial one.
-/

namespace Lepd
namespace CJson

open Foundation
open Foundation.Scan
open CJson.Lex

variable {double : Type} [CDouble double]

/-!
# Parsing the rest of the buffer
-/

theorem parseEntry_nul (stack : Stack) (depth : Nat) (kind : Kind)
    (cur : List UInt8) :
    kind.parseEntry stack (parseValue stack (depth + 1) : Parse (Item double))
      (nul :: cur) =
      .null (nul :: cur) := by
  cases kind with
  | array =>
      change parseElement _ _ = _
      rw [parseElement_apply, parseValue_nul]
      rfl
  | object =>
      rfl

theorem halted_null {value : Type} {p : List UInt8} {k : Nat}
    {o : Outcome Fault UInt8 value}
    (ho : o = .null (zeros (k + 1))) (hp : CJson.Resumable p) :
    Halted (zeros (k + 1)) (CJson.Resumable p) o :=
  Or.inr ⟨zeros (k + 1), Or.inl ho, stuck_zeros k, ⟨fun _ => hp, fun _ => rfl⟩⟩

theorem halted_ok {value : Type} {p : List UInt8} {k : Nat}
    {o : Outcome Fault UInt8 value}
    {a : value} (ho : o = .ok a (zeros (k + 1))) (hp : CJson.Resumable p) :
    Halted (zeros (k + 1)) (CJson.Resumable p) o :=
  Or.inr ⟨zeros (k + 1), Or.inr ⟨a, ho⟩, stuck_zeros k, ⟨fun _ => hp, fun _ => rfl⟩⟩

/-!
# The induction
-/

def StopsInside (stack : Stack) (k : Nat) (text : List UInt8) : Node double -> Prop
  | .value _ =>
      forall p depth, p <+: text -> p.length < depth ->
        Halted (zeros (k + 1)) (CJson.Resumable p)
          (parseValue stack depth (p ++ zeros (k + 1)) : Outcome _ _ (Item double))
  | .entry kind _ =>
      forall p depth, p <+: text -> p.length < depth ->
        Halted (zeros (k + 1)) (CJson.Resumable p)
          (kind.parseEntry stack (parseValue stack depth : Parse (Item double))
            (p ++ zeros (k + 1)))
  | .entries kind _ =>
      forall p depth, p <+: text -> p.length < depth ->
        forall (fuel : List UInt8 -> Nat) (acc : List (kind.Entry double)),
          (forall cur, 0 < fuel cur) ->
          (forall cur, cur.length <= (p ++ zeros (k + 1)).length ->
            cur.length < fuel cur) ->
          Waits (zeros (k + 1)) (CJson.Resumable p)
            (andThen (kind.parseEntry stack (parseValue stack depth)
              (p ++ zeros (k + 1)))
              (fun e cur => itemsLoop kind.closing
                (kind.parseEntry stack (parseValue stack depth)) (fuel cur)
                  (acc ++ [e]) cur))

theorem skip_cut {w text p : List UInt8} {node : Node double} (hw : Ws w)
    (h : Denotes node text) (hp : p <+: text) (k : Nat) (kind : Kind) :
    exists c tail, p ++ zeros (k + 1) = c :: tail ∧ c ≠ kind.closing ∧
      skip (w ++ (p ++ zeros (k + 1))) = .ok () (c :: tail) := by
  cases p with
  | nil =>
      exact ⟨nul, zeros k, rfl, by cases kind <;> decide, by
        rw [skip_ws hw, List.nil_append]
        exact skip_cons rfl (zeros k)⟩
  | cons c p =>
      rcases denotes_head h with ⟨d, tail, rfl, hd⟩
      rcases List.cons_prefix_cons.mp hp with ⟨rfl, _⟩
      exact ⟨c, p ++ zeros (k + 1), rfl, hd.right kind, by
        rw [skip_ws hw, List.cons_append, skip_cons hd.left]⟩

theorem ws_of_cut {p w r : List UInt8} (hw : Ws w) (h : w = p ++ r) : Ws p :=
  fun c hc => hw c (h ▸ List.mem_append_left r hc)

theorem skip_ws_zeros {w : List UInt8} (hw : Ws w) (k : Nat) :
    skip (w ++ zeros (k + 1)) = .ok () (zeros (k + 1)) := by
  rw [skip_ws hw]
  exact (stuck_zeros k).skip

theorem resumable_of_read {p word : List UInt8} (h : (out []).read p = out word)
    (hword : (out word).Resumable) : CJson.Resumable p := by
  rw [CJson.Resumable, h]
  exact hword

theorem resumable_out : (out []).Resumable := by
  decide

/-!
# Containers
-/

theorem waits_null {value : Type} {p : List UInt8} {k : Nat}
    {o : Outcome Fault UInt8 value}
    (ho : o = .null (zeros (k + 1))) (hp : CJson.Resumable p) :
    Waits (zeros (k + 1)) (CJson.Resumable p) o :=
  Or.inr ⟨zeros (k + 1), ho, stuck_zeros k, ⟨fun _ => hp, fun _ => rfl⟩⟩

theorem waits_opening (stack : Stack) (k : Nat) (kind : Kind) {w : List UInt8}
    {depth : Nat}
    (hw : Ws w) (hdepth : (kind.opening :: w).length < depth + 1) :
    Waits (zeros (k + 1)) (CJson.Resumable (kind.opening :: w))
      (parseValue stack (depth + 1) (kind.opening :: w ++ zeros (k + 1)) :
        Outcome _ _ (Item double)) := by
  have hskip := skip_ws_zeros hw k
  have hclosing : nul ≠ kind.closing := by
    cases kind <;> decide
  rcases kind.opening_other with ⟨hn, hf, ht⟩
  have hread : (out []).read (kind.opening :: w) = out [] := by
    have hopen := read_opening kind hw []
    rw [List.append_nil] at hopen
    exact hopen
  refine waits_null ?_ (resumable_of_read hread resumable_out)
  rw [List.cons_append, parseValue_other hn hf ht, dispatch_container,
    parseItems_first hskip hclosing]
  cases depth with
  | zero =>
      simp at hdepth
  | succ depth =>
      rw [parseEntry_nul]
      rfl

theorem waits_entries (stack : Stack) (k : Nat) (kind : Kind)
    {w text p : List UInt8}
    {es : List (kind.Entry double)} {depth : Nat} (hw : Ws w)
    (hentries : Denotes (.entries kind es) text)
    (ih : StopsInside stack k text (.entries kind es)) (hp : p <+: text)
    (hdepth : p.length < depth) :
    Waits (zeros (k + 1)) (CJson.Resumable (kind.opening :: (w ++ p)))
      (parseValue stack (depth + 1) (kind.opening :: (w ++ p) ++ zeros (k + 1)) :
        Outcome _ _ (Item double)) := by
  rcases skip_cut hw hentries hp k kind with ⟨c, tail, htail, hc, hskip⟩
  rcases kind.opening_other with ⟨hn, hf, ht⟩
  have hread : CJson.Resumable (kind.opening :: (w ++ p)) <->
      CJson.Resumable p := by
    rw [CJson.Resumable, read_opening kind hw]
    rfl
  rw [hread, List.cons_append, List.append_assoc, parseValue_other hn hf ht,
    dispatch_container,
    parseItems_first hskip hc, ← htail]
  exact (ih p depth hp hdepth (fun cur => cur.length + 1) []
    (fun cur => Nat.succ_pos _)
    (fun cur _ => Nat.lt_succ_self _)).followed _

/-- Where a container with white space behind its opening bracket can be cut. -/
theorem prefix_container {p w text : List UInt8} {c d : UInt8}
    (h : p <+: c :: (w ++ (text ++ [d]))) :
    p = [] ∨ (exists q, q <+: w ∧ p = c :: q) ∨
      (exists q, q <+: text ∧ p = c :: (w ++ q)) ∨
      p = c :: (w ++ (text ++ [d])) := by
  cases p with
  | nil =>
      exact Or.inl rfl
  | cons a p =>
      rcases List.cons_prefix_cons.mp h with ⟨rfl, hrest⟩
      rcases prefix_append_cases hrest with ⟨b, r, hw⟩ | ⟨q, hq, rfl⟩
      · exact Or.inr (Or.inl ⟨p, ⟨b :: r, hw.symm⟩, rfl⟩)
      · rcases List.prefix_concat_iff.mp hq with rfl | hq
        · exact Or.inr (Or.inr (Or.inr rfl))
        · exact Or.inr (Or.inr (Or.inl ⟨q, hq, rfl⟩))

theorem waits_nil (stack : Stack) (k depth : Nat) :
    Waits (zeros (k + 1)) (CJson.Resumable [])
      (parseValue stack (depth + 1) ([] ++ zeros (k + 1)) :
        Outcome _ _ (Item double)) :=
  waits_null (parseValue_nul stack depth (zeros k))
    (resumable_of_read rfl resumable_out)

theorem waits_empty (stack : Stack) (k : Nat) (kind : Kind) {w p : List UInt8}
    {depth : Nat}
    (hw : Ws w) (hp : p <+: kind.opening :: (w ++ [kind.closing]))
    (hne : p ≠ kind.opening :: (w ++ [kind.closing]))
    (hdepth : p.length < depth + 1) :
    Waits (zeros (k + 1)) (CJson.Resumable p)
      (parseValue stack (depth + 1) (p ++ zeros (k + 1)) :
        Outcome _ _ (Item double)) := by
  have hp' : p <+: kind.opening :: (w ++ ([] ++ [kind.closing])) := hp
  rcases prefix_container hp' with rfl | ⟨q, ⟨r, hq⟩, rfl⟩ | ⟨q, hq, rfl⟩ | h
  · exact waits_nil stack k depth
  · exact waits_opening stack k kind (ws_of_cut hw hq.symm) hdepth
  · rw [List.prefix_nil.mp hq, List.append_nil] at hdepth ⊢
    exact waits_opening stack k kind hw hdepth
  · exact absurd h hne

theorem waits_container (stack : Stack) (k : Nat) (kind : Kind)
    {w text p : List UInt8}
    {es : List (kind.Entry double)} {depth : Nat} (hw : Ws w)
    (hentries : Denotes (.entries kind es) text)
    (ih : StopsInside stack k text (.entries kind es))
    (hp : p <+: kind.opening :: (w ++ (text ++ [kind.closing])))
    (hne : p ≠ kind.opening :: (w ++ (text ++ [kind.closing])))
    (hdepth : p.length < depth + 1) :
    Waits (zeros (k + 1)) (CJson.Resumable p)
      (parseValue stack (depth + 1) (p ++ zeros (k + 1)) :
        Outcome _ _ (Item double)) := by
  rcases prefix_container hp with rfl | ⟨q, ⟨r, hq⟩, rfl⟩ | ⟨q, hq, rfl⟩ | h
  · exact waits_nil stack k depth
  · exact waits_opening stack k kind (ws_of_cut hw hq.symm) hdepth
  · have hlength : q.length < depth := by
      simp at hdepth
      omega
    exact waits_entries stack k kind hw hentries ih hq hlength
  · exact absurd h hne

theorem halted_whole (stack : Stack) (k : Nat) (kind : Kind)
    {es : List (kind.Entry double)}
    {text : List UInt8} {depth : Nat} (h : Denotes (.value (kind.wrap es)) text)
    (hdepth : text.length < depth) :
    Halted (zeros (k + 1)) (CJson.Resumable text)
      (parseValue stack depth (text ++ zeros (k + 1)) :
        Outcome _ _ (Item double)) :=
  halted_ok
    (readAs_of_denotes stack h depth (zeros (k + 1)) hdepth (List.mem_cons_self)
      (Or.inr ⟨kind, es, rfl⟩))
    (resumable_of_read (read_container kind h) resumable_out)

/-!
# Entries
-/

theorem stopsInside_element (stack : Stack) (k : Nat) {v : Item double}
    {text w : List UInt8}
    (hvalue : Denotes (.value v) text) (hw : Ws w)
    (ih : StopsInside stack k text (.value v)) :
    StopsInside stack k (text ++ w) (.entry .array v) := by
  intro p depth hp hdepth
  have hinside : p <+: text -> Halted (zeros (k + 1)) (CJson.Resumable p)
      (parseElement (parseValue stack depth : Parse (Item double))
        (p ++ zeros (k + 1))) := by
    intro hp
    refine (ih p depth hp hdepth).followed (fun v cur hstuck => ?_)
    rw [bind_apply, hstuck.skip]
    exact Or.inr ⟨v, rfl⟩
  rcases prefix_append_cases hp with ⟨c, r, htext⟩ | ⟨q, ⟨r, hq⟩, rfl⟩
  · exact hinside ⟨c :: r, htext.symm⟩
  · cases q with
    | nil =>
        exact hinside (by simp)
    | cons c q =>
        have hlength : text.length < depth := by
          simp at hdepth
          omega
        have hwsq : Ws (c :: q) := ws_of_cut hw hq.symm
        have hc : IsWs c := hwsq c List.mem_cons_self
        have hread := readAs_of_denotes stack hvalue depth
          (c :: q ++ zeros (k + 1)) hlength
          (by simp) (Or.inl ⟨c, _, rfl, Or.inl hc⟩)
        rcases read_denotes hvalue with ⟨word, hword⟩
        have hstate : (out []).read (text ++ c :: q) = out [] := by
          rw [read_behind hword (endsWord_ws hc)]
          exact read_ws (fun d hd => hwsq d (List.mem_cons_of_mem c hd))
        have helement : parseElement (parseValue stack depth)
            (text ++ c :: q ++ zeros (k + 1)) =
            .ok v (zeros (k + 1)) := by
          rw [List.append_assoc, parseElement_apply, hread, andThen_ok,
            skip_ws_zeros hwsq]
          rfl
        exact halted_ok helement (resumable_of_read hstate resumable_out)

theorem prefix_member {p name w w' text : List UInt8} {c : UInt8}
    (h : p <+: name ++ (w ++ (c :: (w' ++ text)))) :
    p <+: name ∨ (exists q, q <+: w ∧ p = name ++ q) ∨
      (exists q, q <+: w' ∧ p = name ++ (w ++ (c :: q))) ∨
      exists q, q <+: text ∧ p = name ++ (w ++ (c :: (w' ++ q))) := by
  rcases prefix_append_cases h with ⟨a, r, hname⟩ | ⟨q, hq, rfl⟩
  · exact Or.inl ⟨a :: r, hname.symm⟩
  · rcases prefix_append_cases hq with ⟨a, r, hw⟩ | ⟨q', hq', rfl⟩
    · exact Or.inr (Or.inl ⟨q, ⟨a :: r, hw.symm⟩, rfl⟩)
    · cases q' with
      | nil =>
          exact Or.inr (Or.inl ⟨w, List.prefix_rfl, by simp⟩)
      | cons a q' =>
          rcases List.cons_prefix_cons.mp hq' with ⟨rfl, hrest⟩
          rcases prefix_append_cases hrest with ⟨b, r, hw⟩ | ⟨q'', hq'', rfl⟩
          · exact Or.inr (Or.inr (Or.inl ⟨q', ⟨b :: r, hw.symm⟩, rfl⟩))
          · exact Or.inr (Or.inr (Or.inr ⟨q'', hq'', rfl⟩))

theorem stopsInside_member (stack : Stack) (k : Nat) {v : Item double}
    {text w w' w'' : List UInt8} (s : List StringChar) (hw : Ws w) (hw' : Ws w')
    (hvalue : Denotes (.value v) text) (hw'' : Ws w'')
    (ih : StopsInside stack k text (.value v)) :
    StopsInside stack k (stringText s ++ (w ++ (colon :: (w' ++ (text ++ w'')))))
      (.entry .object (stringValue s, v)) := by
  intro p depth hp hdepth
  have hnul : forall cur : List UInt8, nul ∈ cur ++ zeros (k + 1) := by
    intro cur
    simp
  change Halted _ _ (parseMember stack (parseValue stack depth) _)
  rcases prefix_member hp with hname | ⟨q, ⟨r, hq⟩, rfl⟩ | ⟨q, ⟨r, hq⟩,
    rfl⟩ | ⟨q, hq, rfl⟩
  · exact parseMember_stuck stack _ (parseStringAt_cut stack s hname k)
  · have hwsq : Ws q := ws_of_cut hw hq.symm
    have hstate : (out []).read (stringText s ++ q) = out [] := by
      rw [read_append, read_stringText, read_ws hwsq]
    refine halted_null ?_ (resumable_of_read hstate resumable_out)
    rw [List.append_assoc]
    exact parseMember_stop (parseStringAt_stringText stack s (hnul q))
      (skip_ws_zeros hwsq k)
      (by decide)
  · have hwsq : Ws q := ws_of_cut hw' hq.symm
    have hstate : (out []).read (stringText s ++ (w ++ (colon :: q))) = out [] := by
      have hcolon := read_colon s hw hwsq []
      rw [List.append_nil] at hcolon
      exact hcolon
    refine halted_null ?_ (resumable_of_read hstate resumable_out)
    have hmember := parseMember_stringText stack (parseValue stack depth :
      Parse (Item double)) s hw
      (hnul q)
    rw [show stringText s ++ (w ++ (colon :: q)) ++ zeros (k + 1) =
      stringText s ++ (w ++ (colon :: (q ++ zeros (k + 1)))) by simp, hmember,
      afterColon_apply _ _ (skip_ws_zeros hwsq k)]
    cases depth with
    | zero =>
        cases hdepth
    | succ depth =>
        rw [parseElement_apply, zeros_succ, parseValue_nul]
        rfl
  · have hread : CJson.Resumable (stringText s ++ (w ++ (colon :: (w' ++ q)))) <->
        CJson.Resumable q := by
      rw [CJson.Resumable, read_colon s hw hw']
      rfl
    have hmember := parseMember_stringText stack (parseValue stack depth :
      Parse (Item double)) s hw
      (hnul (w' ++ q))
    have helement := Denotes.element hvalue hw''
    rcases skip_cut hw' helement hq k .array with ⟨c, tail, htail, _, hskip⟩
    rw [hread, show stringText s ++ (w ++ (colon :: (w' ++ q))) ++ zeros (k + 1) =
      stringText s ++ (w ++ (colon :: (w' ++ q ++ zeros (k + 1)))) by simp, hmember,
      List.append_assoc, afterColon_apply _ _ hskip, ← htail]
    have hlength : q.length < depth := by
      simp at hdepth
      omega
    exact (stopsInside_element stack k hvalue hw'' ih q depth hq hlength).followed
      (fun v cur _ => Or.inr ⟨_, rfl⟩)

/-!
# Sequences of entries
-/

theorem stopsInside_last (stack : Stack) (k : Nat) {kind : Kind}
    {e : kind.Entry double}
    {text : List UInt8} (ih : StopsInside stack k text (.entry kind e)) :
    StopsInside stack k text (.entries kind [e]) := by
  intro p depth hp hdepth fuel acc hpos _
  refine (ih p depth hp hdepth).followed_null (fun e cur hstuck => ?_)
  rcases Nat.exists_eq_succ_of_ne_zero (Nat.pos_iff_ne_zero.mp (hpos cur)) with
    ⟨n, hn⟩
  rw [hn]
  exact hstuck.itemsLoop kind _ _ n

theorem stopsInside_more (stack : Stack) (k : Nat) {kind : Kind}
    {e : kind.Entry double}
    {es : List (kind.Entry double)} {text w more : List UInt8}
    (hentry : Denotes (.entry kind e) text)
    (ih : StopsInside stack k text (.entry kind e))
    (hw : Ws w) (hmore : Denotes (.entries kind es) more)
    (ihmore : StopsInside stack k more (.entries kind es)) :
    StopsInside stack k (text ++ (comma :: (w ++ more)))
      (.entries kind (e :: es)) := by
  intro p depth hp hdepth fuel acc hpos hfuel
  rcases prefix_append_cases hp with ⟨c, r, htext⟩ | ⟨q, hq, rfl⟩
  · exact stopsInside_last stack k ih p depth ⟨c :: r, htext.symm⟩ hdepth fuel
      acc hpos hfuel
  · cases q with
    | nil =>
        rw [List.append_nil] at hdepth hfuel ⊢
        exact stopsInside_last stack k ih text depth List.prefix_rfl hdepth fuel
          acc hpos
          hfuel
    | cons c q =>
        rcases List.cons_prefix_cons.mp hq with ⟨rfl, hrest⟩
        have hlength : text.length < depth ∧ q.length < depth := by
          simp at hdepth
          omega
        have hread := readAs_of_denotes stack hentry depth
          (comma :: (q ++ zeros (k + 1)))
          hlength.left (by simp) ⟨comma, _, rfl, Or.inl rfl⟩
        have hcur := hfuel (comma :: (q ++ zeros (k + 1))) (by simp)
        rcases Nat.exists_eq_succ_of_ne_zero (Nat.ne_zero_of_lt hcur) with ⟨n, hn⟩
        rw [hn] at hcur
        rcases read_denotes hentry with ⟨word, hword⟩
        rw [List.append_assoc, List.cons_append, hread, andThen_ok, hn]
        rcases prefix_append_cases hrest with ⟨d, r, hws⟩ | ⟨q', hq', rfl⟩
        · have hwsq : Ws q := ws_of_cut hw hws
          have hclosing : nul ≠ kind.closing := by
            cases kind <;> decide
          have hstate : (out []).read (text ++ comma :: q) = out [] := by
            rw [read_behind hword rfl, read_ws hwsq]
          refine waits_null ?_ (resumable_of_read hstate resumable_out)
          rw [itemsLoop_more (skip_ws_zeros hwsq k) hclosing]
          cases depth with
          | zero =>
              cases hlength.left
          | succ depth =>
              rw [parseEntry_nul]
              rfl
        · rcases skip_cut hw hmore hq' k kind with ⟨d, tail, htail, hd, hskip⟩
          have hstate : CJson.Resumable (text ++ comma :: (w ++ q')) <->
              CJson.Resumable q' := by
            rw [CJson.Resumable, read_behind hword rfl, read_ws_append hw]
            rfl
          rw [hstate, List.append_assoc, itemsLoop_more hskip hd, ← htail]
          have hlength' : q'.length < depth := by
            have := hlength.right
            simp at this
            omega
          refine ihmore q' depth hq' hlength' (fun _ => n) (acc ++ [e])
            (fun cur => ?_)
            (fun cur hle => ?_)
          · simp at hcur
            omega
          · simp at hcur hle
            omega

/-!
# Whole texts
-/

theorem stopsInside_string (stack : Stack) (k : Nat) (s : List StringChar) :
    StopsInside stack k (stringText s) (.value (.string (stringValue s)) :
      Node double) := by
  intro p depth hp hdepth
  have hstring := parseStringAt_cut stack s hp k
  cases depth with
  | zero =>
      cases hdepth
  | succ depth =>
      cases p with
      | nil =>
          exact (waits_nil stack k depth).halted
      | cons c p =>
          rcases List.cons_prefix_cons.mp hp with ⟨rfl, _⟩
          rw [List.cons_append, parseValue_other (by decide) (by decide)
            (by decide),
            dispatch_string]
          exact hstring.followed (fun v cur _ => Or.inr ⟨_, rfl⟩)

theorem stopsInside_literal (stack : Stack) (k : Nat) {text : List UInt8}
    (v : Item double)
    (htext : text ∈ [nullText, falseText, trueText]) :
    StopsInside stack k text (.value v) := by
  intro p depth hp hdepth
  cases depth with
  | zero =>
      cases hdepth
  | succ depth =>
      exact parseValue_literalPrefix stack depth htext hp k

theorem stopsInside_of_denotes (stack : Stack) (k : Nat) {node : Node double}
    {text : List UInt8} (h : Denotes node text) :
    StopsInside stack k text node := by
  induction h with
  | null =>
      exact stopsInside_literal stack k .null (by simp)
  | false =>
      exact stopsInside_literal stack k .false (by simp)
  | true =>
      exact stopsInside_literal stack k .true (by simp)
  | number n hn =>
      intro p depth hp hdepth
      cases depth with
      | zero =>
          cases hdepth
      | succ depth =>
          exact parseValue_numberPrefix stack depth hn hp k
  | string s =>
      exact stopsInside_string stack k s
  | @empty kind w hw =>
      intro p depth hp hdepth
      by_cases hne : p = kind.opening :: (w ++ [kind.closing])
      · rw [hne] at hdepth ⊢
        exact halted_whole stack k kind (.empty kind hw) hdepth
      · cases depth with
        | zero =>
            cases hdepth
        | succ depth =>
            exact (waits_empty stack k kind hw hp hne hdepth).halted
  | @container kind w text es hw hentries ih =>
      intro p depth hp hdepth
      by_cases hne : p = kind.opening :: (w ++ (text ++ [kind.closing]))
      · rw [hne] at hdepth ⊢
        exact halted_whole stack k kind (.container kind hw hentries) hdepth
      · cases depth with
        | zero =>
            cases hdepth
        | succ depth =>
            exact (waits_container stack k kind hw hentries ih hp hne hdepth).halted
  | element hvalue hw ih =>
      exact stopsInside_element stack k hvalue hw ih
  | member s hw hw' hvalue hw'' ih =>
      exact stopsInside_member stack k s hw hw' hvalue hw'' ih
  | last hentry ih =>
      exact stopsInside_last stack k ih
  | more hentry hw hrest ih ihrest =>
      exact stopsInside_more stack k hentry ih hw hrest ihrest

theorem waits_of_denotes (stack : Stack) (k : Nat) (kind : Kind)
    {es : List (kind.Entry double)}
    {text p : List UInt8} {depth : Nat}
    (h : Denotes (.value (kind.wrap es)) text) (hp : p <+: text)
    (hne : p ≠ text) (hdepth : p.length < depth) :
    Waits (zeros (k + 1)) (CJson.Resumable p)
      (parseValue stack depth (p ++ zeros (k + 1)) :
        Outcome _ _ (Item double)) := by
  rcases container_text h with ⟨kind', w, hw, rfl⟩ | ⟨kind', es', w, body, hw,
    hentries, rfl⟩
  · cases depth with
    | zero =>
        cases hdepth
    | succ depth =>
        exact waits_empty stack k kind' hw hp hne hdepth
  · cases depth with
    | zero =>
        cases hdepth
    | succ depth =>
        exact waits_container stack k kind' hw hentries
          (stopsInside_of_denotes stack k hentries) hp
          hne hdepth

theorem cJSONParseStream_of_skip {stack : Stack} {cur rest : List UInt8}
    (h : skip cur = .ok () rest) :
    cJSONParseStream stack cur =
      (parseValue stack (rest.length + 1) rest : Outcome _ _ (Item double)) := by
  simp only [cJSONParseStream, bind_apply, h, andThen_ok]

/--
On a proper prefix of a container's text, with zeros behind it, the parser answers
null with the end pointer on the first zero exactly when the text can be resumed.
-/
theorem cJSONParseStream_cut (stack : Stack) (k : Nat) (kind : Kind)
    {es : List (kind.Entry double)} {w text p : List UInt8} (hw : Ws w)
    (h : Denotes (.value (kind.wrap es)) text) (hp : p <+: w ++ text)
    (hne : p ≠ w ++ text) :
    Waits (zeros (k + 1)) (CJson.Resumable p)
      (cJSONParseStream stack (p ++ zeros (k + 1)) :
        Outcome _ _ (Item double)) := by
  rcases prefix_append_cases hp with ⟨c, r, hwp⟩ | ⟨q, hq, rfl⟩
  · have hwsp : Ws p := ws_of_cut hw hwp
    rw [cJSONParseStream_of_skip (skip_ws_zeros hwsp k)]
    exact waits_null (parseValue_nul stack _ (zeros k))
      (resumable_of_read (read_ws hwsp) resumable_out)
  · have hne' : q ≠ text := fun heq => hne (by rw [heq])
    have hread : CJson.Resumable (w ++ q) <-> CJson.Resumable q := by
      rw [CJson.Resumable, read_ws_append hw]
      rfl
    rcases skip_cut hw h hq k .array with ⟨c, tail, htail, _, hskip⟩
    rw [hread, List.append_assoc, cJSONParseStream_of_skip hskip, ← htail]
    refine waits_of_denotes stack k kind h hq hne' ?_
    rw [List.length_append]
    omega

end CJson
end Lepd
