import Lepd.Ps.Columns

/-!
# Settling the format of ps

Once the options are merged, the format list is that of the user, that of
`PS_FORMAT`, or the default one with its modifications.
-/

namespace Lepd
namespace Ps

open Foundation
open Foundation.Ledger (Returns)

variable {ctx : Context}

/-!
# Texts that are refused at once

What a text has been turned into before it is refused is lost, if no option
holds it.
-/

def AixRefused (tables : Tables) : AixItem -> Prop
  | .text _ => False
  | .desc c =>
      c ≠ byte '%' ∧ forall spec head, tables.searchAixArray c =
      some (spec, head) -> columns tables spec = 0

/-- A text is refused, one way and the other, before there are any columns of it. -/
def RefusedAtOnce (tables : Tables) (sf : Text) : Prop :=
  (forall item items, listItems sf "improper format list" "empty format list" =
    .ok (item :: items) ->
      Refused tables item) ∧
    (byte '%' ∈ sf -> forall item items, aixItems [] sf =
    some (item :: items) -> AixRefused tables item)

theorem formatItems_cons {item : Text} {items : List Text}
    {fCooked : List FormatNode}
    {found : Option Err × List FormatNode}
    (h : Returns (formatItems ctx (item :: items) fCooked) found) :
    Refused ctx.tables item ∧ found.1 ≠ none ∧ found.2 = fCooked ∨
      ¬ Refused ctx.tables item ∧
        exists nodes, nodes ≠ [] ∧ Returns
          (formatItems ctx items (nodes ++ fCooked)) found := by
  rcases h with ⟨b, b', h⟩
  rcases Ledger.bind_returns h with ⟨r, c, hr, hrest⟩
  rw [formatItem_refused ⟨b, c, hr⟩]
  cases r with
  | error err =>
      cases hrest
      exact Or.inl ⟨⟨err, rfl⟩, Option.some_ne_none err, rfl⟩
  | ok nodes =>
      refine Or.inr ⟨fun herr => ?_, nodes, formatItem_ne_nil ⟨b, c, hr⟩, c, b',
        hrest⟩
      rcases herr with ⟨_, herr⟩
      cases herr

theorem aixNodes_cons {item : AixItem} {items : List AixItem}
    {fCooked : List FormatNode}
    {found : Option Err × List FormatNode}
    (h : Returns (aixNodes ctx (item :: items) fCooked) found) :
    AixRefused ctx.tables item ∧ found.1 ≠ none ∧ found.2 = fCooked ∨
      ¬ AixRefused ctx.tables item ∧
        exists nodes, nodes ≠ [] ∧ Returns
          (aixNodes ctx items (nodes ++ fCooked)) found := by
  rcases h with ⟨b, b', h⟩
  cases item with
  | text t =>
      rcases Ledger.bind_returns h with ⟨node, c, _, hrest⟩
      exact Or.inr ⟨not_false, [node], List.cons_ne_nil node [], c, b', hrest⟩
  | desc d =>
      rw [aixNodes] at h
      split at h
      · next hpercent =>
          rcases Ledger.bind_returns h with ⟨node, c, _, hrest⟩
          exact Or.inr ⟨fun hrefused => hrefused.left hpercent, [node],
            List.cons_ne_nil node [], c, b', hrest⟩
      · next hother =>
          cases hsearch : ctx.tables.searchAixArray d with
          | none =>
              simp only [hsearch] at h
              cases h
              refine Or.inl ⟨⟨hother, fun spec head hsome => ?_⟩,
                Option.some_ne_none _, rfl⟩
              rw [hsearch] at hsome
              cases hsome
          | some entry =>
              simp only [hsearch] at h
              rcases Ledger.bind_returns h with ⟨nodes, c, hnodes, hrest⟩
              have hlength := doOneSpec_length ⟨b, c, hnodes⟩
              split at hrest
              · next hnone =>
                  cases hrest
                  refine Or.inl ⟨⟨hother, fun spec head hsome => ?_⟩,
                    Option.some_ne_none _, rfl⟩
                  rw [hsearch] at hsome
                  cases hsome
                  rw [← hlength, hnone]
                  rfl
              · next hsome =>
                  refine Or.inr ⟨fun hrefused => ?_, nodes, hsome, c, b', hrest⟩
                  have hzero := hrefused.right entry.1 entry.2 hsearch
                  rw [← hlength] at hzero
                  exact hsome (List.length_eq_zero_iff.mp hzero)

/-- A loop over items, which ends at the first one that is refused and has
further columns of each other one. -/
structure Collects {item : Type} (loop : List item -> List FormatNode ->
    Run (Option Err × List FormatNode))
    (refused : item -> Prop) : Prop where
  nil : forall {fCooked found}, Returns (loop [] fCooked) found ->
    found = (none, fCooked)
  cons : forall {walk items fCooked found},
    Returns (loop (walk :: items) fCooked) found ->
    refused walk ∧ found.1 ≠ none ∧ found.2 = fCooked ∨
      ¬ refused walk ∧ exists nodes, nodes ≠ [] ∧
        Returns (loop items (nodes ++ fCooked)) found

theorem formatItems_collects : Collects (formatItems ctx) (Refused ctx.tables) where
  nil h := by
    rcases h with ⟨b, b', h⟩
    cases h
    rfl
  cons := formatItems_cons

theorem aixNodes_collects : Collects (aixNodes ctx) (AixRefused ctx.tables) where
  nil h := by
    rcases h with ⟨b, b', h⟩
    cases h
    rfl
  cons := aixNodes_cons

section Loops

variable {item : Type} {loop : List item -> List FormatNode ->
  Run (Option Err × List FormatNode)}
  {refused : item -> Prop}

theorem Collects.grows (hloop : Collects loop refused) {items : List item} :
    forall {fCooked : List FormatNode} {found : Option Err × List FormatNode},
      Returns (loop items fCooked) found ->
      fCooked ≠ [] -> found.2 ≠ [] := by
  induction items with
  | nil =>
      intro fCooked found h hne
      rw [hloop.nil h]
      exact hne
  | cons walk items ih =>
      intro fCooked found h hne
      rcases hloop.cons h with ⟨_, _, hsame⟩ | ⟨_, nodes, _, hrest⟩
      · rw [hsame]
        exact hne
      · exact ih hrest (List.append_ne_nil_of_right_ne_nil nodes hne)

/-- A refused list leaves no columns if there were none, and its first item is
refused. -/
theorem Collects.refused_iff (hloop : Collects loop refused) {items : List item}
    {err : Err}
    {fCooked found : List FormatNode}
    (h : Returns (loop items fCooked) (some err, found)) :
    found = [] <-> fCooked = [] ∧ forall walk others, items = walk :: others ->
      refused walk := by
  cases items with
  | nil =>
      cases hloop.nil h
  | cons walk items =>
      rcases hloop.cons h with ⟨hrefused, _, hsame⟩ | ⟨hgoes, nodes, hnodes, hrest⟩
      · cases hsame
        refine ⟨fun hnone => ⟨hnone, fun walk' others heq => ?_⟩, And.left⟩
        cases heq
        exact hrefused
      · have hgrown := hloop.grows hrest
          (List.append_ne_nil_of_left_ne_nil hnodes fCooked)
        exact ⟨fun hnone => absurd hnone hgrown, fun hboth =>
          absurd (hboth.right walk items rfl) hgoes⟩

end Loops

theorem retryAix_refused {sf : Text} {err err' : Err}
    {fCooked found : List FormatNode}
    (h : Returns (retryAix ctx sf err fCooked) (some err', found)) :
    found = [] <-> fCooked = [] ∧
      (byte '%' ∈ sf -> forall item items, aixItems [] sf =
        some (item :: items) -> AixRefused ctx.tables item) := by
  rcases h with ⟨b, b', h⟩
  unfold retryAix at h
  split at h
  · next hpercent =>
      unfold aixFormatParse at h
      cases hitems : aixItems [] sf with
      | none =>
          simp only [hitems] at h
          cases h
          exact ⟨fun hnone => ⟨hnone, fun _ _ _ hsome => (nomatch hsome)⟩, And.left⟩
      | some items =>
          simp only [hitems] at h
          rcases Ledger.bind_returns h with ⟨⟨err, list⟩, c, hnodes, hrest⟩
          cases err with
          | none =>
              cases hrest
          | some err =>
              cases hrest
              rw [aixNodes_collects.refused_iff ⟨b, _, hnodes⟩]
              exact ⟨fun hboth => ⟨hboth.left, fun _ item others heq =>
                hboth.right item others (Option.some.inj heq)⟩,
                fun hboth => ⟨hboth.left, fun item others heq =>
                  hboth.right hpercent item others (congrArg some heq)⟩⟩
  · next hnot =>
      cases h
      exact ⟨fun hnone => ⟨hnone, fun hpercent => absurd hpercent hnot⟩, And.left⟩

/-- A text that is refused leaves no columns if and only if it is refused at
once. -/
theorem formatParse_refused {sf : Text} {err : Err} {found : List FormatNode}
    (h : Returns (formatParse ctx sf []) (some err, found)) :
    found = [] <-> RefusedAtOnce ctx.tables sf := by
  rcases h with ⟨b, b', h⟩
  unfold formatParse at h
  unfold RefusedAtOnce
  cases hitems : listItems sf "improper format list" "empty format list" with
  | error reason =>
      simp only [hitems] at h
      rw [retryAix_refused ⟨b, b', h⟩]
      exact ⟨fun hboth => ⟨fun _ _ heq => (nomatch heq), hboth.right⟩,
        fun hboth => ⟨rfl, hboth.right⟩⟩
  | ok items =>
      simp only [hitems] at h
      rcases Ledger.bind_returns h with ⟨⟨reason, list⟩, c, hlist, hrest⟩
      cases reason with
      | none =>
          cases hrest
      | some reason =>
          rw [retryAix_refused ⟨c, b', hrest⟩, formatItems_collects.refused_iff
            ⟨b, c, hlist⟩]
          constructor
          · intro hboth
            exact ⟨fun item others heq =>
              hboth.left.right item others (Except.ok.inj heq), hboth.right⟩
          · intro hboth
            exact ⟨⟨rfl, fun item others heq =>
              hboth.left item others (congrArg Except.ok heq)⟩, hboth.right⟩

/-!
# The format of the environment
-/

def UseKept (ctx : Context) (g : Globals) (b : State) : Prop :=
  forall format, ctx.env.nonempty "PS_FORMAT" = some format ->
    has g.threadFlags tfMustUse = false ->
    TextKept ctx.tables format ∧
      after (formatParse ctx format []) (fun found _ => found.1 ≠ none ->
        RefusedAtOnce ctx.tables format) b

def PsFormatKept (ctx : Context) (g : Globals) (b : State) : Prop :=
  g.formatFlags = 0 -> g.formatModifiers = 0 -> g.formatList = [] ->
    UseKept ctx b.globals b

theorem usePsFormat_rest {format : Text} (found : Option Err × List FormatNode)
    (hfound : Returns (formatParse ctx format []) found) :
    lists.Accounts (match found.1 with
        | some _ => return .ok false
        | none => do
            pushFormats found.2
            return .ok true : Run (Except Err Bool))
      (formatNodes found.2) (fun _ => []) (fun _ => found.1 ≠ none ->
        RefusedAtOnce ctx.tables format) := by
  rcases found with ⟨err, fCooked⟩
  cases err with
  | some err =>
      apply Ledger.Accounts.lose rfl
      intro _
      rw [formatNodes, List.map_eq_nil_iff, formatParse_refused hfound]
      exact ⟨fun h => h (Option.some_ne_none err), fun h _ => h⟩
  | none =>
      have hpush : lists.Keeps (pushFormats fCooked >>= fun _ =>
        return .ok true : Run (Except Err Bool))
          (formatNodes fCooked) (fun _ => []) :=
        (pushFormats_keeps fCooked).bind (fun _ _ => Ledger.Keeps.pure rfl)
      exact hpush.accounts (fun _ _ _ _ h => absurd rfl h)

theorem usePsFormat_accounts :
    lists.Accounts (usePsFormat ctx) [] (fun _ => [])
      (fun b => UseKept ctx b.globals b) := by
  unfold usePsFormat
  apply globals_accounts (UseKept ctx)
  intro g
  cases hformat : ctx.env.nonempty "PS_FORMAT" with
  | none =>
      refine Ledger.Keeps.accounts (Ledger.Keeps.pure rfl)
        (fun _ _ _ _ format h => ?_)
      cases hformat.symm.trans h
  | some format =>
      dsimp only
      split
      · next hmust =>
          refine Ledger.Keeps.accounts (Ledger.Keeps.pure rfl)
            (fun _ _ _ _ _ _ h => ?_)
          rw [hmust] at h
          cases h
      · next hfree =>
          have hfree' : has g.threadFlags tfMustUse = false := by simpa using hfree
          apply ((formatParse_accounts format []).bind (fun found hfound =>
            usePsFormat_rest found hfound)).congr
          intro _ _ _ _
          constructor
          · intro hboth format' heq _
            cases hformat.symm.trans heq
            exact hboth
          · intro h
            exact h format hformat hfree'

theorem psFormat_accounts :
    lists.Accounts (psFormat ctx) [] (fun _ => []) (fun b =>
      PsFormatKept ctx b.globals b) := by
  unfold psFormat
  apply globals_accounts (PsFormatKept ctx)
  intro g
  split
  · next hplain =>
      simp only [Bool.and_eq_true, beq_iff_eq] at hplain
      rcases hplain with ⟨⟨hflags, hmodifiers⟩, hlist⟩
      apply usePsFormat_accounts.congr
      intro _ _ _ _
      exact ⟨fun h _ _ _ => h, fun h => h hflags hmodifiers hlist⟩
  · next hother =>
      refine Ledger.Keeps.accounts (Ledger.Keeps.pure rfl)
        (fun _ _ _ _ hflags hmodifiers hlist => ?_)
      simp only [Bool.and_eq_true, beq_iff_eq] at hother
      exact absurd ⟨⟨hflags, hmodifiers⟩, hlist⟩ hother

/-!
# The default format
-/

section Standard

variable (own : OwnColumns ctx.tables)

theorem modifyAll_accounts
    (entries : List ((Bool × Run (Option Err)) × (State -> Prop)))
    (h : forall entry, entry ∈ entries ->
    lists.Accounts entry.1.2 [] (fun _ => []) entry.2) :
    lists.Accounts (modifyAll (entries.map Prod.fst)) [] (fun _ => [])
      (ChangesKept entries) := by
  induction entries with
  | nil =>
      exact Ledger.Keeps.accounts (Ledger.Keeps.pure rfl) (fun _ _ _ _ => trivial)
  | cons entry entries ih =>
      rcases entry with ⟨⟨condition, change⟩, kept⟩
      have hchange := h _ List.mem_cons_self
      have hothers :=
        ih (fun other hother => h other (List.mem_cons_of_mem _ hother))
      cases condition with
      | false =>
          exact hothers
      | true =>
          apply hchange.bind
          intro err _
          cases err with
          | some err =>
              exact Ledger.Keeps.accounts (Ledger.Keeps.pure rfl)
                (fun _ _ _ _ h => (nomatch h))
          | none =>
              exact hothers.congr (fun _ _ _ _ => ⟨fun h _ => h, fun h => h rfl⟩)

include own

theorem changes_account (g : Globals)
    (entry : (Bool × Run (Option Err)) × (State -> Prop))
    (h : entry ∈ changes ctx g) :
    lists.Accounts entry.1.2 [] (fun _ => []) entry.2 := by
  have hreplace : forall (spec findme : String), spec ∈ ownSpecs -> lists.Accounts
      (replaceColumn ctx spec findme >>= fun _ => return none :
        Run (Option Err)) [] (fun _ => [])
        (ColumnLands ctx spec findme) :=
    fun spec findme hspec =>
      (replaceColumn_accounts own hspec findme).bind_keeps
        (fun _ _ => Ledger.Keeps.pure rfl)
  revert entry
  unfold changes
  simp only [List.forall_mem_cons]
  refine ⟨modifyJ_accounts own, modifyY_accounts own, modifyC_accounts own,
    modifyT_accounts own,
    modifyL_accounts own, modifyM_accounts own,
      hreplace "sgi_p" "ADDR" (by decide), hreplace "user" "UID" (by decide),
    ?_⟩
  intro entry hnone
  cases hnone

theorem modifyFormat_accounts :
    lists.Accounts (modifyFormat ctx) [] (fun _ => []) (fun b =>
      ChangesKept (changes ctx b.globals) b) :=
  globals_accounts (fun g => ChangesKept (changes ctx g))
    (fun g => modifyAll_accounts (changes ctx g) (changes_account own g))

end Standard

/-- The default format is not one of the named ones, or its modifications lose
no column. -/
def StandardKept (ctx : Context) (g : Globals) (b : State) : Prop :=
  forall spec, formatSpec g = some (some spec) ->
    after (doOneSpec ctx spec none) (fun nodes =>
      after (pushFormats nodes) (fun _ c =>
        ChangesKept (changes ctx c.globals) c)) b

theorem standardFormat_accounts (own : OwnColumns ctx.tables) :
    lists.Accounts (standardFormat ctx) [] (fun _ => []) (fun b =>
      StandardKept ctx b.globals b) := by
  unfold standardFormat
  apply globals_accounts (StandardKept ctx)
  intro g
  cases hspec : formatSpec g with
  | none =>
      refine Ledger.Keeps.accounts (Ledger.Keeps.pure rfl)
        (fun _ _ _ _ spec h => ?_)
      cases hspec.symm.trans h
  | some spec =>
      cases spec with
      | none =>
          refine (generateSysvList_keeps own).accounts (fun _ _ _ _ spec h => ?_)
          cases hspec.symm.trans h
      | some spec =>
          dsimp only
          apply ((doOneSpec_keeps spec none).bind_accounts (fun nodes _ =>
            (pushFormats_keeps nodes).bind_accounts (fun _ _ =>
              modifyFormat_accounts own))).congr
          intro _ _ _ _
          constructor
          · intro h spec' heq
            cases hspec.symm.trans heq
            exact h
          · intro h
            exact h spec hspec

/-!
# All of it
-/

def ChosenKept (ctx : Context) (settled : Except Err Bool) (g : Globals)
    (b : State) : Prop :=
  settled = .ok false -> g.formatList = [] -> StandardKept ctx b.globals b

def SettleKept (ctx : Context) (g : Globals) (b : State) : Prop :=
  (g.sortList = [] ∨ has g.threadFlags tfNoSort = false) ->
    PsFormatKept ctx b.globals b ∧ after (psFormat ctx) (fun settled c =>
      ChosenKept ctx settled c.globals c) b

theorem settleFormat_rest (own : OwnColumns ctx.tables)
    (settled : Except Err Bool) :
    lists.Accounts (match settled with
        | .error err => return some err
        | .ok true => return none
        | .ok false => do
            let g <- globals
            if g.formatList != [] then return userFormat g
            else standardFormat ctx : Run (Option Err))
      [] (fun _ => []) (fun b => ChosenKept ctx settled b.globals b) := by
  cases settled with
  | error err =>
      exact Ledger.Keeps.accounts (Ledger.Keeps.pure rfl)
        (fun _ _ _ _ h => (nomatch h))
  | ok done =>
      cases done with
      | true =>
          exact Ledger.Keeps.accounts (Ledger.Keeps.pure rfl)
            (fun _ _ _ _ h => (nomatch h))
      | false =>
          apply globals_accounts (ChosenKept ctx (.ok false))
          intro g
          split
          · next hlist =>
              refine Ledger.Keeps.accounts (Ledger.Keeps.pure rfl)
                (fun _ _ _ _ _ hnone => ?_)
              rw [bne_iff_ne] at hlist
              exact absurd hnone hlist
          · next hlist =>
              have hnone : g.formatList = [] := by simpa using hlist
              exact (standardFormat_accounts own).congr (fun _ _ _ _ =>
                ⟨fun h _ _ => h, fun h => h rfl hnone⟩)

theorem settleFormat_accounts (own : OwnColumns ctx.tables) :
    lists.Accounts (settleFormat ctx) [] (fun _ => []) (fun b =>
      SettleKept ctx b.globals b) := by
  unfold settleFormat
  apply globals_accounts (SettleKept ctx)
  intro g
  split
  · next hrefused =>
      simp only [Bool.and_eq_true, bne_iff_ne] at hrefused
      refine Ledger.Keeps.accounts (Ledger.Keeps.pure rfl) (fun _ _ _ _ h => ?_)
      rcases h with hsort | hthread
      · exact absurd hsort hrefused.left
      · rw [hrefused.right] at hthread
        cases hthread
  · next hgoes =>
      have hgoes' : g.sortList = [] ∨ has g.threadFlags tfNoSort = false := by
        simp only [Bool.and_eq_true, bne_iff_ne, not_and, Bool.not_eq_true] at hgoes
        exact or_iff_not_imp_left.mpr hgoes
      apply (psFormat_accounts.bind (fun settled _ =>
        settleFormat_rest own settled)).congr
      intro _ _ _ _
      exact ⟨fun h _ => h, fun h => h hgoes'⟩

end Ps
end Lepd
