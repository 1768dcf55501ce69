import Lepd.Ps.Settle
import Lepd.Ps.Wishes

/-!
# What the texts of the options of ps come to

A text is read as columns or for sorting, or is refused, which depends on the
texts in front of it. Whether it is refused, and what there is of it then, is
told from the texts alone.
-/

namespace Lepd
namespace Ps

open Foundation
open Foundation.Ledger (Returns)

/-!
# Single texts
-/

instance (tables : Tables) (item : Text) : Decidable (Refused tables item) :=
  inferInstanceAs (Decidable (_ ∨ _ ∨ _ ∧ _))

instance (tables : Tables) (item : AixItem) : Decidable (AixRefused tables item) :=
  match item with
  | .text _ => .isFalse not_false
  | .desc c => decidable_of_iff
      (c ≠ byte '%' ∧ (tables.searchAixArray c).all (fun entry =>
        columns tables entry.1 = 0) = true) (by
        unfold AixRefused
        cases hentry : tables.searchAixArray c with
        | none => simp [hentry]
        | some entry => simp [hentry, Prod.ext_iff])

def specsFit (tables : Tables) (sf : Text) : Bool :=
  match listItems sf "improper format list" "empty format list" with
  | .error _ => false
  | .ok items => items.all (fun item => !decide (Refused tables item))

def aixFits (tables : Tables) (sf : Text) : Bool :=
  decide (byte '%' ∈ sf) &&
    match aixItems [] sf with
    | none => false
    | some items => items.all (fun item => !decide (AixRefused tables item))

def fits (tables : Tables) (sf : Text) : Bool :=
  specsFit tables sf || aixFits tables sf

def sortName (spec : Text) : Text :=
  if spec.head? = some (byte '-') ∨ spec.head? = some (byte '+') then
    spec.drop 1 else spec

def sortable (tables : Tables) (spec : Text) : Bool :=
  (tables.searchFormatArray (sortName spec)).isSome

def sortFits (tables : Tables) (sf : Text) : Bool :=
  match listItems sf "improper sort list" "empty sort list" with
  | .error _ => false
  | .ok items => items.all (sortable tables)

def codesSort (tables : Tables) : Text -> Bool
  | [] => false
  | c :: cs =>
      if c = byte '+' ∨ c = byte '-' then codesSort tables cs
      else (tables.searchShortsortArray c).any (sortable tables)

/-!
# Texts behind each other
-/

/-- What texts have come to. -/
structure Read where
  /-- One of them has been read as columns. -/
  format : Bool
  /-- One of them has been read for sorting. -/
  sort : Bool
  /-- There is something to sort by. -/
  sorts : Bool

def asColumns (forest gnuSort : Bool) (r : Read) (code : SfCode) (sf : Text) :
    Bool :=
  match code with
  | .sysvo => true
  | .bsdo => true
  | .gnuFormat => true
  | .sysvO => !r.format
  | .bsdO => (gnuSort || r.sort || (verifyShortSort forest sf).isSome) && !r.format
  | .gnuSort => false
  | .bsdm => false

def asCodes (forest gnuSort : Bool) (r : Read) (code : SfCode) (sf : Text) : Bool :=
  decide (code = .bsdO) && !(gnuSort || r.sort ||
    (verifyShortSort forest sf).isSome)

def asSorting (r : Read) (code : SfCode) : Bool :=
  (decide (code = .gnuSort) || decide (code = .bsdm)) && !r.sort

def readText (tables : Tables) (forest gnuSort : Bool) (code : SfCode)
    (sf : Text) (r : Read) : Option Read :=
  if asColumns forest gnuSort r code sf then
    if fits tables sf then some { r with format := true } else none
  else if asCodes forest gnuSort r code sf then
    some { r with sort := true, sorts := r.sorts || codesSort tables sf }
  else if asSorting r code then
    if sortFits tables sf then some { r with sort := true, sorts := true } else none
  else none

/-- What all texts come to, the last one of the list first, unless one of them
is refused. -/
def readTexts (tables : Tables) (forest gnuSort : Bool) :
    List (SfCode × Text) -> Option Read
  | [] => some { format := false, sort := false, sorts := false }
  | text :: older =>
      (readTexts tables forest gnuSort older).bind
        (readText tables forest gnuSort text.1 text.2)

def TextsKept (tables : Tables) (forest gnuSort : Bool) :
    List (SfCode × Text) -> Prop
  | [] => True
  | text :: older =>
      TextsKept tables forest gnuSort older ∧
        forall r, readTexts tables forest gnuSort older = some r ->
          asColumns forest gnuSort r text.1 text.2 = true -> TextKept tables text.2

/-!
# Routines that leave everything but the nodes
-/

section Routines

variable {ctx : Context} {value result : Type}

structure Cooks (r r' : Read) (sfn : SfNode) : Prop where
  columns : r'.format = true <-> sfn.fCooked ≠ [] ∨ r.format = true
  sorts : sfn.sCooked ≠ [] ∨ r.sorts = true -> r'.sorts = true

section Nodes

variable {r : Read} {sfn : SfNode} {s : State}

end Nodes

/-- There are columns and sort nodes of the options as far as they have been
read. -/
structure AllCooked (r : Read) (list : List SfNode) : Prop where
  columns : r.format = true <-> exists sfn, sfn ∈ list ∧ sfn.fCooked ≠ []
  sorts : (exists sfn, sfn ∈ list ∧ sfn.sCooked ≠ []) -> r.sorts = true

theorem AllCooked.cons {r r' : Read} {sfn : SfNode} {list : List SfNode}
    (h : AllCooked r list) (hsfn : Cooks r r' sfn) :
    AllCooked r' (sfn :: list) where
  columns := by
    rw [hsfn.columns, h.columns, List.exists_mem_cons_iff]
  sorts := by
    rw [List.exists_mem_cons_iff]
    intro hany
    exact hsfn.sorts (hany.imp id h.sorts)

end Routines

end Ps
end Lepd
