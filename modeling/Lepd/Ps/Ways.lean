import Lepd.Ps.ColumnNames
import Lepd.Ps.Release

/-!
# The ways of reading the arguments of ps

Whether a way of reading the arguments is given up, whether there is something
on the lists then, and whether a column is lost on the way, is told from the
arguments and from the environment.
-/

namespace Lepd
namespace Ps

open Foundation
open Foundation.Ledger (Returns)

/-!
# Outcomes
-/

/-- What a way of reading the arguments comes to. -/
inductive Outcome where
  /-- It is given up when there is nothing on the lists. -/
  | refused
  /-- It is given up when there are columns or sort nodes on the lists. -/
  | late
  /-- It is the one that is taken. -/
  | taken
deriving DecidableEq

def Asked.globals (a : Asked) : Globals :=
  { (default : Globals) with
    toPersonality := a.personality
    forestType := a.forestType
    formatFlags := a.formatFlags
    formatModifiers := a.formatModifiers
    simpleSelect := a.simpleSelect
    threadFlags := a.threadFlags }

def Asked.forest (a : Asked) : Bool :=
  a.forestType != 0

def Asked.gnuSort (a : Asked) : Bool :=
  a.texts.any (fun text => text.1 = .gnuSort)

variable {ctx : Context}

abbrev Same {value : Type} (x : Run value) : Prop :=
  Views asked x (fun a _ a' => a' = a)

def NoLists (b : State) : Prop :=
  b.globals.formatList = [] ∧ b.globals.sortList = []

def Settles (o : Outcome) (b : State) (err : Option Err) (c : State) : Prop :=
  o = .taken ∧ err = none ∧ asked c = asked b ∨ o = .refused ∧ err ≠ none ∧
    NoLists c

/-- A way of reading is taken, or it is given up when there is nothing on the
lists. -/
def Comes (o : Outcome) (found : Except Err Reading) (c : State) : Prop :=
  match found with
  | .error _ => o = .refused ∧ NoLists c
  | .ok _ => o = .taken

variable {tables : Tables} {call : Call} {s : Statics}

end Ps
end Lepd
