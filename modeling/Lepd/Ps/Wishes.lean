import Lepd.Foundation.Ledger
import Lepd.Ps.Parser

/-!
# What the arguments of ps ask for

The options that bear on the format and on the sorting, read off the arguments
alone. The parser changes globals and defers texts on its way through the
arguments, and finds the same.
-/

namespace Lepd
namespace Ps

open Foundation

/-- What has been asked for, as far as the lists of a call depend on it. -/
structure Asked where
  personality : Personality
  forestType : UInt8
  formatFlags : UInt32
  formatModifiers : UInt32
  simpleSelect : UInt32
  threadFlags : UInt32
  /-- There is a heading option. -/
  headed : Bool
  /-- The selection is negated. -/
  negated : Bool
  /-- The texts that are to be read as columns or for sorting, the last one
  first. -/
  texts : List (SfCode × Text)

/-- What a letter asks for: something that other letters may follow, something
with the text behind it, or something that no letter follows. -/
inductive Ask where
  | alone (ask : Asked -> Asked)
  | takes (ask : Asked -> Option Text -> Option Asked)
  | ends (ask : Asked -> Option Asked)

def Asked.preferBsd (a : Asked) : Asked :=
  { a with personality := { a.personality with preferBsdDefaults := true } }

def Asked.later (code : SfCode) (text : Text) (a : Asked) : Asked :=
  { a with texts := (code, text) :: a.texts }

def Asked.values (sys : System) (parseFn : ParseFn) (text : Text) (a : Asked) :
    Option Asked :=
  match listValues (parseFn sys a.negated) text with
  | .error _ => none
  | .ok _ => some a

namespace Ask

def nothing : Ask :=
  .alone id

def format (flag : UInt32) : Ask :=
  .alone (fun a => { a with formatFlags := a.formatFlags ||| flag })

def forest (letter : Char) : Ask :=
  .alone (fun a => { a with forestType := byte letter })

def text (code : SfCode) : Ask :=
  .takes (fun a text => text.map (fun text => a.later code text))

def values (sys : System) (parseFn : ParseFn) : Ask :=
  .takes (fun a text => text.bind (fun text => a.values sys parseFn text))

end Ask

def usedBy (found : Option (Text × Nat)) : Nat :=
  (found.map Prod.snd).getD 0

/-- What an argument of letters asks for, and how many further arguments it
takes. -/
def lettersAsk (option : Asked -> UInt8 -> Text -> Ask) (next : List Text) :
    Text -> Asked -> Option (Asked × Nat)
  | [], a => some (a, 0)
  | c :: rest, a =>
      match option a c rest with
      | .alone ask => lettersAsk option next rest (ask a)
      | .takes ask =>
          (ask a ((getOptArg rest next).map Prod.fst)).map (fun a =>
            (a, usedBy (getOptArg rest next)))
      | .ends ask => (ask a).map (fun a => (a, 0))

/-!
# Arguments
-/

inductive LongAsk where
  | argument (ask : Asked -> Text -> Option Asked)
  | bare (ask : Asked -> Option Asked)
  | other (ask : Asked -> Option Asked)

/-- What a long option asks for with what stands behind its name, and how many
further arguments it takes. -/
def LongAsk.answer (ask : LongAsk) (rest : Text) (next : List Text)
    (a : Asked) : Option (Asked × Nat) :=
  match ask with
  | .argument ask =>
      (grabGnuArg rest next).bind (fun found =>
        (ask a found.1).map (fun a => (a, found.2)))
  | .bare ask => if rest ≠ [] then none else (ask a).map (fun a => (a, 0))
  | .other ask => (ask a).map (fun a => (a, 0))

/-- What has been asked for in a state of the parser. -/
def asked (b : State) : Asked where
  personality := b.globals.toPersonality
  forestType := b.globals.forestType
  formatFlags := b.globals.formatFlags
  formatModifiers := b.globals.formatModifiers
  simpleSelect := b.globals.simpleSelect
  threadFlags := b.globals.threadFlags
  headed := b.globals.headerType != .single
  negated := b.globals.negateSelection
  texts := b.sfList.map (fun sfn => (sfn.sfCode, sfn.sf))

/-- The texts have been put aside, and none of them has been looked at. -/
structure Raw (b : State) : Prop where
  formatList : b.globals.formatList = []
  sortList : b.globals.sortList = []
  cooked : forall sfn, sfn ∈ b.sfList -> sfn.fCooked = [] ∧ sfn.sCooked = []
  gnuSort : b.haveGnuSort = b.sfList.any (fun sfn => sfn.sfCode = .gnuSort)
  format : b.alreadyParsedFormat = false
  sort : b.alreadyParsedSort = false

/-- A routine looks at no text, and what it answers goes with what is asked for. -/
def Marks {value : Type} (x : Run value)
    (found : Asked -> value -> Asked -> Prop) : Prop :=
  Views (fun b => (Raw b, asked b)) x (fun p a q => (p.1 -> q.1) ∧ found p.2 a q.2)

variable {ctx : Context} {value result : Type}

theorem Marks.bind {x : Run value} {f : value -> Run result}
    {found : Asked -> value -> Asked -> Prop}
    {found' : Asked -> result -> Asked -> Prop} (hx : Marks x found)
    (hf : forall a v, Marks (f v) (fun a' r a'' => found a v a' ->
    found' a r a'')) : Marks (x >>= f) found' := by
  refine Views.bind hx (fun p v => Views.congr (hf p.2 v) ?_)
  intro q r u hrest hfirst
  exact ⟨fun hraw => hrest.left (hfirst.left hraw), hrest.right hfirst.right⟩

theorem Marks.congr {x : Run value} {found found' : Asked -> value -> Asked ->
    Prop} (hx : Marks x found)
    (h : forall a v a', found a v a' -> found' a v a') : Marks x found' :=
  Views.congr hx (fun _ _ _ hboth => ⟨hboth.left, h _ _ _ hboth.right⟩)

section Letters

variable {rest : Text} {next : List Text}

end Letters

end Ps
end Lepd
