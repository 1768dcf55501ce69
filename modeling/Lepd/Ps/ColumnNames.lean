import Lepd.Ps.Texts

/-!
# The names of the columns of ps

Where a modification of the default format puts its columns, and whether it
finds the place, is told from the names on the format list.
-/

namespace Lepd
namespace Ps

open Foundation
open Foundation.Ledger (Returns)

/-!
# Names
-/

def follow (findme new : Text) : List Text -> Option (List Text)
  | [] => none
  | name :: names =>
      if name = findme then some (name :: new :: names)
      else (follow findme new names).map (fun names => name :: names)

def headOf (tables : Tables) (spec : Text) : Option Text :=
  (tables.searchFormatArray spec).map FormatStruct.head

/-- The column of a specifier is put behind the first one of some names that
there is. -/
def place (tables : Tables) (spec : String) (places : List String)
    (names : List Text) : Option (List Text) :=
  (headOf tables (bytes spec)).bind (fun new =>
    places.findSome? (fun findme => follow (bytes findme) new names))

def without (findme : String) (names : List Text) : List Text :=
  names.erase (bytes findme)

def exchange (tables : Tables) (spec findme : String) (names : List Text) :
    Option (List Text) :=
  (place tables spec [findme] names).map (without findme)

/-!
# What the modifications make of the names

There is nothing if a column is lost or a modification is refused.
-/

section Routines

variable {ctx : Context} {value : Type}

end Routines

end Ps
end Lepd
