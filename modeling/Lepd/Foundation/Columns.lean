import Mathlib.Data.List.Basic

/-!
# Columns

Texts that are filled up to the width of a column.
-/

namespace Lepd
namespace Foundation

variable {char : Type}

def padLeft (blank : char) (width : Nat) (text : List char) : List char :=
  List.replicate (width - text.length) blank ++ text

def padRight (blank : char) (width : Nat) (text : List char) : List char :=
  text ++ List.replicate (width - text.length) blank

end Foundation
end Lepd
