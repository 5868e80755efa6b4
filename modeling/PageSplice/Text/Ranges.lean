-- SUMMARY: Sets of code points, written as hexadecimal ranges.
import PageSplice.Text.Basic

/-!
# Ranges of code points

A character property of the Unicode standard is a set of code points. The
tables of this library write such a set as hexadecimal ranges `first-last`,
or a single `first`, with blanks between them.
-/

namespace PageSplice.Text

/-- The code points from `first` to `last`. -/
structure CodeRange where
  first : Nat
  last : Nat
  deriving DecidableEq, Repr

namespace CodeRange

def contains (r : CodeRange) (c : Char) : Bool := r.first ≤ c.toNat && c.toNat ≤ r.last

/-- Reads `first-last` or `first`. -/
def ofText (s : Text) : CodeRange :=
  let first := toNat 16 (before '-' s)
  ⟨first, ((after? '-' s).map (toNat 16)).getD first⟩

/-- Reads lines of ranges with blanks between them. -/
def listOfLines (lines : List String) : List CodeRange :=
  lines.flatMap fun line => (splitOn ' ' line.toList).map ofText

end CodeRange

end PageSplice.Text
