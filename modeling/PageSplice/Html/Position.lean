-- SUMMARY: Positions in markup as a tokenizer keeps them, by line and column, and the offsets that they stand for.
import PageSplice.Text.Basic

/-!
# Positions

A tokenizer knows where it is by line and column. Elements are placed by their
offsets, so the offsets of the lines are found beforehand. Only a line feed
begins a line.
-/

namespace PageSplice.Html

/-- The offsets of the lines that begin in `s`, where `s` itself begins at offset `n`. -/
def lineStartsFrom (n : Nat) : Text → List Nat
  | [] => []
  | c :: r => if c = '\n' then (n + 1) :: lineStartsFrom (n + 1) r else lineStartsFrom (n + 1) r

def lineStarts (s : Text) : List Nat := 0 :: lineStartsFrom 0 s

/-- A position by line and column. Lines count from one, columns from zero. -/
structure Position where
  line : Nat
  column : Nat
  deriving DecidableEq, Repr

namespace Position

def start : Position := ⟨1, 0⟩

def advance (p : Position) (s : Text) : Position :=
  let lines := s.count '\n'
  if lines = 0 then ⟨p.line, p.column + s.length⟩
  else ⟨p.line + lines, (Text.afterLast '\n' s).length⟩

/-- The offset of a position in a text whose lines start at these offsets. -/
def offset (p : Position) (starts : List Nat) : Nat := starts.getD (p.line - 1) 0 + p.column

end Position

end PageSplice.Html
