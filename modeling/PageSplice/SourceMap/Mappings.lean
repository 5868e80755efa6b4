-- SUMMARY: Reading the mappings of a source map.
import PageSplice.SourceMap.Vlq

/-!
# Mappings

The mappings of a source map say for places of the generated code where they
come from. Semicolons end the generated lines and commas stand between the
segments of a line. A segment has one, four or five fields: the column, the
source with its line and column, and a name. Each field is the step from the
field of its kind before it; only the column begins anew with every line.
-/

namespace PageSplice.SourceMap

structure SourcePosition where
  source : Int
  line : Int
  column : Int
  deriving DecidableEq, Repr

/-- What a segment says of a column of a generated line. -/
structure Segment where
  column : Int
  position : Option SourcePosition := none
  name : Option Int := none
  deriving DecidableEq, Repr

namespace Mappings

/-- The last field of each kind. -/
structure Cursor where
  column : Int := 0
  position : SourcePosition := ⟨0, 0, 0⟩
  name : Int := 0
  deriving DecidableEq, Repr

/-- The cursor after a step in the generated line and a step in the sources. -/
def Cursor.move (c : Cursor) (column source line sourceColumn : Int) : Cursor :=
  { c with
    column := c.column + column
    position :=
      ⟨c.position.source + source, c.position.line + line, c.position.column + sourceColumn⟩ }

/-- The segment with the given fields, and the cursor after it. -/
def Cursor.read? (c : Cursor) : List Int → Option (Segment × Cursor)
  | [column] =>
    let c := c.move column 0 0 0
    some ({ column := c.column }, c)
  | [column, source, line, sourceColumn] =>
    let c := c.move column source line sourceColumn
    some ({ column := c.column, position := some c.position }, c)
  | [column, source, line, sourceColumn, name] =>
    let c := { c.move column source line sourceColumn with name := c.name + name }
    some (⟨c.column, some c.position, some c.name⟩, c)
  | _ => none

/-- The fields of a segment. -/
def fields? (s : Text) : Option (List Int) :=
  if s.isEmpty then some []
  else
    match h : Vlq.decode? s with
    | some (field, rest) =>
      have := Vlq.length_decode? h
      (fields? rest).map (field :: ·)
    | none => none
termination_by s.length

/-- The segments of a line, and the cursor after them. -/
def segments? (c : Cursor) : List Text → Option (List Segment × Cursor)
  | [] => some ([], c)
  | s :: rest => do
    let (segment, c) ← c.read? (← fields? s)
    let (segments, c) ← segments? c rest
    return (segment :: segments, c)

def lines? (c : Cursor) : List Text → Option (List (List Segment))
  | [] => some []
  | line :: rest => do
    let segments := if line.isEmpty then [] else Text.splitOn ',' line
    let (segments, c) ← segments? { c with column := 0 } segments
    return segments :: (← lines? c rest)

/-- The segments of each generated line. -/
def decode? (mappings : Text) : Option (List (List Segment)) :=
  lines? {} (Text.splitOn ';' mappings)

end Mappings

end PageSplice.SourceMap
