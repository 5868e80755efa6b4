-- SUMMARY: Source maps, and the line-by-line map from compiled code back to its source.
import PageSplice.Json.Value
import PageSplice.SourceMap.Vlq

/-!
# Line maps

A compiled region whose compiler brings no map of its own is mapped line by
line: column 0 of each generated line comes from column 0 of the same source
line, or of the last source line where the generated code has more lines.
-/

namespace PageSplice

/-- A source map: the members of its JSON object, in order. -/
abbrev SourceMap := List (Text × Json.Value)

namespace SourceMap

def lineEnds (s : Text) : Nat := s.count '\n'

/-- The segments of `count` generated lines from number `line` on, where `previous` is the source
line of the segment before. A segment gives its column, its source, the step to its source line
and its source column. -/
def lineSegments (last line previous : Nat) : Nat → List Text
  | 0 => []
  | count + 1 =>
    let target := min line last
    ("AA".toList ++ Vlq.encode ((target : Int) - previous) ++ "A".toList) ::
      lineSegments last (line + 1) target count

/-- The mappings from the lines of `generated` to the lines of `source`. -/
def lineMappings (generated source : Text) : Text :=
  Text.joinWith ";".toList
    (lineSegments (lineEnds source) 0 0 (lineEnds generated + 1))

/-- The map from `generated` back to `source`, which goes by the name `name`. -/
def ofLines (generated source name : Text) : SourceMap :=
  [("version".toList, .int 3),
   ("sources".toList, .arr [.str name]),
   ("sourcesContent".toList, .arr [.str source]),
   ("names".toList, .arr []),
   ("mappings".toList, .str (lineMappings generated source))]

end SourceMap

end PageSplice
