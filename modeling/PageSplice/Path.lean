-- SUMMARY: Slash-separated paths: reading and writing, joining, parents, and absolute paths without dot segments.
import PageSplice.Text.Basic

/-!
# Paths

A path is a list of segments behind an anchor. Reading a path drops what has no
meaning, empty segments and `.`; a segment `..` stays until the path is
collapsed. Exactly two slashes at the front are an anchor of their own.
-/

namespace PageSplice

inductive Anchor
  | relative
  | root
  | doubleRoot
  deriving DecidableEq, Repr

/-- A path: an anchor and the segments below it. -/
structure Path where
  anchor : Anchor
  segments : List Text
  deriving DecidableEq, Repr

namespace Anchor

def toText : Anchor → Text
  | relative => []
  | root => ['/']
  | doubleRoot => ['/', '/']

/-- The anchor of a path that begins with that many slashes. -/
def ofSlashes : Nat → Anchor
  | 0 => relative
  | 2 => doubleRoot
  | _ => root

end Anchor

namespace Path

/-- Whether a segment leads anywhere; the empty one and `.` do not. -/
def isProper (segment : Text) : Bool := segment ≠ [] ∧ segment ≠ ['.']

def ofText (s : Text) : Path :=
  ⟨Anchor.ofSlashes (s.takeWhile (· = '/')).length, (Text.splitOn '/' s).filter isProper⟩

/-- Writes a path; the empty relative path is a dot. -/
def toText (p : Path) : Text :=
  if p.anchor = .relative ∧ p.segments = [] then ['.']
  else p.anchor.toText ++ Text.joinWith ['/'] p.segments

/-- The path `q` seen from `p`. -/
def join (p q : Path) : Path :=
  if q.anchor = .relative then ⟨p.anchor, p.segments ++ q.segments⟩ else q

/-- The path one segment up; a path without segments is its own parent. -/
def parent (p : Path) : Path := ⟨p.anchor, p.segments.dropLast⟩

/-- The last segment, empty for a path that has none. -/
def name (p : Path) : Text := p.segments.getLastD []

/-- One segment put after the collapsed segments `above`, the last of which comes first. -/
def collapseStep (above : List Text) (segment : Text) : List Text :=
  if segment = ['.', '.'] then above.tail else segment :: above

/-- Lets each `..` cancel the segment in front of it; in front of all others it cancels nothing. -/
def collapse (p : Path) : Path := ⟨p.anchor, (p.segments.foldl collapseStep []).reverse⟩

/-- The path that `path` means in the directory `directory`, collapsed. -/
def absolute (directory : Path) (path : Text) : Path := (directory.join (ofText path)).collapse

/-- The directory of the document at `path`, where relative paths are taken from `directory`. -/
def directoryOf (directory : Path) (path : Text) : Path := (absolute directory path).parent

/-- The file that an absolute path means: collapsed, and with a single slash at the front. `none`
where a segment holds the NUL character, which no file name does. -/
def resolve? (p : Path) : Option Path :=
  if p.segments.any (·.contains '\x00') then none
  else some ⟨.root, p.collapse.segments⟩

end Path

end PageSplice
