-- SUMMARY: File trees: finding places by path, reading and writing files, making directories.
import PageSplice.Charset.Utf8
import PageSplice.FileError
import PageSplice.Path

/-!
# File trees

A file tree says what stands at each place, and a place is the list of the
names that lead to it from the root. There are no links, so a path leads to one
place: each of its names goes down into a directory, each `..` goes up from the
directory reached so far. An operation that fails leaves the tree as it was,
apart from directories that were made on the way. Names and paths have a
greatest length, counted in bytes.
-/

namespace PageSplice

inductive FileTree.Node
  | file (content : Bytes)
  | directory
  deriving DecidableEq, Repr

/-- What stands at the places of a file tree. The root is a directory without being listed. -/
structure FileTree where
  nodes : List (List Text × FileTree.Node)
  deriving DecidableEq, Repr

namespace FileTree

-- ---------------------------------------------------------------------------
-- Places
-- ---------------------------------------------------------------------------

def node? (t : FileTree) (place : List Text) : Option Node :=
  if place = [] then some .directory else t.nodes.lookup place

def put (place : List Text) (node : Node) (t : FileTree) : FileTree :=
  ⟨(place, node) :: t.nodes.filter (·.1 ≠ place)⟩

theorem lookup_filter_ne {q place : List Text} (h : q ≠ place)
    (nodes : List (List Text × Node)) :
    (nodes.filter (·.1 ≠ place)).lookup q = nodes.lookup q := by
  induction nodes with
  | nil => rfl
  | cons entry rest ih =>
    obtain ⟨p, node⟩ := entry
    by_cases hp : p = place
    · have hq : (q == p) = false := beq_eq_false_iff_ne.2 (hp ▸ h)
      simpa [List.filter_cons, hp, List.lookup_cons, hp ▸ hq] using ih
    · cases hq : q == p <;> simp_all [List.lookup_cons]

theorem node?_put {place : List Text} (hp : place ≠ []) (node : Node) (t : FileTree)
    (q : List Text) : (t.put place node).node? q = if q = place then some node else t.node? q := by
  by_cases h : q = place
  · simp [node?, put, h, hp]
  · by_cases hq : q = []
    · simp [node?, hq, Ne.symm hp]
    · have := lookup_filter_ne h t.nodes
      simp_all [node?, put, List.lookup_cons, beq_eq_false_iff_ne.2 h]

-- ---------------------------------------------------------------------------
-- Paths
-- ---------------------------------------------------------------------------

def maxNameLength : Nat := 255

def maxPathLength : Nat := 4095

/-- Whether a text takes more bytes than allowed. -/
def exceeds (limit : Nat) (s : Text) : Bool := limit < (Charset.Utf8.encode s).length

/-- Goes from the directory at `place` to the directory that a segment means. -/
def enter (t : FileTree) (place : List Text) (segment : Text) :
    Except FileError.Reason (List Text) :=
  if segment = ['.', '.'] then .ok place.dropLast
  else if exceeds maxNameLength segment then .error .tooLong
  else
    match t.node? (place ++ [segment]) with
    | some .directory => .ok (place ++ [segment])
    | some (.file _) => .error .notDirectory
    | none => .error .missing

/-- The place that a path means, seen from the directory `cwd`. The directories above it must be
there; the place itself may be empty. -/
def locate (t : FileTree) (cwd p : Path) : Except FileError.Reason (List Text) := do
  if exceeds maxPathLength p.toText then throw .tooLong
  let segments := (cwd.join p).segments
  let above ← segments.dropLast.foldlM t.enter []
  match segments.getLast? with
  | none => return above
  | some segment =>
    if segment = ['.', '.'] then return above.dropLast
    if exceeds maxNameLength segment then throw .tooLong
    return above ++ [segment]

-- ---------------------------------------------------------------------------
-- Operations
-- ---------------------------------------------------------------------------

/-- Names the file that an operation has failed on. -/
def naming {α : Type} (p : Path) (result : Except FileError.Reason α) : Except FileError α :=
  result.mapError (⟨·, p.toText⟩)

def read (t : FileTree) (cwd p : Path) : Except FileError Bytes :=
  naming p do
    match t.node? (← t.locate cwd p) with
    | some (.file content) => .ok content
    | some .directory => .error .isDirectory
    | none => .error .missing

/-- Writes a file, in place of one that is there. -/
def write (t : FileTree) (cwd p : Path) (content : Bytes) : Except FileError FileTree :=
  naming p do
    let place ← t.locate cwd p
    match t.node? place with
    | some .directory => .error .isDirectory
    | _ => .ok (t.put place (.file content))

/-- Makes a directory where there is none; everything above it must be there. -/
def makeDirectory (t : FileTree) (cwd p : Path) : Except FileError.Reason FileTree := do
  let place ← t.locate cwd p
  match t.node? place with
  | none => .ok (t.put place .directory)
  | some .directory => .ok t
  | some (.file _) => .error .present

/-- Makes a directory and what is missing above it, and answers with the tree and with what has
gone wrong; what was made before that stays. -/
def makeDirectories (t : FileTree) (cwd p : Path) : FileTree × Except FileError Unit :=
  match t.makeDirectory cwd p with
  | .ok t => (t, .ok ())
  | .error .missing =>
    if p.segments = [] then (t, .error ⟨.missing, p.toText⟩)
    else
      match t.makeDirectories cwd p.parent with
      | (t, .error e) => (t, .error e)
      | (t, .ok ()) =>
        match t.makeDirectory cwd p with
        | .ok t => (t, .ok ())
        | .error reason => (t, .error ⟨reason, p.toText⟩)
  | .error reason => (t, .error ⟨reason, p.toText⟩)
termination_by p.segments.length
decreasing_by
  simp only [Path.parent, List.length_dropLast]
  have := List.length_pos_iff.2 ‹p.segments ≠ []›
  omega

end FileTree

end PageSplice
