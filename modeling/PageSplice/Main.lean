-- SUMMARY: The command line: reads the files that a batch run needs and writes what it has changed.
import PageSplice.Batch.Run
import PageSplice.Catalog

/-!
# The command line

The command line takes a picture of the places that a run can reach, carries
out the run on the picture, and writes the files and directories that have
changed. Everything else is decided by the run.
-/

namespace PageSplice.CommandLine

def nameOf (place : List Text) : String := String.ofList (Path.toText ⟨.root, place⟩)

def nodeAt? (place : List Text) : IO (Option FileTree.Node) := do
  try
    return some (.file (← IO.FS.readBinFile (nameOf place)).toList)
  catch
    | .inappropriateType .. => return some .directory
    | _ => return none

/-- The places that a path leads through. -/
def placesOn (cwd path : Path) : List (List Text) :=
  let segments := (cwd.join path).segments
  (List.range (segments.length + 1)).map fun n => (Path.collapse ⟨.root, segments.take n⟩).segments

/-- The places that a run can reach. -/
def placesOf (cwd : Path) (request : Batch.Request) : List (List Text) :=
  let inputs := request.paths.map Path.ofText
  let directories := (request.outputDirectory.toList).map Path.ofText
  let targets := directories.flatMap fun d => inputs.map fun p => d.join ⟨.relative, [p.name]⟩
  ((inputs ++ directories ++ targets).flatMap (placesOn cwd)).eraseDups.filter (· ≠ [])

def picture (cwd : Path) (request : Batch.Request) : IO FileTree :=
  (placesOf cwd request).foldlM (fun tree place => do
    match ← nodeAt? place with
    | some node => return tree.put place node
    | none => return tree) ⟨[]⟩

def writeNode (place : List Text) : FileTree.Node → IO Unit
  | .directory => IO.FS.createDirAll (nameOf place)
  | .file content => IO.FS.writeBinFile (nameOf place) ⟨content.toArray⟩

/-- Writes what has changed in a file tree, in the order of the changes. -/
def writeChanges (earlier later : FileTree) : IO Unit :=
  later.nodes.reverse.forM fun (place, node) =>
    if earlier.node? place = some node then pure () else writeNode place node

/-- A log record as the error output shows it. -/
def logLine (r : Record) : Text :=
  Text.line (r.message ++ match r.failure with
    | some e => ": ".toList ++ e.message
    | none => [])

def isShown (r : Record) : Bool := r.level = .warning || r.level = .error

end PageSplice.CommandLine

open PageSplice in
/-- Compiles the files that the arguments name. -/
def main (arguments : List String) : IO UInt32 := do
  let out ← IO.getStdout
  let err ← IO.getStderr
  match Batch.Request.ofArguments (arguments.map String.toList) with
  | .error e =>
    err.putStr (String.ofList (Text.line e.message))
    return 1
  | .ok request =>
    let cwd := Path.ofText (← IO.currentDir).toString.toList
    let tree ← CommandLine.picture cwd request
    let report := Batch.run ⟨cwd, []⟩ (.ofSettings (Catalog.find none) []) () request tree
    CommandLine.writeChanges tree report.tree
    out.putStr (String.ofList report.printed)
    let shown := (report.log.filter CommandLine.isShown).flatMap CommandLine.logLine
    err.putStr (String.ofList (shown ++ report.complaints))
    match report.fault with
    | none => return 0
    | some e =>
      err.putStr (String.ofList (Text.line e.message))
      return 1
