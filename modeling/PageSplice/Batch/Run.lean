-- SUMMARY: Batch runs: files are compiled one after the other, with a report at the end.
import PageSplice.Batch.Request
import PageSplice.FileTree
import PageSplice.Page.Suspended
import PageSplice.Text.Newline

/-!
# Batch runs

A batch run treats its files one after the other, each with a context of its
own. A file that is no HTML document is skipped. A page that cannot be compiled
and a file that cannot be read or written are reported, and the run goes on;
any other failure is a fault of the set-up and ends the run.
-/

namespace PageSplice.Batch

variable {σ : Type}

-- ---------------------------------------------------------------------------
-- One file
-- ---------------------------------------------------------------------------

inductive Outcome
  | skipped
  | compiled
  | failed (failure : Failure)

/-- Whether a run goes on after a failure. -/
def isHandled : Failure → Bool
  | .file _ | .undecodable _ => true
  | failure => failure.isReport

structure Treatment (σ : Type) where
  outcome : Outcome
  /-- What was printed about it. -/
  printed : Text
  session : Session σ
  /-- The file tree afterwards. -/
  tree : FileTree

inductive Product
  | dependencies (files : List Text)
  | page (markup : Text)

/-- Refuses a path that no file can have. -/
def checkPath (p : Path) : Except Failure Unit :=
  if p.segments.any (·.contains '\x00') then .error .nulInPath else .ok ()

def readPage (cwd : Path) (tree : FileTree) (path : Path) : Except Failure Text := do
  checkPath path
  let content ← (tree.read cwd path).mapError .file
  return Text.unifyNewlines (← (Charset.utf8.decode content).mapError .undecodable)

/-- Compiles a page, or finds what it depends on. -/
def build (env : Environment σ) (c : PageCompiler σ) (request : Request) (markup path : Text) :
    Build σ Product :=
  if request.listsDependencies then
    .dependencies <$> Build.ofExcept id (Page.dependencies env (.text markup) path)
  else if request.isSuspended then
    (.page ·.code) <$> (Page.compileSuspended env c markup path).run
  else (.page ·.code) <$> Page.compile env c markup path

def dependencyLines (path : Path) (files : List Text) : Text :=
  Text.line ("  ".toList ++ path.toText ++ ": ".toList ++ Text.ofNat files.length ++
    " dependency(ies)".toList) ++
  files.flatMap fun file => Text.line ("    ".toList ++ file)

/-- Prints what was made of a page, or writes the page into the output directory. Answers with the
file tree and with what is printed. -/
def emit (cwd : Path) (request : Request) (path : Path) (tree : FileTree) :
    Product → FileTree × Except Failure Text
  | .dependencies files => (tree, .ok (dependencyLines path files))
  | .page markup =>
    match request.outputDirectory with
    | none | some [] => (tree, .ok (Text.line markup))
    | some directory =>
      let target := (Path.ofText directory).join ⟨.relative, [path.name]⟩
      match checkPath target.parent with
      | .error e => (tree, .error e)
      | .ok () =>
        match tree.makeDirectories cwd target.parent with
        | (tree, .error e) => (tree, .error (.file e))
        | (tree, .ok ()) =>
          match tree.write cwd target (Charset.Utf8.encode markup) with
          | .error e => (tree, .error (.file e))
          | .ok tree =>
            (tree, .ok (Text.line ("  Compiled: ".toList ++ path.toText ++ " -> ".toList ++
              target.toText)))

/-- Treats a file, with `fresh` as its context. -/
def treat (env : Environment σ) (c : PageCompiler σ) (fresh : σ) (request : Request)
    (tree : FileTree) (path : Path) : Treatment σ :=
  let cwd := env.workingDirectory
  let unbuilt (outcome : Outcome) (printed : Text) : Treatment σ :=
    ⟨outcome, printed, ⟨fresh, []⟩, tree⟩
  if !Mime.isHtmlPath path.toText then
    unbuilt .skipped (Text.line ("  Skipped (not HTML): ".toList ++ path.toText))
  else if request.isDryRun then
    unbuilt .compiled (Text.line ("  [DRY RUN] Would compile: ".toList ++ path.toText))
  else
    match readPage cwd tree path with
    | .error e => unbuilt (.failed e) []
    | .ok markup =>
      match (build env c request markup path.toText).run.run ⟨fresh, []⟩ with
      | (.error e, session) => ⟨.failed e, [], session, tree⟩
      | (.ok product, session) =>
        match emit cwd request path tree product with
        | (tree, .error e) => ⟨.failed e, [], session, tree⟩
        | (tree, .ok printed) => ⟨.compiled, printed, session, tree⟩

namespace Treatment

/-- The failure that ends the run, where there is one. -/
def fault? (t : Treatment σ) : Option Failure :=
  match t.outcome with
  | .failed e => if isHandled e then none else some e
  | _ => none

/-- The failure that is reported, where there is one. -/
def reported? (t : Treatment σ) : Option Failure :=
  match t.outcome with
  | .failed e => if isHandled e then some e else none
  | _ => none

def isCompiled (t : Treatment σ) : Bool :=
  match t.outcome with
  | .compiled => true
  | _ => false

end Treatment

-- ---------------------------------------------------------------------------
-- All files
-- ---------------------------------------------------------------------------

/-- Treats files in order, up to the first one that ends the run. -/
def treatAll (env : Environment σ) (c : PageCompiler σ) (fresh : σ) (request : Request) :
    FileTree → List Path → List (Path × Treatment σ)
  | _, [] => []
  | tree, path :: paths =>
    let t := treat env c fresh request tree path
    (path, t) ::
      if t.fault?.isSome then [] else treatAll env c fresh request t.tree paths

/-- What a batch run leaves behind. -/
structure Report (σ : Type) where
  treatments : List (Path × Treatment σ)
  /-- What was printed. -/
  printed : Text
  /-- What was printed about errors. -/
  complaints : Text
  log : List Record
  tree : FileTree
  /-- The failure that has ended the run, where there is one. -/
  fault : Option Failure

/-- Puts a text in the colour of success. -/
def colored (s : Text) : Text := "\x1b[32;1m".toList ++ s ++ "\x1b[0m".toList

def summary (request : Request) (treatments : List (Path × Treatment σ)) : Text :=
  let compiled := treatments.countP (·.2.isCompiled)
  let errors := treatments.countP (·.2.reported?.isSome)
  let text := "\n".toList ++ (if request.isDryRun then "[DRY RUN] ".toList else []) ++
    "Done. Compiled: ".toList ++ Text.ofNat compiled ++ ", Errors: ".toList ++ Text.ofNat errors
  Text.line (if request.isColored then colored text else text)

def logOf (path : Path) (t : Treatment σ) : List Record :=
  t.session.log ++
    match t.reported? with
    | some e => [⟨.error, .batch, "Failed to compile ".toList ++ path.toText, some e⟩]
    | none => []

def complaintOf (path : Path) (t : Treatment σ) : Text :=
  if t.reported?.isSome then Text.line ("  ERROR: ".toList ++ path.toText) else []

/-- Carries out a request on a file tree. -/
def run (env : Environment σ) (c : PageCompiler σ) (fresh : σ) (request : Request)
    (tree : FileTree) : Report σ :=
  let paths := request.paths.map Path.ofText
  let treatments := treatAll env c fresh request tree paths
  let fault := treatments.findSome? (·.2.fault?)
  { treatments, fault
    printed :=
      Text.line ("Compiling ".toList ++ Text.ofNat paths.length ++ " file(s)...".toList) ++
        treatments.flatMap (·.2.printed) ++
        (if fault.isSome then [] else summary request treatments)
    complaints := treatments.flatMap fun (path, t) => complaintOf path t
    log := treatments.flatMap fun (path, t) => logOf path t
    tree := (treatments.getLast?.map (·.2.tree)).getD tree }

end PageSplice.Batch
