-- SUMMARY: Requests: what a command line asks for, and what can be wrong with it.
import PageSplice.Text.Numeral
import PageSplice.Text.Quoted

/-!
# Requests

A command line is read in two steps. First every argument is classified: after
the first `--` everything is a path; before it, an argument that begins with a
dash is an option, unless it is a lone dash, a negative number, or an unknown
one that holds a space. A long option may be shortened as long as no other one
begins alike. Then the options are carried out in order. All paths stand
together: those behind a later option are not recognized.

A joined value that is nothing but `--` leaves its option without a value, as
if the dashes separated something. An option that asks for information ends the
command when its turn comes.
-/

namespace PageSplice.Batch

/-- What a command line asks for. -/
structure Request where
  paths : List Text := []
  /-- Where compiled pages are written; an empty or a missing one means the standard output. -/
  outputDirectory : Option Text := none
  listsDependencies : Bool := false
  isSuspended : Bool := false
  isDryRun : Bool := false
  isColored : Bool := false
  isPlain : Bool := false
  deriving DecidableEq, Repr

-- ---------------------------------------------------------------------------
-- Options
-- ---------------------------------------------------------------------------

/-- The options. Those in front of `outputDirectory` belong to every command of a site. -/
inductive Switch
  | help
  | version
  | verbosity
  | settings
  | modulePath
  | traceback
  | noColor
  | forceColor
  | skipChecks
  | outputDirectory
  | dependencies
  | suspended
  | dryRun
  deriving DecidableEq, Repr

namespace Switch

/-- All options, in the order in which messages list them. -/
def all : List Switch :=
  [help, version, verbosity, settings, modulePath, traceback, noColor, forceColor, skipChecks,
   outputDirectory, dependencies, suspended, dryRun]

/-- The ways to write an option. -/
def names : Switch → List Text
  | help => ["-h".toList, "--help".toList]
  | version => ["--version".toList]
  | verbosity => ["-v".toList, "--verbosity".toList]
  | settings => ["--settings".toList]
  | modulePath => ["--pythonpath".toList]
  | traceback => ["--traceback".toList]
  | noColor => ["--no-color".toList]
  | forceColor => ["--force-color".toList]
  | skipChecks => ["--skip-checks".toList]
  | outputDirectory => ["--output-dir".toList]
  | dependencies => ["--dependencies".toList]
  | suspended => ["--async".toList]
  | dryRun => ["--dry-run".toList]

def takesValue : Switch → Bool
  | verbosity | settings | modulePath | outputDirectory => true
  | _ => false

/-- The option as messages name it. -/
def title (s : Switch) : Text := Text.joinWith ['/'] s.names

def named : List (Text × Switch) := all.flatMap fun s => s.names.map (·, s)

end Switch

-- ---------------------------------------------------------------------------
-- Errors
-- ---------------------------------------------------------------------------

/-- Why a command line is no request. -/
inductive RequestError
  /-- The option asks for information about the command. -/
  | information (option : Switch)
  | ambiguous (argument : Text) (names : List Text)
  | missingValue (option : Switch)
  | unexpectedValue (option : Switch) (value : Text)
  | noNumber (option : Switch) (value : Text)
  | unknownLevel (option : Switch) (level : Int)
  | missingPaths
  | unrecognized (arguments : List Text)
  | contradictoryColors
  deriving DecidableEq, Repr

def Switch.complain (s : Switch) (text : Text) : Text :=
  "Error: argument ".toList ++ s.title ++ ": ".toList ++ text

/-- The wording of an error; a wish for information is none. -/
def RequestError.message : RequestError → Text
  | information _ => []
  | ambiguous argument names =>
    "Error: ambiguous option: ".toList ++ argument ++ " could match ".toList ++
      Text.joinWith ", ".toList names
  | missingValue option => option.complain "expected one argument".toList
  | unexpectedValue option value =>
    option.complain ("ignored explicit argument ".toList ++ Text.quoted value)
  | noNumber option value => option.complain ("invalid int value: ".toList ++ Text.quoted value)
  | unknownLevel option level =>
    option.complain ("invalid choice: ".toList ++ Text.ofInt level ++
      " (choose from 0, 1, 2, 3)".toList)
  | missingPaths => "Error: the following arguments are required: paths".toList
  | unrecognized arguments =>
    "Error: unrecognized arguments: ".toList ++ Text.joinWith [' '] arguments
  | contradictoryColors =>
    "The --no-color and --force-color options can't be used together.".toList

-- ---------------------------------------------------------------------------
-- Arguments
-- ---------------------------------------------------------------------------

/-- An argument of a command line. -/
inductive Argument
  | path (text : Text)
  /-- The `--` that ends the options. -/
  | separator
  /-- An option under one of its names, with the value that is written together with it. -/
  | switch (option : Switch) (name : Text) (value : Option Text)
  /-- An option that there is not. -/
  | unknown (text : Text)
  deriving DecidableEq, Repr

namespace Argument

/-- The argument as it is written, where it is no option. -/
def text : Argument → Text
  | path text | unknown text => text
  | separator => "--".toList
  | switch option _ _ => option.title

def isNumeral (s : Text) : Bool := !s.isEmpty && s.all Text.isDecimalDigit

/-- Whether an argument is a negative number, with or without a decimal point; a line feed may
follow. -/
def isNegativeNumber : Text → Bool
  | '-' :: s =>
    let s := if s.getLast? = some '\n' then s.dropLast else s
    isNumeral s ||
      ((Text.before '.' s).all Text.isDecimalDigit && isNumeral ((Text.after? '.' s).getD []))
  | _ => false

/-- The options that an argument may mean as a shortened or a joined one, with their values. -/
def candidates (argument : Text) : List (Text × Switch × Option Text) :=
  if "--".toList.isPrefixOf argument then
    (Switch.named.filter fun entry => (Text.before '=' argument).isPrefixOf entry.1).map
      fun (name, option) => (name, option, Text.after? '=' argument)
  else
    (Switch.named.filter fun entry => entry.1 = argument.take 2).map
      fun (name, option) => (name, option, some (argument.drop 2))

/-- Classifies an argument in front of the separator. -/
def classify (argument : Text) : Except RequestError Argument :=
  if argument.head? ≠ some '-' then .ok (path argument)
  else
    let name := Text.before '=' argument
    match Switch.named.lookup argument, Switch.named.lookup name with
    | some option, _ => .ok (switch option argument none)
    | none, some option => .ok (switch option name (Text.after? '=' argument))
    | none, none =>
      if argument = ['-'] then .ok (path argument)
      else
        match candidates argument with
        | [(name, option, value)] => .ok (switch option name value)
        | [] =>
          if isNegativeNumber argument || argument.contains ' ' then .ok (path argument)
          else .ok (unknown argument)
        | several => .error (.ambiguous argument (several.map (·.1)))

def classifyAll : List Text → Except RequestError (List Argument)
  | [] => .ok []
  | argument :: rest =>
    if argument = "--".toList then .ok (separator :: rest.map path)
    else return (← classify argument) :: (← classifyAll rest)

end Argument

-- ---------------------------------------------------------------------------
-- Reading
-- ---------------------------------------------------------------------------

structure Reading where
  request : Request := {}
  /-- What is not recognized. -/
  extras : List Text := []

/-- Carries out an option with its value. -/
def Switch.apply (value : Option Text) (r : Request) : Switch → Except RequestError Request
  | help => .error (.information help)
  | version => .error (.information version)
  | verbosity =>
    match value, value.bind Text.readInteger? with
    | none, _ => .ok r
    | some value, none => .error (.noNumber verbosity value)
    | some _, some level =>
      if 0 ≤ level ∧ level ≤ 3 then .ok r else .error (.unknownLevel verbosity level)
  | settings | modulePath | traceback | skipChecks => .ok r
  | noColor => .ok { r with isPlain := true }
  | forceColor => .ok { r with isColored := true }
  | outputDirectory => .ok { r with outputDirectory := value }
  | dependencies => .ok { r with listsDependencies := true }
  | suspended => .ok { r with isSuspended := true }
  | dryRun => .ok { r with isDryRun := true }

/-- The value of an option that is written together with it. -/
def joinedValue? (value : Text) : Option Text := if value = "--".toList then none else some value

/-- Checks what is written behind an option without a value in the same argument, with the arguments
`rest` behind it. Behind a single dash there may be more options: letters, the last of which may
have a value. -/
def checkBundle (rest : List Argument) (name : Text) (option : Switch) :
    Text → Except RequestError Unit
  | [] => .error (.unexpectedValue option [])
  | c :: bundle =>
    match if "--".toList.isPrefixOf name then none else Switch.named.lookup ['-', c] with
    | none => .error (.unexpectedValue option (c :: bundle))
    | some next =>
      if !bundle.isEmpty then
        if next.takesValue then .ok () else checkBundle rest name next bundle
      else
        match next.takesValue, rest with
        | false, _ | true, .path _ :: _ => .ok ()
        | true, _ => .error (.missingValue next)

namespace Reading

/-- Takes arguments that are no options: the paths, where there are none so far. -/
def takePaths (r : Reading) (arguments : List Argument) : Reading :=
  if r.request.paths.isEmpty && arguments.any (· ≠ .separator) then
    { r with request := { r.request with paths := (arguments.erase .separator).map (·.text) } }
  else { r with extras := r.extras ++ arguments.map (·.text) }

def apply (r : Reading) (option : Switch) (value : Option Text) : Except RequestError Reading :=
  return { r with request := ← option.apply value r.request }

/-- Reads arguments in order. `pending` are the last ones in front, as far as they are no
options. -/
def readFrom (r : Reading) (pending : List Argument) : List Argument → Except RequestError Reading
  | [] => .ok (if pending.isEmpty then r else r.takePaths pending)
  | .switch option name value :: rest =>
    let r := if pending.isEmpty then r else r.takePaths pending
    if option.takesValue then
      match value, rest with
      | some value, rest => do (← r.apply option (joinedValue? value)).readFrom [] rest
      | none, .path value :: rest => do (← r.apply option (some value)).readFrom [] rest
      | none, _ => .error (.missingValue option)
    else
      match value with
      | some bundle => do
        checkBundle rest name option bundle
        (← r.apply option none).readFrom [] rest
      | none => do (← r.apply option none).readFrom [] rest
  | .unknown text :: rest =>
    let r := if pending.isEmpty then r else r.takePaths pending
    { r with extras := r.extras ++ [text] }.readFrom [] rest
  | argument :: rest => r.readFrom (pending ++ [argument]) rest

end Reading

def Request.ofArguments (arguments : List Text) : Except RequestError Request := do
  let r ← ({} : Reading).readFrom [] (← Argument.classifyAll arguments)
  if r.request.paths.isEmpty then throw .missingPaths
  if !r.extras.isEmpty then throw (.unrecognized r.extras)
  if r.request.isColored && r.request.isPlain then throw .contradictoryColors
  return r.request

end PageSplice.Batch
