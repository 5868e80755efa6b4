-- SUMMARY: The catalog of the classes of the application, by the modules that hold them.
import PageSplice.Minify.Delegates
import PageSplice.Registry

/-!
# The catalog

The application imports classes of its own: what stands in front of the last dot
of a dotted path is a module, and what stands behind it is a class that the
module holds. Modules are found from the outermost inwards, so the first one that
is missing is the one that is reported. Not every class is a compiler, and not
every one has instances.
-/

namespace PageSplice

namespace Catalog

variable {σ : Type}

def applicationName : Text := "inline_asset_compiler".toList

/-- The name of the application for people. -/
def applicationTitle : Text := "Inline Asset Compiler".toList

-- ---------------------------------------------------------------------------
-- Classes
-- ---------------------------------------------------------------------------

/-- Names in a row: commas between them where they are more than two, and `and` before the last. -/
def enumerate : List Text → Text
  | [] => []
  | [a] => a
  | [a, b] => a ++ " and ".toList ++ b
  | several => Text.joinWith ", ".toList several.dropLast ++ ", and ".toList ++ several.getLastD []

/-- The objection to an instance that is made without the arguments its maker needs. -/
def lacking (maker : Text) (arguments : List Text) : Text :=
  maker ++ "() missing ".toList ++ Text.ofNat arguments.length ++
    (if arguments.length = 1 then " required positional argument: ".toList
      else " required positional arguments: ".toList) ++
    enumerate (arguments.map Text.quoted)

/-- A class whose instances need arguments. -/
def needy (name maker : String) (arguments : List String) : CompilerClass σ :=
  .abstract name.toList (lacking maker.toList (arguments.map String.toList))

def compileError (name : String) : CompilerClass σ :=
  needy name "CompileError.__init__" ["message"]

def unsupportedType : CompilerClass σ :=
  needy "UnsupportedMimeType" "UnsupportedMimeType.__init__" ["mime_type"]

def traversal : CompilerClass σ :=
  needy "PathTraversalRejected" "PathTraversalRejected.__init__" ["src"]

def document : CompilerClass σ := needy "Document" "Document.__init__" ["source"]

def element : CompilerClass σ :=
  needy "Element" "Element.__init__" ["document", "tag", "attrs", "start", "start_text"]

def region : CompilerClass σ := needy "Region" "Region.__init__" ["kind", "element", "ordinal"]

def result : CompilerClass σ :=
  needy "CompileResult" "CompileResult.__new__" ["code", "mime_type"]

/-- The class that all compilers are derived from. -/
def base : CompilerClass σ :=
  .abstract "BaseCompiler".toList
    "Can't instantiate abstract class BaseCompiler with abstract method compile_sync".toList

def html : CompilerClass σ := .html "InlineHtmlCompiler".toList

def registry : CompilerClass σ := .foreign "CompilerRegistry".toList

-- ---------------------------------------------------------------------------
-- Modules
-- ---------------------------------------------------------------------------

/-- A module. A package has modules inside. -/
structure Module (σ : Type) where
  name : Text
  isPackage : Bool := false
  classes : List (CompilerClass σ) := []
  /-- A module of others that it needs and that is not there. -/
  lacks : Option Text := none

def moduleOf (name : String) (classes : List (CompilerClass σ)) : Module σ :=
  { name := applicationName ++ '.' :: name.toList, classes }

def packageOf (name : String) : Module σ :=
  { name := applicationName ++ '.' :: name.toList, isPackage := true }

/-- The module of the minifying delegates. It needs modules of others, of which it asks for that of the
style sheets first. -/
def minifyModule (σ : Type) : Option Minifiers → Module σ
  | some minifiers => moduleOf "compilers.minify"
    [base, result, .delegate (Delegate.scriptMinifier minifiers σ),
     .delegate (Delegate.styleMinifier minifiers σ)]
  | none => { moduleOf "compilers.minify" [] with lacks := some "rcssmin".toList }

/-- The modules of the application. -/
def modules (minifiers : Option Minifiers) (σ : Type) : List (Module σ) :=
  [{ name := applicationName, isPackage := true },
   moduleOf "apps" [needy "InlineAssetCompilerConfig" "AppConfig.__init__" ["app_name", "app_module"]],
   moduleOf "conf" [],
   moduleOf "document" [compileError "MalformedDocument", element, document],
   moduleOf "errors"
     [compileError "CompileError", unsupportedType, compileError "DelegateCompileError", traversal,
      compileError "MalformedDocument"],
   moduleOf "identity" [],
   moduleOf "middleware"
     [html, needy "InlineCompilerMiddleware" "InlineCompilerMiddleware.__init__" ["get_response"]],
   moduleOf "regions" [document, element, region],
   moduleOf "registry" [unsupportedType, registry],
   moduleOf "sourcemaps" [],
   packageOf "compilers",
   moduleOf "compilers.base" [result, base],
   moduleOf "compilers.html"
     [document, element, compileError "DelegateCompileError", traversal, unsupportedType, region,
      registry, base, result, html],
   minifyModule σ minifiers,
   moduleOf "compilers.passthrough" [base, result, .delegate (Delegate.passthrough σ)],
   packageOf "management",
   packageOf "management.commands",
   moduleOf "management.commands.compile_inline"
     [result, html, compileError "CompileError", .foreign "Command".toList]]

variable (minifiers : Option Minifiers)

def module? (name : Text) : Option (Module σ) :=
  (modules minifiers σ).find? (·.name = name)

/-- What a module calls by that name: a class of its own, or a module inside. -/
def member? (m : Module σ) (name : Text) : Option (CompilerClass σ) :=
  let inner := (module? minifiers (m.name ++ '.' :: name) : Option (Module σ))
  (m.classes.find? (·.name = name)).or
    ((inner.filter (·.lacks.isNone)).map fun inner => .module inner.name)

/-- Goes from the module `outer` inwards along the names `parts`. -/
def descend (outer : Module σ) : List Text → Except LookupError (Module σ)
  | [] => .ok outer
  | part :: parts =>
    let name := outer.name ++ '.' :: part
    match module? minifiers name with
    | some inner =>
      match inner.lacks with
      | some missing => .error (.missingModule missing none)
      | none => descend inner parts
    | none => .error (.missingModule name (if outer.isPackage then none else some outer.name))

/-- The module of that name, found from the outermost one inwards. -/
def findModule (name : Text) : Except LookupError (Module σ) :=
  match Text.splitOn '.' name with
  | [] => .error .emptyModule
  | outermost :: parts =>
    match module? minifiers outermost with
    | some outer => descend minifiers outer parts
    | none => .error (.missingModule outermost none)

/-- The class that a dotted path names, where nothing but the application can be imported. -/
def find : Importer σ := fun path =>
  if !path.contains '.' then .error .undotted
  else
    let name := Text.beforeLast '.' path
    let member := Text.afterLast '.' path
    if name.isEmpty then .error .emptyModule
    else if name.head? = some '.' then .error (.relativeModule name)
    else
      match findModule minifiers name with
      | .error e => .error e
      | .ok found =>
        match member? minifiers found member with
        | some compiler => .ok compiler
        | none => .error (.missingClass name member)

end Catalog

end PageSplice
