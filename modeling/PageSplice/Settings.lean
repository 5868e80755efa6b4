-- SUMMARY: Settings: what a site configures, the defaults, and the configuration read off them.
import PageSplice.Json.Value
import PageSplice.Path
import PageSplice.Region
import PageSplice.Registry

/-!
# Settings

A site gives some settings values of its own; every other setting has its
default. A setting that is given counts even where its value is null, and where
it is of the wrong kind: what is read off it is then a misfit.
-/

namespace PageSplice

inductive Setting (σ : Type)
  | value (value : Json.Value)
  /-- A compiler for each type. -/
  | compilers (entries : List (Text × Entry σ))

abbrev Settings (σ : Type) := List (Text × Setting σ)

namespace Settings

variable {σ : Type}

/-- The class of the compiler that changes nothing. -/
def passthroughPath : Text :=
  "inline_asset_compiler.compilers.passthrough.PassthroughCompiler".toList

/-- The class of the compiler of HTML documents. -/
def htmlPath : Text := "inline_asset_compiler.compilers.html.InlineHtmlCompiler".toList

/-- The defaults. -/
def defaults (σ : Type) : Settings σ :=
  [("COMPILERS".toList, .compilers
      [("text/javascript".toList, .path passthroughPath),
       ("application/javascript".toList, .path passthroughPath),
       ("text/css".toList, .path passthroughPath),
       ("text/html".toList, .path htmlPath)]),
   ("DEFAULT_SCRIPT_TYPE".toList, .value (.str "text/javascript".toList)),
   ("DEFAULT_STYLE_TYPE".toList, .value .null),
   ("RESOURCE_TAG".toList, .value (.str "x-require".toList)),
   ("MIN_REGION_LENGTH".toList, .value (.int 2)),
   ("DOCUMENT_ROOT".toList, .value .null),
   ("CACHE_TIMEOUT".toList, .value (.int 300))]

/-- The value of the setting `key`; where the site does not give it, `fallback`. -/
def getD (settings : Settings σ) (key : Text) (fallback : Setting σ) : Setting σ :=
  (settings.lookup key).getD fallback

/-- The value of the setting `key`, or its default; null where there is no such setting. -/
def get (settings : Settings σ) (key : Text) : Setting σ :=
  settings.getD key (((defaults σ).lookup key).getD (.value .null))

/-- A setting that is a value; compilers count as an object with members. -/
def value (settings : Settings σ) (key : Text) : Json.Value :=
  match settings.get key with
  | .value v => v
  | .compilers _ => .obj [([], .null)]

def misfit (v : Json.Value) : Misfit := ⟨v.kind, v.isEmpty⟩

def text : Json.Value → Configured Text
  | .str s => .fit s
  | v => .misfit (misfit v)

/-- A value that should be a number. A truth value counts as one or zero, and a fraction as the next
integer above it, since only integers are compared with it. -/
def number : Json.Value → Configured Int
  | .int i => .fit i
  | .bool b => .fit b.toInt
  | .decimal d => .fit d.ceiling
  | v => .misfit (misfit v)

def optional {α : Type} (read : Json.Value → Configured α) : Json.Value → Option (Configured α)
  | .null => none
  | v => some (read v)

def rules (settings : Settings σ) : RegionRules where
  resourceTag := text (settings.value "RESOURCE_TAG".toList)
  scriptType := optional text (settings.value "DEFAULT_SCRIPT_TYPE".toList)
  styleType := optional text (settings.value "DEFAULT_STYLE_TYPE".toList)
  minLength := number (settings.value "MIN_REGION_LENGTH".toList)

def registry (settings : Settings σ) : Registry σ :=
  match settings.get "COMPILERS".toList with
  | .compilers entries => .ofList entries
  | .value _ => .ofList []

/-- The directory that documents are served from; `none` where no directory is set. -/
def documentRoot? (settings : Settings σ) : Except Misuse (Option Text) :=
  let v := settings.value "DOCUMENT_ROOT".toList
  if v.isEmpty then .ok none
  else
    match text v with
    | .fit root => .ok (some root)
    | .misfit misfit => .error (.path misfit)

/-- How long a compiled page is kept, in seconds; `none` for a page that is kept for ever. -/
def cacheTimeout? (settings : Settings σ) : Except Misuse (Option Int) :=
  match optional number (settings.value "CACHE_TIMEOUT".toList) with
  | none => .ok none
  | some (.fit timeout) => .ok (some timeout)
  | some (.misfit misfit) => .error (.span misfit)

end Settings

/-- What a build finds around it. -/
structure Environment (σ : Type) where
  /-- The directory that relative paths start from. -/
  workingDirectory : Path
  settings : Settings σ

end PageSplice
