-- SUMMARY: Mime types: their normal form, the extension of a type, the type of a path, identities of regions.
import PageSplice.Mime.Table
import PageSplice.Text.Blank
import PageSplice.Text.Case

/-!
# Mime types

The type of a region decides which compiler takes it and which extension its
synthetic path gets; the extension of a path decides whether it is an HTML
document. Web types have extensions of their own choice here, everything else
follows a table of extensions.
-/

namespace PageSplice.Mime

/-- A type in lower case, without its parameters. -/
def normalize (type : Text) : Text := Text.lower (Text.trim (Text.before ';' type))

/-- The extensions of web types, which go before the table of registered ones. -/
def preferred : List (Text × Text) :=
  [("text/javascript", "js"), ("application/javascript", "js"), ("text/ecmascript", "js"),
   ("text/jsx", "jsx"), ("text/typescript", "ts"), ("application/typescript", "ts"),
   ("text/tsx", "tsx"), ("text/coffeescript", "coffee"), ("text/cson", "cson"),
   ("text/css", "css"), ("text/less", "less"), ("text/scss", "scss"), ("text/sass", "sass"),
   ("text/stylus", "styl"), ("text/html", "html"), ("application/json", "json")].map
    fun (type, extension) => (type.toList, extension.toList)

/-- The subtype without an `x-` in front, or `txt` where nothing is left. -/
def subtypeExtension (type : Text) : Text :=
  let subtype := Text.afterLast '/' type
  let subtype := ("x-".toList.isPrefixOf? subtype).getD subtype
  if subtype.isEmpty then "txt".toList else subtype

namespace Table

/-- The registered extension that stands for a type, with its dot. -/
def registeredExtension? (table : Table) (type : Text) : Option Text :=
  (table.registered.find? fun entry => entry.2 = type).map (·.1)

/-- The extension of a type, without a dot. -/
def extension (table : Table) (type : Text) : Text :=
  let type := normalize type
  match preferred.lookup type with
  | some extension => extension
  | none =>
    match table.registeredExtension? type with
    | some extension => Text.trimLeft (· = '.') extension
    | none => subtypeExtension type

end Table

-- ---------------------------------------------------------------------------
-- Types of paths
-- ---------------------------------------------------------------------------

/-- Cuts a path in front of the last dot of its last segment. Dots that begin the segment do not
count, and without another dot the extension is empty. -/
def splitExtension (path : Text) : Text × Text :=
  let file := Text.afterLast '/' path
  let stem := Text.beforeLast '.' file
  if stem.all (· = '.') then (path, [])
  else
    let extension := '.' :: Text.afterLast '.' file
    (path.take (path.length - extension.length), extension)

/-- The type of a `data:` URL, given what follows its scheme. -/
def ofDataUrl? (rest : Text) : Option Text :=
  if rest.contains ',' then
    let type := Text.before ';' (Text.before ',' rest)
    some (if type.contains '=' || !type.contains '/' then "text/plain".toList else type)
  else none

/-- Cuts a scheme off a path: what stands in front of the first colon, unless that is empty or
holds a slash. -/
def splitScheme (path : Text) : Option Text × Text :=
  let scheme := Text.before ':' path
  match Text.after? ':' path with
  | some rest =>
    if scheme.isEmpty || scheme.contains '/' then (none, path) else (some (Text.lower scheme), rest)
  | none => (none, path)

def htmlTypes : List Text := ["text/html".toList, "application/xhtml+xml".toList]

namespace Table

/-- The type of an extension with its dot, in whatever case. -/
def type? (table : Table) (extension : Text) : Option Text :=
  let extension := Text.lower extension
  (table.registered.lookup extension).or (table.common.lookup extension)

def ofExtension? (table : Table) (path : Text) : Option Text :=
  let (stem, extension) := splitExtension path
  let (stem, extension) :=
    match abbreviations.lookup (Text.lower extension) with
    | some long => splitExtension (stem ++ long)
    | none => (stem, extension)
  table.type? (if encodings.contains extension then (splitExtension stem).2 else extension)

def guess? (table : Table) (path : Text) : Option Text :=
  match splitScheme path with
  | (some scheme, rest) =>
    if scheme = "data".toList then ofDataUrl? rest else table.ofExtension? rest
  | (none, path) => table.ofExtension? path

/-- The type of a path: a web type for its extension, else what the table says. -/
def ofPath? (table : Table) (path : Text) : Option Text :=
  let extension := if path.contains '.' then Text.lower (Text.afterLast '.' path) else []
  match preferred.find? fun entry => entry.2 = extension with
  | some (type, _) => some type
  | none => table.guess? path

def isHtmlPath (table : Table) (path : Text) : Bool :=
  match table.ofPath? path with
  | some type => htmlTypes.contains type
  | none => false

end Table

-- ---------------------------------------------------------------------------
-- The table that every host has
-- ---------------------------------------------------------------------------

def extension (type : Text) : Text := Table.builtin.extension type

def ofPath? (path : Text) : Option Text := Table.builtin.ofPath? path

def isHtmlPath (path : Text) : Bool := Table.builtin.isHtmlPath path

-- ---------------------------------------------------------------------------
-- Identities
-- ---------------------------------------------------------------------------

/-- The synthetic path of the region with number `ordinal` and type `type` of the document at
`path`. -/
def identity (path : Text) (ordinal : Int) (type : Text) : Text :=
  path ++ ":inline_".toList ++ Text.ofInt ordinal ++ ['.'] ++ extension type

end PageSplice.Mime
