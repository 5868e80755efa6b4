-- SUMMARY: Compiling pages: regions are handed to delegates one after the other and replaced by what they make.
import PageSplice.Page.Reference
import PageSplice.Settings
import PageSplice.SourceMap.Reference

/-!
# Compiling pages

A page is compiled in steps. The document is read and its regions are found;
resource references become absolute and addresses secure; then the compilable
regions are handed to their delegates in document order, and what a delegate
makes takes the place of the region's body, with a source map attached. A
region without a delegate, or one that its delegate declines, stays as it is.

A delegate may be a page compiler itself. The documents it is handed are
regions of the page and therefore shorter, which is why the recursion ends.
-/

namespace PageSplice

/-- A compiler of pages: how it finds delegates, and what counts as a region. -/
structure PageCompiler (σ : Type) where
  lookup : Lookup σ
  rules : RegionRules

/-- The page compiler of a site, with its own way of finding delegates. -/
def PageCompiler.withLookup {σ : Type} (settings : Settings σ) (lookup : Lookup σ) :
    PageCompiler σ :=
  ⟨lookup, settings.rules⟩

def PageCompiler.ofSettings {σ : Type} (load : Importer σ) (settings : Settings σ) :
    PageCompiler σ :=
  .withLookup settings (.registry load settings.registry)

namespace Page

variable {σ : Type}

-- ---------------------------------------------------------------------------
-- Preparation
-- ---------------------------------------------------------------------------

/-- A document that is ready for its regions to be compiled. -/
structure Prepared (markup : Text) where
  /-- The document, with its references absolute and its addresses secure. -/
  document : Html.Document
  /-- The code regions, in document order. -/
  regions : List CodeRegion
  length_content_lt : ∀ r ∈ regions, r.content.length < markup.length

def codeRegions (regions : List Region) : List CodeRegion :=
  regions.filterMap fun | .code r => some r | .resource _ => none

def resourceRegions (regions : List Region) : List ResourceRegion :=
  regions.filterMap fun | .resource r => some r | .code _ => none

/-- Reads the document at `path`, finds its regions, and makes its references absolute and
its addresses secure. -/
def prepare (workingDirectory : Path) (rules : RegionRules) (markup path : Text) :
    Except Failure (Prepared markup) :=
  match h : Html.Document.parse markup with
  | .error e => .error (.malformed e)
  | .ok d =>
    match hd : Region.ofDocument rules d with
    | .error e => .error (.misuse e)
    | .ok regions => do
      let directory := Path.directoryOf workingDirectory path
      let anchored ← (resourceRegions regions).foldlM (canonicalize directory path) d
      return {
        document := secureLinks anchored
        regions := codeRegions regions
        length_content_lt := by
          intro r hr
          obtain ⟨region, hregion, hcode⟩ := List.mem_filterMap.1 hr
          cases region with
          | resource r => simp at hcode
          | code r' =>
            simp only [Option.some.injEq] at hcode
            subst hcode
            exact Html.Document.markup_of_parse h ▸ Region.length_content_lt hd hregion }

-- ---------------------------------------------------------------------------
-- Delegates
-- ---------------------------------------------------------------------------

inductive Handler (σ : Type)
  | page (name : Text) (compiler : PageCompiler σ)
  | delegate (d : Delegate σ)
  | foreign (name : Text)

def Handler.name : Handler σ → Text
  | .page name _ => name
  | .delegate d => d.name
  | .foreign name => name

/-- Makes a compiler from its class. A page compiler finds delegates the way the one around it
does. -/
def instantiate (env : Environment σ) (lookup : Lookup σ) :
    CompilerClass σ → Except Failure (Handler σ)
  | .html name => .ok (.page name (.withLookup env.settings lookup))
  | .delegate d => .ok (.delegate d)
  | .abstract _ objection => .error (.notInstantiable objection)
  | .foreign name => .ok (.foreign name)
  | .module _ => .error .notClass

/-- The compiler for the region `identity` of that type; `none` for a region that is left alone,
which the log notes. -/
def handlerFor (env : Environment σ) (lookup : Lookup σ) (type identity : Text) :
    Build σ (Option (Handler σ)) := do
  match ← Build.ofExcept id (lookup.find? type) with
  | some compiler => some <$> Build.ofExcept id (instantiate env lookup compiler)
  | none =>
    Build.log .warning .page <|
      (Failure.unsupported type).message ++ "; leaving ".toList ++ identity ++
        " uncompiled".toList
    return none

-- ---------------------------------------------------------------------------
-- Splicing
-- ---------------------------------------------------------------------------

/-- Whether `s` goes on with a slash and the name of the element that holds code of the kind,
letter case set aside. -/
def closesElement (language : Language) : Text → Bool
  | '/' :: r => (Text.stripWord? language.tag r).isSome
  | _ => false

/-- Code with a backslash in each end tag that would close its element. -/
def escapeEndTags (language : Language) : Text → Text
  | [] => []
  | c :: r =>
    if c = '<' ∧ closesElement language r then '<' :: '\\' :: escapeEndTags language r
    else c :: escapeEndTags language r

def commentStyle : Language → SourceMap.CommentStyle
  | .script => .script
  | .style => .css

/-- The map from what the compiler made back to the region `identity`: its own, or one line by line
where it brings none. -/
def mapFor (r : CodeRegion) (identity : Text) (made : Output) : SourceMap :=
  match made.sourceMap with
  | none | some [] => SourceMap.ofLines made.code r.content identity
  | some map => map

/-- The new body of the region `identity`: what the compiler made, with its map. Code that is shorter
than a region gets no map. -/
def bodyFor (rules : RegionRules) (r : CodeRegion) (identity : Text) (made : Output) : Text :=
  let code := escapeEndTags r.language made.code
  if rules.isBelow code.length then code
  else SourceMap.attach (commentStyle r.language) (mapFor r identity made) code

/-- Objects to a map that the new body needs and that cannot be printed. -/
def checkMap (rules : RegionRules) (r : CodeRegion) (identity : Text) (made : Output) :
    Except Json.PrintError Unit :=
  let code := escapeEndTags r.language made.code
  if rules.isBelow code.length || SourceMap.hasReference code then .ok ()
  else (Json.Value.obj (mapFor r identity made)).check

def splice (rules : RegionRules) (d : Html.Document) (r : CodeRegion) (identity : Text)
    (made : Output) : Build σ Html.Document := do
  let body := bodyFor rules r identity made
  let d ← Build.ofExcept .body (d.setBody r.element body)
  Build.log .debug .page <|
    "Compiled ".toList ++ identity ++ " (".toList ++ Text.ofNat body.length ++ " chars)".toList
  return d

/-- Puts what the compiler made in the place of the region's body, if the map that goes with it can be
printed. -/
def replaceBody (rules : RegionRules) (d : Html.Document) (r : CodeRegion) (identity : Text)
    (made : Output) : Build σ Html.Document := do
  Build.ofExcept .unprintable (checkMap rules r identity made)
  splice rules d r identity made

def logDeclined (h : Handler σ) (identity : Text) : Build σ Unit :=
  Build.log .debug .page (h.name ++ " declined ".toList ++ identity)

def logUntyped (r : CodeRegion) (path : Text) : Build σ Unit :=
  Build.log .debug .page <|
    "No mime type for <".toList ++ r.language.tag ++ "> region ".toList ++ Text.ofNat r.ordinal ++
      " in ".toList ++ path ++ ", leaving it as-is".toList

def finish (d : Html.Document) (path : Text) : Build σ Output := do
  if !d.isModified then
    Build.log .debug .page ("Nothing to rewrite in ".toList ++ path)
  return { code := d.serialize, mimeType := "text/html".toList }

-- ---------------------------------------------------------------------------
-- Compilation
-- ---------------------------------------------------------------------------

/-- What a compiler makes of a region; `none` where it declines. `nested` compiles the region as a
page of its own. -/
def handle (nested : PageCompiler σ → Build σ Output) (h : Handler σ) (content identity : Text) :
    Build σ (Option Output) := do
  let accepted ← match h with
    | .page _ _ => pure (Mime.isHtmlPath identity)
    | .delegate d => d.accepts identity
    | .foreign name => throw (.missingMethod name "should_compile_file_sync".toList)
  if !accepted then
    logDeclined h identity
    return none
  match h with
  | .page _ compiler => some <$> nested compiler
  | .delegate d => some <$> d.compile content identity
  | .foreign name => throw (.missingMethod name "compile_sync".toList)

/-- Compiles a region of the document at `path`. Failures of its compiler name the region. -/
def compileRegion (env : Environment σ) (c : PageCompiler σ) (path : Text)
    (nested : PageCompiler σ → Text → Build σ Output) (d : Html.Document) (r : CodeRegion) :
    Build σ Html.Document := do
  let type ← Build.ofExcept .misuse r.typeText
  let identity := Mime.identity path r.ordinal type
  match ← handlerFor env c.lookup type identity with
  | none => return d
  | some h =>
    let made ← Build.mapFailure (Failure.wrap identity) <|
      handle (nested · identity) h r.content identity
    match made with
    | none => return d
    | some made => replaceBody c.rules d r identity made

/-- Compiles the document with the given markup at `path`. -/
def compile (env : Environment σ) (c : PageCompiler σ) (markup path : Text) : Build σ Output := do
  let page ← Build.ofExcept id (prepare env.workingDirectory c.rules markup path)
  (page.regions.filter (·.mimeType.isNone)).forM (logUntyped · path)
  let compilable := page.regions.filter (·.mimeType.isSome)
  let d ← compilable.attach.foldlM
    (fun d ⟨r, hr⟩ =>
      have := page.length_content_lt r (List.mem_filter.1 hr).1
      compileRegion env c path (fun c identity => compile env c r.content identity) d r)
    page.document
  finish d path
termination_by markup.length

def compileSource (env : Environment σ) (c : PageCompiler σ) (source : Html.Source) (path : Text) :
    Build σ Output :=
  match source with
  | .text markup => compile env c markup path
  | .other kind => throw (.malformed (.notText kind))

def dependencies (env : Environment σ) (source : Html.Source) (path : Text) :
    Except Failure (List Text) := do
  let d ← (Html.Document.read source).mapError .malformed
  dependenciesOf (Path.directoryOf env.workingDirectory path) d

end Page

end PageSplice
