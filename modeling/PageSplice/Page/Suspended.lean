-- SUMMARY: Compiling pages without blocking: the calls of delegates are handed to workers.
import PageSplice.Page.Compile
import PageSplice.Suspension

/-!
# Compiling pages without blocking

The suspended form of page compilation takes the same steps as the blocking
one. It differs where a delegate is called: the call is handed to a worker. A
page compiler inside of a page is suspended itself and needs no worker.
-/

namespace PageSplice.Page

variable {σ : Type}

/-- What a compiler makes of a region; `none` where it declines. -/
def handleSuspended (nested : PageCompiler σ → Suspension σ Output) (h : Handler σ)
    (content identity : Text) : Suspension σ (Option Output) := do
  let accepted ← match h with
    | .page _ _ => pure (Mime.isHtmlPath identity)
    | .delegate d => .await (d.accepts identity)
    | .foreign name => .fail (.missingMethod name "should_compile_file".toList)
  if !accepted then
    .inPassing (logDeclined h identity)
    return none
  match h with
  | .page _ compiler => some <$> nested compiler
  | .delegate d => some <$> .await (d.compile content identity)
  | .foreign name => .fail (.missingMethod name "compile".toList)

/-- Compiles a region of the document at `path`. -/
def compileRegionSuspended (env : Environment σ) (c : PageCompiler σ) (path : Text)
    (nested : PageCompiler σ → Text → Suspension σ Output) (d : Html.Document) (r : CodeRegion) :
    Suspension σ Html.Document := do
  let type ← .inPassing (Build.ofExcept .misuse r.typeText)
  let identity := Mime.identity path r.ordinal type
  match ← .inPassing (handlerFor env c.lookup type identity) with
  | none => return d
  | some h =>
    let made ← Suspension.mapFailure (Failure.wrap identity) <|
      handleSuspended (nested · identity) h r.content identity
    match made with
    | none => return d
    | some made => .inPassing (replaceBody c.rules d r identity made)

/-- Compiles the document with the given markup at `path`. -/
def compileSuspended (env : Environment σ) (c : PageCompiler σ) (markup path : Text) :
    Suspension σ Output := do
  let page ← .inPassing (Build.ofExcept id (prepare env.workingDirectory c.rules markup path))
  .inPassing ((page.regions.filter (·.mimeType.isNone)).forM (logUntyped · path))
  let compilable := page.regions.filter (·.mimeType.isSome)
  let d ← compilable.attach.foldlM
    (fun d ⟨r, hr⟩ =>
      have := page.length_content_lt r (List.mem_filter.1 hr).1
      compileRegionSuspended env c path
        (fun c identity => compileSuspended env c r.content identity) d r)
    page.document
  .inPassing (finish d path)
termination_by markup.length

def compileSourceSuspended (env : Environment σ) (c : PageCompiler σ) (source : Html.Source)
    (path : Text) : Suspension σ Output :=
  match source with
  | .text markup => compileSuspended env c markup path
  | .other kind => .fail (.malformed (.notText kind))

end PageSplice.Page
