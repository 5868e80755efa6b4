-- SUMMARY: Driving suspended page compilations: they do what the blocking ones do, at every depth.
import PageSplice.Proofs.Page.Cancellation
import PageSplice.Proofs.Page.Identities

/-!
# Driving page compilations

The suspended form of a compilation has loops of its own and calls suspended
forms for the pages inside of a page. Driven to its end it is the blocking form:
both do the same from every session, so they succeed and fail alike and leave
the same context, log and calls of delegates behind. A class that is no compiler
has neither form of the methods that are called, and the two complain about
different ones; so look-ups that find such a class are left out.
-/

namespace PageSplice.Page

open Build

variable {σ : Type} {env : Environment σ} {c : PageCompiler σ} {path : Text}

def FindsCompilers (lookup : Lookup σ) : Prop :=
  ∀ type name, lookup.find? type ≠ .ok (some (.foreign name))

theorem FindsCompilers.recorded {lookup : Lookup σ} (h : FindsCompilers lookup) :
    FindsCompilers lookup.recorded := by
  intro type name hfind
  rw [find?_recorded] at hfind
  rcases hfound : lookup.find? type with failure | _ | compiler
  · rw [hfound] at hfind
    cases hfind
  · rw [hfound] at hfind
    cases hfind
  · rw [hfound] at hfind
    cases compiler <;> cases hfind
    exact h type name hfound

-- ---------------------------------------------------------------------------
-- One region
-- ---------------------------------------------------------------------------

theorem run_handleSuspended {nested' : PageCompiler σ → Suspension σ Output}
    {nested : PageCompiler σ → Build σ Output} {h : Handler σ}
    (hcompiler : ∀ name, h ≠ .foreign name)
    (hnested : ∀ name compiler, h = .page name compiler → (nested' compiler).run = nested compiler)
    (content identity : Text) :
    (handleSuspended nested' h content identity).run = handle nested h content identity := by
  cases h with
  | page name compiler =>
    refine (Suspension.run_bind _ _).trans (congrArg _ (funext fun accepted => ?_))
    exact run_afterAccepts (hnested name compiler rfl) _ identity accepted
  | delegate d =>
    refine (Suspension.run_bind _ _).trans (congrArg _ (funext fun accepted => ?_))
    exact run_afterAccepts (Suspension.run_await (d.compile content identity)) _ identity accepted
  | foreign name => exact absurd rfl (hcompiler name)

theorem isCompiler_of_yields (hfinds : FindsCompilers c.lookup) {type identity : Text}
    {h : Handler σ} {s s' : Session σ}
    (hfound : (handlerFor env c.lookup type identity).Yields s (some h) s') :
    (∀ name, h ≠ .foreign name) ∧
      ∀ name compiler, h = .page name compiler → compiler.lookup = c.lookup := by
  rcases yields_handlerFor hfound with ⟨-, hnone, -⟩ | ⟨found, _, hfind, hmake, hsome, -⟩
  · cases hnone
  · cases hsome
    constructor
    · rintro name rfl
      cases found <;> cases hmake
      exact hfinds type name hfind
    · rintro name compiler rfl
      exact comesFrom_of_instantiate hfind hmake

theorem run_compileRegionSuspended (hfinds : FindsCompilers c.lookup)
    {nested' : PageCompiler σ → Text → Suspension σ Output}
    {nested : PageCompiler σ → Text → Build σ Output}
    (hnested : ∀ compiler identity, compiler.lookup = c.lookup →
      (nested' compiler identity).run = nested compiler identity)
    (d : Html.Document) (r : CodeRegion) :
    (compileRegionSuspended env c path nested' d r).run = compileRegion env c path nested d r := by
  refine (Suspension.run_bind _ _).trans (congrArg _ (funext fun type => ?_))
  refine (Suspension.run_bind _ _).trans (bind_congr_of_yields fun s found s' hfound => ?_)
  cases found with
  | none => exact Suspension.run_pure d
  | some h =>
    obtain ⟨hcompiler, hpage⟩ := isCompiler_of_yields hfinds hfound
    refine (Suspension.run_bind _ _).trans ?_
    rw [Suspension.run_mapFailure, run_handleSuspended hcompiler fun name compiler heq =>
      hnested compiler _ (hpage name compiler heq)]
    refine congrArg _ (funext fun made => ?_)
    cases made with
    | none => exact Suspension.run_pure d
    | some made => exact Suspension.run_inPassing _

-- ---------------------------------------------------------------------------
-- Whole compilations
-- ---------------------------------------------------------------------------

theorem run_compileSuspended (hfinds : FindsCompilers c.lookup) (markup path : Text) :
    (compileSuspended env c markup path).run = compile env c markup path := by
  -- A page inside of the page has the same look-up, and other rules, so `c` varies.
  induction hn : markup.length using Nat.strongRecOn generalizing c markup path with
  | ind n ih =>
    subst hn
    rw [compileSuspended, compile, Suspension.run_bind, Suspension.run_inPassing]
    refine congrArg _ (funext fun page => ?_)
    rw [Suspension.run_bind, Suspension.run_inPassing]
    refine congrArg _ (funext fun _ => ?_)
    rw [Suspension.run_bind, Suspension.run_foldlM]
    simp only [Suspension.run_inPassing]
    refine congrArg (· >>= _) (foldlM_congr (fun d region _ => ?_) page.document)
    obtain ⟨r, hr⟩ := region
    have hshorter := page.length_content_lt r (List.mem_filter.1 hr).1
    exact run_compileRegionSuspended hfinds (fun compiler identity hlookup =>
      ih _ hshorter (hlookup ▸ hfinds) r.content identity rfl) d r

/-- From every session, both forms of a compilation end with the same result or the same failure, and
leave the same context and the same log behind. On the way they call the same delegates in the same
order: recorded delegates do what they do without, and write the same `calls` down. -/
theorem run_compileSourceSuspended (hfinds : FindsCompilers c.lookup) (source : Html.Source)
    (path : Text) (s : Session σ) :
    (compileSourceSuspended env c source path).run.run.run s =
      (compileSource env c source path).run.run s ∧
    ∃ calls,
      (compileSourceSuspended env.recorded c.recorded source path).run.run.run (s.withCalls []) =
        (((compileSource env c source path).run.run s).1,
          ((compileSource env c source path).run.run s).2.withCalls calls) ∧
      (compileSource env.recorded c.recorded source path).run.run (s.withCalls []) =
        (((compileSource env c source path).run.run s).1,
          ((compileSource env c source path).run.run s).2.withCalls calls) := by
  cases source with
  | other kind => exact ⟨rfl, [], rfl, rfl⟩
  | text markup =>
    have hplain : (compileSourceSuspended env c (.text markup) path).run =
        compile env c markup path := run_compileSuspended hfinds markup path
    have hrecorded : (compileSourceSuspended env.recorded c.recorded (.text markup) path).run =
        compile env.recorded c.recorded markup path :=
      run_compileSuspended hfinds.recorded markup path
    obtain ⟨calls, -, hrun⟩ := mirrors_compile env c markup path s []
    rw [Except.map_id, id, List.nil_append] at hrun
    rw [hplain, hrecorded]
    exact ⟨rfl, calls, hrun, hrun⟩

theorem run_compileSourceSuspended_nested :
    let env : Environment (List Text) := ⟨⟨.root, []⟩, []⟩
    let c : PageCompiler (List Text) := ⟨.exact
      [("text/javascript".toList, .compiler (.delegate scribe)),
       ("text/css".toList, .compiler (.delegate scribe)),
       ("text/html".toList, .compiler Catalog.html)], {}⟩
    let inner := "<style type=text/javascript>cd</style>".toList
    let source : Html.Source := .text ("<style type=text/css>ab</style><script type=text/html>".toList ++
      inner ++ "</script><script>gh</script><script>ij</script>".toList)
    let blocking := (compileSource env c source "/p/a.html".toList).run.run ⟨[], []⟩
    FindsCompilers c.lookup ∧
      (compileSourceSuspended env c source "/p/a.html".toList).run.run.run ⟨[], []⟩ = blocking ∧
      (∃ calls,
        (compileSourceSuspended env.recorded c.recorded source "/p/a.html".toList).run.run.run
          ⟨([], []), []⟩ = (blocking.1, blocking.2.withCalls calls) ∧
        (compileSource env.recorded c.recorded source "/p/a.html".toList).run.run ⟨([], []), []⟩ =
          (blocking.1, blocking.2.withCalls calls)) ∧
      (blocking.1.mapError fun failure => (failure.identity?, failure.message)).map Output.code =
        .error (some "/p/a.html:inline_2.js".toList,
          "Failed to compile /p/a.html:inline_2.js: no gh".toList) ∧
      blocking.2.context = ["takes? /p/a.html:inline_0.css".toList,
        "takes? /p/a.html:inline_1.html:inline_0.js".toList,
        "compiles cd of /p/a.html:inline_1.html:inline_0.js".toList,
        "takes? /p/a.html:inline_2.js".toList, "compiles gh of /p/a.html:inline_2.js".toList] := by
  intro env c inner source blocking
  have hfinds : FindsCompilers c.lookup := by
    intro type name hfind
    rw [Lookup.find?] at hfind
    split at hfind <;> cases hfind
    rename_i hentry
    obtain ⟨before, after, htable, -⟩ := List.lookup_eq_some_iff.1 hentry
    have hmem : (type, Entry.compiler (.foreign name)) ∈ before ++
        (type, Entry.compiler (.foreign name)) :: after :=
      List.mem_append_right before List.mem_cons_self
    rw [← htable] at hmem
    simp [Catalog.html] at hmem
  obtain ⟨hsame, hcalls⟩ :=
    @run_compileSourceSuspended _ env _ hfinds source "/p/a.html".toList ⟨[], []⟩
  exact ⟨hfinds, hsame, hcalls, by decide +kernel⟩

end PageSplice.Page
