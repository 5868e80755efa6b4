-- SUMMARY: Where the failures of a compilation come from: never from a body that is replaced.
import PageSplice.Page.Suspended
import PageSplice.Proofs.Page.Preparation
import PageSplice.Proofs.Page.Replacing
import PageSplice.Proofs.Suspension

/-!
# Where failures come from

A compilation fails by itself, for what is wrong with the page or with the
configuration or with the map of a region, or it fails because a delegate does. A
page inside of a page is compiled in the same way, and its failures are wrapped
as those of a delegate are. That a body cannot be replaced is not among the causes: each region takes
whatever its delegate makes of it. All this is so for both forms of a
compilation.
-/

namespace PageSplice.Page

open Build

variable {σ : Type}

-- ---------------------------------------------------------------------------
-- Origins of failures
-- ---------------------------------------------------------------------------

/-- Whether a page compiler fails for that cause by itself. -/
def IsOwn : Failure → Prop
  | .malformed _ | .traversal _ _ | .unprintable _ | .url _ | .misuse _ | .lookup _ | .notClass
  | .notInstantiable _ | .missingMethod _ _ => True
  | _ => False

/-- Whether some registered delegate fails for that cause, on some region and from some session. -/
def Raises (lookup : Lookup σ) (cause : Failure) : Prop :=
  ∃ type d, lookup.find? type = .ok (some (.delegate d)) ∧
    ∃ s s', (∃ identity, (d.accepts identity).run.run s = (.error cause, s')) ∨
      ∃ content identity, (d.compile content identity).run.run s = (.error cause, s')

/-- The failures of compilations with delegates from `lookup`: their own, and those of delegates and of
compilations inside, which are wrapped. -/
inductive ComesOf (lookup : Lookup σ) : Failure → Prop
  | own {failure : Failure} (h : IsOwn failure) : ComesOf lookup failure
  | raised (identity : Text) {cause : Failure} (h : Raises lookup cause) :
      ComesOf lookup (.wrap identity cause)
  | nested (identity : Text) {cause : Failure} (h : ComesOf lookup cause) :
      ComesOf lookup (.wrap identity cause)

theorem isOwn_of_prepare {workingDirectory : Path} {rules : RegionRules} {markup path : Text}
    {failure : Failure} (h : prepare workingDirectory rules markup path = .error failure) :
    IsOwn failure := by
  cases hparse : Html.Document.parse markup with
  | error e =>
    cases (prepare_of_malformed hparse).symm.trans h
    trivial
  | ok d =>
    cases hregions : Region.ofDocument rules d with
    | error e =>
      cases (prepare_of_misuse hparse hregions).symm.trans h
      trivial
    | ok regions =>
      obtain ⟨tag, htag, -⟩ := Region.exists_resourceTag hregions
      obtain ⟨reference, -, hfault⟩ :=
        ((prepare_eq_error _ hparse hregions htag failure).1 h).exists_mem
      cases hfault <;> trivial

theorem isOwn_of_find? {lookup : Lookup σ} {type : Text} {failure : Failure}
    (h : lookup.find? type = .error failure) : IsOwn failure := by
  cases lookup with
  | registry load registry =>
    rw [Lookup.find?] at h
    cases hfind : registry.find? load type with
    | error e =>
      rw [hfind] at h
      cases h
      trivial
    | ok found =>
      rw [hfind] at h
      cases h
  | exact table =>
    rw [Lookup.find?] at h
    split at h <;> cases h
    trivial

theorem isOwn_of_instantiate {env : Environment σ} {lookup : Lookup σ}
    {compiler : CompilerClass σ} {failure : Failure}
    (h : instantiate env lookup compiler = .error failure) : IsOwn failure := by
  cases compiler <;> cases h <;> trivial

theorem failsOnly_handlerFor (env : Environment σ) (lookup : Lookup σ) (type identity : Text) :
    FailsOnly IsOwn (handlerFor env lookup type identity) := by
  refine (failsOnly_ofExcept fun e he => isOwn_of_find? he).bind fun _ found _ _ => ?_
  cases found with
  | some compiler => exact (failsOnly_ofExcept fun e he => isOwn_of_instantiate he).map some
  | none => exact (failsOnly_log _ _ _).bind fun _ _ _ _ => failsOnly_pure none

-- ---------------------------------------------------------------------------
-- Handlers
-- ---------------------------------------------------------------------------

/-- Whether a compiler is had by a look-up: it is a registered delegate, or a page compiler that finds
its own delegates by the same look-up. -/
def Handler.ComesFrom (lookup : Lookup σ) : Handler σ → Prop
  | .page _ compiler => compiler.lookup = lookup
  | .delegate d => ∃ type, lookup.find? type = .ok (some (.delegate d))
  | .foreign _ => True

theorem comesFrom_of_instantiate {env : Environment σ} {lookup : Lookup σ} {type : Text}
    {compiler : CompilerClass σ} {h : Handler σ} (hfind : lookup.find? type = .ok (some compiler))
    (hmake : instantiate env lookup compiler = .ok h) : h.ComesFrom lookup := by
  cases compiler with
  | html name =>
    cases hmake
    rfl
  | delegate d =>
    cases hmake
    exact ⟨type, hfind⟩
  | abstract name objection => cases hmake
  | foreign name =>
    cases hmake
    trivial
  | module name => cases hmake

theorem comesFrom_of_yields {env : Environment σ} {lookup : Lookup σ} {type identity : Text}
    {h : Handler σ} {s s' : Session σ}
    (hfound : (handlerFor env lookup type identity).Yields s (some h) s') : h.ComesFrom lookup := by
  rcases yields_handlerFor hfound with ⟨-, hnone, -⟩ | ⟨compiler, _, hfind, hmake, hsome, -⟩
  · cases hnone
  · cases hsome
    exact comesFrom_of_instantiate hfind hmake

/-- Whether a failure is one of a delegate, or of a compilation inside. -/
def ComesInside (lookup : Lookup σ) (cause : Failure) : Prop :=
  Raises lookup cause ∨ ComesOf lookup cause

theorem comesInside_accepts {lookup : Lookup σ} {h : Handler σ} (hcomes : h.ComesFrom lookup)
    (identity : Text) : FailsOnly (ComesInside lookup) (h.accepts identity) := by
  cases h with
  | page name compiler => exact failsOnly_pure _
  | delegate d =>
    obtain ⟨type, hfind⟩ := hcomes
    exact fun s cause s' hrun => .inl ⟨type, d, hfind, s, s', .inl ⟨identity, hrun⟩⟩
  | foreign name => exact failsOnly_throw (.inr (.own trivial))

theorem comesInside_make {lookup : Lookup σ} {nested : PageCompiler σ → Build σ Output}
    (hnested : ∀ c, c.lookup = lookup → FailsOnly (ComesOf lookup) (nested c)) {h : Handler σ}
    (hcomes : h.ComesFrom lookup) (content identity : Text) :
    FailsOnly (ComesInside lookup) (h.make nested content identity) := by
  cases h with
  | page name compiler => exact (hnested compiler hcomes).mono fun _ => .inr
  | delegate d =>
    obtain ⟨type, hfind⟩ := hcomes
    exact fun s cause s' hrun => .inl ⟨type, d, hfind, s, s', .inr ⟨content, identity, hrun⟩⟩
  | foreign name => exact failsOnly_throw (.inr (.own trivial))

/-- A region is asked for, and then made. -/
theorem failsOnly_steps {P : Failure → Prop} {accepts : Build σ Bool} {make : Build σ Output}
    (haccepts : FailsOnly P accepts) (hmake : FailsOnly P make) (h : Handler σ) (identity : Text) :
    FailsOnly P (do
      let accepted ← accepts
      if !accepted then
        logDeclined h identity
        return none
      some <$> make) := by
  refine haccepts.bind fun _ accepted _ _ => ?_
  cases accepted with
  | false => exact (failsOnly_log _ _ _).bind fun _ _ _ _ => failsOnly_pure none
  | true => exact hmake.map some

theorem comesInside_handle {lookup : Lookup σ} {nested : PageCompiler σ → Build σ Output}
    (hnested : ∀ c, c.lookup = lookup → FailsOnly (ComesOf lookup) (nested c)) {h : Handler σ}
    (hcomes : h.ComesFrom lookup) (content identity : Text) :
    FailsOnly (ComesInside lookup) (handle nested h content identity) := by
  rw [handle_eq]
  exact failsOnly_steps (comesInside_accepts hcomes identity)
    (comesInside_make hnested hcomes content identity) h identity

/-- Once it is known whether a compiler takes a region, both forms go on alike. -/
theorem run_afterAccepts {make' : Suspension σ Output} {make : Build σ Output}
    (hmake : make'.run = make) (h : Handler σ) (identity : Text) (accepted : Bool) :
    (if !accepted then do
        .inPassing (logDeclined h identity)
        return none
      else some <$> make' : Suspension σ (Option Output)).run =
      (if !accepted then do
        logDeclined h identity
        return none
      else some <$> make) := by
  cases accepted with
  | false => exact Suspension.run_bind (.inPassing (logDeclined h identity)) fun _ => pure none
  | true => exact hmake ▸ Suspension.run_map make' some

theorem comesInside_handleSuspended {lookup : Lookup σ}
    {nested : PageCompiler σ → Suspension σ Output}
    (hnested : ∀ c, c.lookup = lookup → FailsOnly (ComesOf lookup) (nested c).run) {h : Handler σ}
    (hcomes : h.ComesFrom lookup) (content identity : Text) :
    FailsOnly (ComesInside lookup) (handleSuspended nested h content identity).run := by
  have hsteps {accepts' : Suspension σ Bool} {make' : Suspension σ Output}
      (haccepts : FailsOnly (ComesInside lookup) accepts'.run)
      (hmake : FailsOnly (ComesInside lookup) make'.run) :
      FailsOnly (ComesInside lookup) (do
        let accepted ← accepts'
        if !accepted then
          .inPassing (logDeclined h identity)
          return none
        some <$> make' : Suspension σ (Option Output)).run := by
    rw [Suspension.run_bind]
    simp only [run_afterAccepts rfl]
    exact failsOnly_steps haccepts hmake h identity
  have hmake := comesInside_make (fun c hc => hnested c hc) hcomes content identity
  have haccepts := comesInside_accepts hcomes identity
  cases h with
  | page name compiler => exact hsteps haccepts hmake
  | delegate d => exact hsteps haccepts hmake
  | foreign name => exact failsOnly_throw (.inr (.own trivial))

-- ---------------------------------------------------------------------------
-- Regions
-- ---------------------------------------------------------------------------

section Compilation

variable {env : Environment σ} {c : PageCompiler σ} {markup path : Text}

/-- Compiling a region, where `handling` is what its compiler is asked to do. -/
def regionWith (env : Environment σ) (c : PageCompiler σ) (path : Text)
    (handling : CodeRegion → Handler σ → Text → Build σ (Option Output)) (d : Html.Document)
    (r : CodeRegion) : Build σ Html.Document := do
  let type ← ofExcept .misuse r.typeText
  let identity := Mime.identity path r.ordinal type
  match ← handlerFor env c.lookup type identity with
  | none => return d
  | some h =>
    let made ← mapFailure (Failure.wrap identity) (handling r h identity)
    match made with
    | none => return d
    | some made => replaceBody c.rules d r identity made

/-- Compiling a page, where `handling` is what the compilers of its regions are asked to do. -/
def pageWith (env : Environment σ) (c : PageCompiler σ)
    (handling : CodeRegion → Handler σ → Text → Build σ (Option Output)) (markup path : Text) :
    Build σ Output := do
  let page ← ofExcept id (prepare env.workingDirectory c.rules markup path)
  (page.regions.filter (·.mimeType.isNone)).forM (logUntyped · path)
  let d ← (page.regions.filter (·.mimeType.isSome)).foldlM (regionWith env c path handling)
    page.document
  finish d path

theorem compile_eq_pageWith (env : Environment σ) (c : PageCompiler σ) (markup path : Text) :
    compile env c markup path = pageWith env c (fun r h identity =>
      handle (compile env · r.content identity) h r.content identity) markup path :=
  compile_eq env c markup path

theorem run_compileRegionSuspended_eq (nested : PageCompiler σ → Text → Suspension σ Output)
    (d : Html.Document) (r : CodeRegion) :
    (compileRegionSuspended env c path nested d r).run = regionWith env c path
      (fun r h identity => (handleSuspended (nested · identity) h r.content identity).run) d r := by
  refine (Suspension.run_bind _ _).trans (congrArg _ (funext fun type => ?_))
  refine (Suspension.run_bind _ _).trans (congrArg _ (funext fun found => ?_))
  cases found with
  | none => rfl
  | some h =>
    refine (Suspension.run_bind _ _).trans ?_
    rw [Suspension.run_mapFailure]
    refine congrArg _ (funext fun made => ?_)
    cases made <;> rfl

theorem run_compileSuspended_eq (env : Environment σ) (c : PageCompiler σ) (markup path : Text) :
    (compileSuspended env c markup path).run = pageWith env c (fun r h identity =>
      (handleSuspended (compileSuspended env · r.content identity) h r.content identity).run)
      markup path := by
  rw [compileSuspended, Suspension.run_bind, Suspension.run_inPassing]
  refine congrArg _ (funext fun page => ?_)
  rw [Suspension.run_bind, Suspension.run_inPassing]
  refine congrArg _ (funext fun _ => ?_)
  rw [Suspension.run_bind, Suspension.run_foldlM]
  simp only [Suspension.run_inPassing, run_compileRegionSuspended_eq]
  refine congrArg (· >>= _) (Eq.trans ?_ (foldlM_attach _ _ _))
  rfl

variable {handling : CodeRegion → Handler σ → Text → Build σ (Option Output)}

/-- The document of a region that was compiled is the one before, or that one with a new body. -/
theorem replaced_of_yields {page : Prepared markup} {d d' : Html.Document} (hd : Replaced page d)
    {r : CodeRegion} (hr : r ∈ page.regions) {s s' : Session σ}
    (h : (regionWith env c path handling d r).Yields s d' s') : Replaced page d' := by
  obtain ⟨type, s₁, -, h⟩ := yields_bind.1 h
  obtain ⟨found, s₂, -, h⟩ := yields_bind.1 h
  cases found with
  | none => exact (yields_pure.1 h).1 ▸ hd
  | some handler =>
    obtain ⟨made, s₃, -, h⟩ := yields_bind.1 h
    cases made with
    | none => exact (yields_pure.1 h).1 ▸ hd
    | some made => exact .replace hd hr (yields_replaceBody h).2.1

theorem comesOf_regionWith {page : Prepared markup}
    (hprepare : prepare env.workingDirectory c.rules markup path = .ok page) {d : Html.Document}
    (hd : Replaced page d) {r : CodeRegion} (hr : r ∈ page.regions)
    (hhandling : ∀ h : Handler σ, h.ComesFrom c.lookup → ∀ identity,
      FailsOnly (ComesInside c.lookup) (handling r h identity)) :
    FailsOnly (ComesOf c.lookup) (regionWith env c path handling d r) := by
  refine (failsOnly_ofExcept fun e _ => .own trivial).bind fun _ type _ _ => ?_
  refine ((failsOnly_handlerFor _ _ _ _).mono fun _ => .own).bind fun _ found _ hfound => ?_
  cases found with
  | none => exact failsOnly_pure d
  | some h =>
    have hcomes := comesFrom_of_yields hfound
    refine (FailsOnly.mapFailure ((hhandling h hcomes _).mono fun cause hcause => ?_)).bind
      fun _ made _ _ => ?_
    · exact hcause.elim (.raised _) (.nested _)
    · cases made with
      | none => exact failsOnly_pure d
      | some made =>
        refine (failsOnly_ofExcept fun e _ => .own trivial).bind fun _ _ _ _ => ?_
        refine (failsOnly_ofExcept fun e he => ?_).bind fun _ d' _ _ => ?_
        · obtain ⟨d', hset, -⟩ := hd.exists_setBody hprepare hr
            (bodyFor c.rules r (Mime.identity path r.ordinal type) made)
          cases hset.symm.trans he
        · exact (failsOnly_log _ _ _).bind fun _ _ _ _ => failsOnly_pure d'

-- ---------------------------------------------------------------------------
-- Whole compilations
-- ---------------------------------------------------------------------------

theorem comesOf_pageWith (hhandling : ∀ r : CodeRegion, r.content.length < markup.length →
      ∀ h : Handler σ, h.ComesFrom c.lookup → ∀ identity,
        FailsOnly (ComesInside c.lookup) (handling r h identity)) :
    FailsOnly (ComesOf c.lookup) (pageWith env c handling markup path) := by
  refine (failsOnly_ofExcept fun e he => .own (isOwn_of_prepare he)).bind fun _ page _ hpage => ?_
  obtain ⟨hprepare, -⟩ := yields_ofExcept.1 hpage
  refine (failsOnly_forM (fun r => failsOnly_log _ _ _) _).bind fun _ _ _ _ => ?_
  refine (failsOnly_foldlM_of_keeps (fun d hd r hr => ?_) (fun d hd r hr s d' s' hyields => ?_)
    Replaced.prepared).bind fun _ d _ _ => ?_
  · have hmem := (List.mem_filter.1 hr).1
    exact comesOf_regionWith hprepare hd hmem (hhandling r (page.length_content_lt r hmem))
  · exact replaced_of_yields hd (List.mem_filter.1 hr).1 hyields
  · unfold finish
    split
    · exact (failsOnly_log _ _ _).bind fun _ _ _ _ => failsOnly_pure _
    · exact failsOnly_pure _

/-- A compilation fails by itself, or because a delegate does. -/
theorem comesOf_compile (markup path : Text) :
    FailsOnly (ComesOf c.lookup) (compile env c markup path) := by
  -- A region that is a page of its own has the same look-up, and other rules, so `c` varies.
  induction hn : markup.length using Nat.strongRecOn generalizing c markup path with
  | ind n ih =>
    subst hn
    rw [compile_eq_pageWith]
    refine comesOf_pageWith fun r hshorter h hcomes identity => comesInside_handle ?_ hcomes _ _
    exact fun c' hc' => hc' ▸ ih _ hshorter r.content identity rfl

theorem comesOf_compileSuspended (markup path : Text) :
    FailsOnly (ComesOf c.lookup) (compileSuspended env c markup path).run := by
  induction hn : markup.length using Nat.strongRecOn generalizing c markup path with
  | ind n ih =>
    subst hn
    rw [run_compileSuspended_eq]
    refine comesOf_pageWith fun r hshorter h hcomes identity =>
      comesInside_handleSuspended ?_ hcomes _ _
    exact fun c' hc' => hc' ▸ ih _ hshorter r.content identity rfl

end Compilation

-- ---------------------------------------------------------------------------
-- Bodies
-- ---------------------------------------------------------------------------

/-- Whether a failure is, behind the regions that it names, that of a body that cannot be replaced. -/
def IsOfBody : Failure → Prop
  | .body _ => True
  | .delegate _ cause => IsOfBody cause
  | _ => False

theorem ComesOf.ne_body {lookup : Lookup σ} {failure : Failure} (h : ComesOf lookup failure)
    (error : Html.Document.BodyError) : failure ≠ .body error := by
  have hwrap (identity : Text) (cause : Failure) : Failure.wrap identity cause ≠ .body error := by
    cases cause <;> nofun
  cases h with
  | own h =>
    rintro rfl
    exact h
  | raised identity h => exact hwrap identity _
  | nested identity h => exact hwrap identity _

theorem isOfBody_of_wrap {identity : Text} {cause : Failure}
    (h : IsOfBody (.wrap identity cause)) : IsOfBody cause := by
  cases cause <;> exact h

/-- Where no delegate fails for a body, no compilation does, however deep. -/
theorem ComesOf.not_isOfBody {lookup : Lookup σ}
    (hraises : ∀ cause, Raises lookup cause → ¬ IsOfBody cause) {failure : Failure}
    (h : ComesOf lookup failure) : ¬ IsOfBody failure := by
  induction h with
  | @own failure h => cases failure <;> first | exact id | exact h.elim
  | raised identity h => exact fun hbody => hraises _ h (isOfBody_of_wrap hbody)
  | nested identity h ih => exact fun hbody => ih (isOfBody_of_wrap hbody)

/-- The scripts and styles of every document are closed, without elements and end tags inside. At every
point of a compilation each region takes every body, and so no compilation fails for a body: neither
the one of the page, whatever its rules, its look-up and its delegates do, nor one inside of it. -/
theorem bodies_replaceable :
    (∀ (markup : Text) (d : Html.Document), Html.Document.parse markup = .ok d →
      ∀ e ∈ d.elements, ∀ raw, Html.RawElement.ofName? e.tag = some raw →
        e.isClosed = true ∧ e.hasChildren = false ∧ ¬ Html.HoldsEndTag raw.name (d.text e)) ∧
    (∀ (workingDirectory : Path) (rules : RegionRules) (markup path : Text) (page : Prepared markup),
      prepare workingDirectory rules markup path = .ok page →
      ∀ d, Replaced page d → ∀ r ∈ page.regions, ∀ body, ∃ d', d.setBody r.element body = .ok d') ∧
    ∀ (env : Environment σ) (c : PageCompiler σ) (source : Html.Source) (path : Text),
      let blocking := compileSource env c source path
      let suspended := (compileSourceSuspended env c source path).run
      (FailsOnly (∀ error, · ≠ .body error) blocking ∧
        FailsOnly (∀ error, · ≠ .body error) suspended) ∧
      ((∀ cause, Raises c.lookup cause → ¬ IsOfBody cause) →
        FailsOnly (¬ IsOfBody ·) blocking ∧ FailsOnly (¬ IsOfBody ·) suspended) := by
  refine ⟨fun _ d h e he raw hraw => Html.Document.closed_of_raw h he hraw, ?_, ?_⟩
  · intro workingDirectory rules markup path page hprepare d hd r hr body
    obtain ⟨d', hset, -⟩ := hd.exists_setBody hprepare hr body
    exact ⟨d', hset⟩
  · intro env c source path blocking suspended
    have hblocking : FailsOnly (ComesOf c.lookup) blocking := by
      cases source with
      | text markup => exact comesOf_compile markup path
      | other kind => exact failsOnly_throw (.own trivial)
    have hsuspended : FailsOnly (ComesOf c.lookup) suspended := by
      cases source with
      | text markup => exact comesOf_compileSuspended markup path
      | other kind => exact failsOnly_throw (.own trivial)
    refine ⟨⟨hblocking.mono fun _ => ComesOf.ne_body, hsuspended.mono fun _ => ComesOf.ne_body⟩, ?_⟩
    exact fun hraises => ⟨hblocking.mono fun _ => ComesOf.not_isOfBody hraises,
      hsuspended.mono fun _ => ComesOf.not_isOfBody hraises⟩

/-- A resource tag that is the name of scripts, a script that closes itself, and a letter outside ASCII
in what looks like the end of a style. -/
theorem bodies_replaceable_look_alike :
    let env : Environment Unit := ⟨⟨.root, []⟩, []⟩
    let c : PageCompiler Unit := ⟨.exact [("text/css".toList, .compiler (.delegate (.passthrough Unit)))],
      { resourceTag := .fit "script".toList }⟩
    let markup := "<SCRIPT src=a.js /><style type=text/css>a</\u017Ftyle ></ STYLE >".toList
    let blocking := compileSource env c (.text markup) "/p/a.html".toList
    (∃ d e, Html.Document.parse markup = .ok d ∧ d.elements[1]? = some e ∧
      ¬ Html.HoldsEndTag "style".toList (d.text e) ∧ d.text e = "a</\u017Ftyle >".toList) ∧
    (∀ cause, Raises c.lookup cause → ¬ IsOfBody cause) ∧ FailsOnly (¬ IsOfBody ·) blocking ∧
      (blocking.run.run ⟨(), []⟩).1.toOption.isSome = true := by
  intro env c markup blocking
  obtain ⟨hparsed, -, hcompiled⟩ := @bodies_replaceable Unit
  have hread : (Html.Document.parse markup).toOption.bind (fun d =>
      d.elements[1]?.map fun e => (e.tag, d.text e)) =
        some ("style".toList, "a</\u017Ftyle >".toList) := by decide +kernel
  obtain ⟨d, hd, hfound⟩ := Option.bind_eq_some_iff.1 hread
  obtain ⟨e, he, htext⟩ := Option.map_eq_some_iff.1 hfound
  obtain ⟨htag, htext⟩ := Prod.mk.inj htext
  have hparse := Html.eq_ok_of_toOption hd
  have hbare := hparsed markup d hparse e (List.mem_of_getElem? he) .style (htag ▸ rfl)
  have hraises : ∀ cause, Raises c.lookup cause → ¬ IsOfBody cause := by
    rintro cause ⟨type, d, hfind, s, s', hfails⟩
    rw [Lookup.find?] at hfind
    split at hfind <;> cases hfind
    rename_i hentry
    obtain ⟨before, after, htable, -⟩ := List.lookup_eq_some_iff.1 hentry
    have hmem : (type, Entry.compiler (.delegate d)) ∈ before ++
        (type, Entry.compiler (.delegate d)) :: after :=
      List.mem_append_right before List.mem_cons_self
    rw [← htable, List.mem_singleton] at hmem
    cases hmem
    rcases hfails with ⟨_, ⟨⟩⟩ | ⟨_, _, ⟨⟩⟩
  exact ⟨⟨d, e, hparse, he, hbare.2.2, htext⟩, hraises,
    ((hcompiled env c (.text markup) "/p/a.html".toList).2 hraises).1, by decide +kernel⟩

end PageSplice.Page
