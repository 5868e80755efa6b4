-- SUMMARY: What counts as a region: pages that are read alike under two sets of rules are compiled alike.
import PageSplice.Proofs.Page.Frame
import PageSplice.Proofs.Page.Inner

/-!
# Pages that are read alike

The rules for regions say which elements are regions, by which types they are
compiled, and which new bodies are long enough for a source map. Two sets of
rules that come to the same on a page compile it to the same. The rules of the
moment count for pages inside of a page only: a page compiler that is made for
one of them takes them over.
-/

namespace PageSplice

-- ---------------------------------------------------------------------------
-- Resolved regions
-- ---------------------------------------------------------------------------

/-- A code region with the type by which it is compiled as the default. -/
def CodeRegion.resolved (r : CodeRegion) : CodeRegion :=
  { r with declaredType := none, defaultType := r.mimeType }

def Region.resolved : Region → Region
  | .code r => .code r.resolved
  | .resource r => .resource r

/-- Whether markup has the same regions under two sets of rules, compiled by the same types, and the
same bodies are too short for one of them to be compiled. Where a type comes from is all one. -/
def RegionRules.ReadAlike (rules rules' : RegionRules) (markup : Text) : Prop :=
  ∀ d, Html.Document.parse markup = .ok d →
    (Region.ofDocument rules d).map (List.map Region.resolved) =
      (Region.ofDocument rules' d).map (List.map Region.resolved) ∧
    ∀ regions r, Region.ofDocument rules d = .ok regions → .code r ∈ regions →
      r.mimeType.isSome = true → rules.isBelow = rules'.isBelow

theorem RegionRules.ReadAlike.refl (rules : RegionRules) (markup : Text) :
    rules.ReadAlike rules markup := fun _ _ => ⟨rfl, fun _ _ _ _ _ => rfl⟩

namespace Page

open Build

variable {σ : Type}

theorem codeRegions_resolved (regions : List Region) :
    codeRegions (regions.map Region.resolved) = (codeRegions regions).map CodeRegion.resolved := by
  unfold codeRegions
  rw [List.filterMap_map, List.map_filterMap]
  refine List.filterMap_congr fun region _ => ?_
  cases region <;> rfl

theorem resourceRegions_resolved (regions : List Region) :
    resourceRegions (regions.map Region.resolved) = resourceRegions regions := by
  unfold resourceRegions
  rw [List.filterMap_map]
  refine List.filterMap_congr fun region _ => ?_
  cases region <;> rfl

-- ---------------------------------------------------------------------------
-- Preparation
-- ---------------------------------------------------------------------------

/-- Preparing a page whose regions are found fails as the references of its resources do. -/
theorem map_prepare (workingDirectory : Path) (path : Text) {rules : RegionRules} {markup : Text}
    {d : Html.Document} {regions : List Region} (hparse : Html.Document.parse markup = .ok d)
    (hregions : Region.ofDocument rules d = .ok regions) :
    (prepare workingDirectory rules markup path).map (fun page => (page.document, page.regions)) =
      ((resourceRegions regions).foldlM
        (canonicalize (Path.directoryOf workingDirectory path) path) d).map fun anchored =>
          (secureLinks anchored, codeRegions regions) := by
  unfold prepare
  split
  · rename_i hfails
    cases hparse.symm.trans hfails
  · rename_i hok
    cases hparse.symm.trans hok
    split
    · rename_i hfails
      cases hregions.symm.trans hfails
    · rename_i hok
      cases hregions.symm.trans hok
      dsimp only
      cases (resourceRegions regions).foldlM
        (canonicalize (Path.directoryOf workingDirectory path) path) d <;> rfl

/-- Two results that are the same but for what is made of them are both failures or both not. -/
theorem cases_of_map_eq {ε α β γ : Type} {x : Except ε α} {y : Except ε β} {f : α → γ} {g : β → γ}
    (h : x.map f = y.map g) :
    (∃ e, x = .error e ∧ y = .error e) ∨ ∃ a b, x = .ok a ∧ y = .ok b ∧ f a = g b := by
  cases x with
  | error e =>
    cases y with
    | error e' => exact .inl ⟨e, rfl, congrArg Except.error (Except.error.inj h).symm⟩
    | ok b => cases h
  | ok a =>
    cases y with
    | error e => cases h
    | ok b => exact .inr ⟨a, b, rfl, rfl, Except.ok.inj h⟩

/-- A page that is read alike is prepared alike. -/
theorem prepare_alike {rules rules' : RegionRules} {markup : Text}
    (h : rules.ReadAlike rules' markup) (workingDirectory : Path) (path : Text) :
    (∃ failure, prepare workingDirectory rules markup path = .error failure ∧
      prepare workingDirectory rules' markup path = .error failure) ∨
    ∃ page page', prepare workingDirectory rules markup path = .ok page ∧
      prepare workingDirectory rules' markup path = .ok page' ∧ page.document = page'.document ∧
      page.regions.map CodeRegion.resolved = page'.regions.map CodeRegion.resolved := by
  cases hparse : Html.Document.parse markup with
  | error e => exact .inl ⟨_, prepare_of_malformed hparse, prepare_of_malformed hparse⟩
  | ok d =>
    obtain ⟨e, hregions, hregions'⟩ | ⟨regions, regions', hregions, hregions', halike⟩ :=
      cases_of_map_eq (h d hparse).1
    · exact .inl ⟨_, prepare_of_misuse hparse hregions, prepare_of_misuse hparse hregions'⟩
    · have hresources : resourceRegions regions = resourceRegions regions' := by
        rw [← resourceRegions_resolved, halike, resourceRegions_resolved]
      have hcodes : (codeRegions regions).map CodeRegion.resolved =
          (codeRegions regions').map CodeRegion.resolved := by
        rw [← codeRegions_resolved, halike, codeRegions_resolved]
      have hpage := map_prepare workingDirectory path hparse hregions
      have hpage' := map_prepare workingDirectory path hparse hregions'
      rw [← hresources] at hpage'
      obtain ⟨failure, hfails, hfold⟩ | ⟨page, anchored, hok, hfold, heq⟩ := cases_of_map_eq hpage
      · obtain ⟨failure', hfails', hfold'⟩ | ⟨page', _, -, hfold', -⟩ := cases_of_map_eq hpage'
        · cases hfold.symm.trans hfold'
          exact .inl ⟨failure, hfails, hfails'⟩
        · cases hfold.symm.trans hfold'
      · obtain ⟨failure', -, hfold'⟩ | ⟨page', anchored', hok', hfold', heq'⟩ := cases_of_map_eq hpage'
        · cases hfold.symm.trans hfold'
        · cases hfold.symm.trans hfold'
          obtain ⟨hdocument, hregions⟩ := Prod.mk.inj heq
          obtain ⟨hdocument', hregions'⟩ := Prod.mk.inj heq'
          refine .inr ⟨page, page', hok, hok', hdocument.trans hdocument'.symm, ?_⟩
          rw [hregions, hregions', hcodes]

-- ---------------------------------------------------------------------------
-- Regions
-- ---------------------------------------------------------------------------

/-- A region is compiled alike where the same compiler is found for it, where its bodies are too short
alike, and where it comes to the same as a page, if it is compiled as one. -/
theorem compileRegion_congr {env env' : Environment σ} {lookup lookup' : Lookup σ}
    {rules rules' : RegionRules} {path : Text}
    {nested nested' : PageCompiler σ → Text → Build σ Output} {r : CodeRegion}
    (hsame : ∀ type, lookup.find? type = lookup'.find? type) (hbelow : rules.isBelow = rules'.isBelow)
    (hnested : ∀ type name, r.typeText = .ok type → lookup.find? type = .ok (some (.html name)) →
      Mime.isHtmlPath (identityOf path r) = true →
      nested (.withLookup env.settings lookup) (identityOf path r) =
        nested' (.withLookup env'.settings lookup') (identityOf path r)) (d : Html.Document) :
    compileRegion env ⟨lookup, rules⟩ path nested d r =
      compileRegion env' ⟨lookup', rules'⟩ path nested' d r := by
  have hreplace : replaceBody (σ := σ) rules = replaceBody rules' := by
    funext d r identity made
    simp only [replaceBody, checkMap, splice, bodyFor, hbelow]
  unfold compileRegion handlerFor
  rw [hreplace]
  cases htype : r.typeText with
  | error misuse => rfl
  | ok type =>
    simp only [ofExcept_ok_bind, ← hsame]
    cases hfind : lookup.find? type with
    | error failure => rfl
    | ok compiler? =>
      simp only [ofExcept_ok_bind]
      cases compiler? with
      | none => rfl
      | some compiler =>
        cases compiler with
        | html name =>
          have hnested := hnested type name htype hfind
          rw [identityOf_eq htype] at hnested
          have hhandle : handle (nested · (Mime.identity path r.ordinal type))
                (.page name (.withLookup env.settings lookup)) r.content
                (Mime.identity path r.ordinal type) =
              handle (nested' · (Mime.identity path r.ordinal type))
                (.page name (.withLookup env'.settings lookup')) r.content
                (Mime.identity path r.ordinal type) := by
            cases haccepts : Mime.isHtmlPath (Mime.identity path r.ordinal type) with
            | false => simp only [handle, haccepts, pure_bind]; rfl
            | true => simp only [handle, haccepts, pure_bind, hnested haccepts]; rfl
          simp only [instantiate, Build.ofExcept, map_pure, pure_bind, hhandle]
        | _ => rfl

-- ---------------------------------------------------------------------------
-- Pages
-- ---------------------------------------------------------------------------

section Alike

variable {regions regions' : List CodeRegion}
  (h : regions.map CodeRegion.resolved = regions'.map CodeRegion.resolved)
  (p : Option (Configured Text) → Bool)

include h

theorem filter_alike : (regions.filter fun r => p r.mimeType).map CodeRegion.resolved =
    (regions'.filter fun r => p r.mimeType).map CodeRegion.resolved := by
  have hfilter (l : List CodeRegion) : ((l.map CodeRegion.resolved).filter fun r => p r.mimeType) =
      (l.filter fun r => p r.mimeType).map CodeRegion.resolved := List.filter_map
  rw [← hfilter, h, hfilter]

theorem forM_alike {f : CodeRegion → Build σ Unit} (hf : ∀ r, f r.resolved = f r) :
    (regions.filter fun r => p r.mimeType).forM f = (regions'.filter fun r => p r.mimeType).forM f := by
  have hforM (l : List CodeRegion) : l.forM f = (l.map CodeRegion.resolved).forM f := by
    rw [List.forM_eq_forM, List.forM_map]
    exact congrArg (forM l) (funext fun r => (hf r).symm)
  rw [hforM, hforM (regions'.filter _), filter_alike h]

theorem foldlM_alike {f : Html.Document → CodeRegion → Build σ Html.Document}
    (hf : ∀ d r, f d r.resolved = f d r) (d : Html.Document) :
    (regions.filter fun r => p r.mimeType).foldlM f d =
      (regions'.filter fun r => p r.mimeType).foldlM f d := by
  have hfold (l : List CodeRegion) : l.foldlM f d = (l.map CodeRegion.resolved).foldlM f d := by
    rw [List.foldlM_map]
    exact foldlM_congr (fun d r _ => (hf d r).symm) d
  rw [hfold, hfold (regions'.filter _), filter_alike h]

end Alike

/-- A page comes to the same under two sets of rules that read it alike, in environments whose own
rules read the pages inside of it alike. Nothing else in the settings matters. -/
theorem compile_congr_of_readAlike {env env' : Environment σ} {lookup : Lookup σ}
    (hdirectory : env.workingDirectory = env'.workingDirectory) (outer : Sheet) {rules' : RegionRules}
    (hself : outer.rules.ReadAlike rules' outer.markup)
    (hinside : ∀ inner page, Sheet.Holds lookup env.settings.rules outer inner →
      Sheet.Within lookup env.settings.rules inner page →
      env.settings.rules.ReadAlike env'.settings.rules page.markup) :
    compile env ⟨lookup, outer.rules⟩ outer.markup outer.path =
      compile env' ⟨lookup, rules'⟩ outer.markup outer.path := by
  induction hn : outer.markup.length using Nat.strongRecOn generalizing outer rules' with
  | ind n ih =>
    subst hn
    rw [compile_eq, compile_eq, ← hdirectory]
    obtain ⟨failure, hfails, hfails'⟩ | ⟨page, page', hprepare, hprepare', hdocument, hregions⟩ :=
      prepare_alike hself env.workingDirectory outer.path
    · rw [hfails, hfails', ofExcept_error_bind, ofExcept_error_bind]
    · rw [hprepare, hprepare', ofExcept_ok_bind, ofExcept_ok_bind, ← hdocument]
      -- A region is noted and compiled by its type, wherever it has the type from.
      rw [forM_alike hregions Option.isNone fun _ => rfl]
      refine congrArg _ (funext fun _ => congrArg (· >>= _) ?_)
      rw [← foldlM_alike hregions Option.isSome fun _ _ => rfl]
      refine foldlM_congr (fun _ r hr => ?_) _
      obtain ⟨hr, hsome⟩ := List.mem_filter.1 hr
      obtain ⟨d, regions, hparse, hfound, hcode, -⟩ := prepare_eq_ok hprepare
      have hr : .code r ∈ regions := mem_codeRegions.1 (hcode ▸ hr)
      refine compileRegion_congr (fun _ => rfl) ((hself d hparse).2 regions r hfound hr hsome) ?_ _
      intro type name htype hfind hpage
      have hholds : Sheet.Holds lookup env.settings.rules outer
          ⟨env.settings.rules, r.content, identityOf outer.path r⟩ :=
        ⟨d, regions, r, type, name, hparse, hfound, hr, hsome, htype, hfind, hpage, rfl⟩
      refine ih _ hholds.length_lt _ (hinside _ _ hholds .refl) (fun inner page h hwithin => ?_) rfl
      exact hinside _ _ hholds (.head h hwithin)

/-- Of what is around it, a compilation sees only the working directory and what counts as a region
in pages inside of pages. -/
theorem compile_congr {env env' : Environment σ} {c : PageCompiler σ}
    (hdirectory : env.workingDirectory = env'.workingDirectory)
    (hrules : env.settings.rules = env'.settings.rules) (markup path : Text) :
    compile env c markup path = compile env' c markup path := by
  refine compile_congr_of_readAlike hdirectory ⟨c.rules, markup, path⟩ (.refl _ _) ?_
  intro inner page _ _
  rw [hrules]
  exact .refl _ _

-- ---------------------------------------------------------------------------
-- Look-ups
-- ---------------------------------------------------------------------------

/-- Of a way of finding compilers, a compilation sees only what it finds. -/
theorem compile_congr_of_find?_eq {lookup lookup' : Lookup σ}
    (hsame : ∀ type, lookup.find? type = lookup'.find? type) (env : Environment σ)
    (rules : RegionRules) (markup path : Text) :
    compile env ⟨lookup, rules⟩ markup path = compile env ⟨lookup', rules⟩ markup path := by
  induction hn : markup.length using Nat.strongRecOn generalizing rules markup path with
  | ind n ih =>
    subst hn
    rw [compile_eq, compile_eq]
    cases prepare env.workingDirectory rules markup path with
    | error failure => rw [ofExcept_error_bind, ofExcept_error_bind]
    | ok page =>
      rw [ofExcept_ok_bind, ofExcept_ok_bind]
      refine congrArg _ (funext fun _ => congrArg (· >>= _) (foldlM_congr (fun d r hr => ?_) _))
      have hlength := page.length_content_lt r (List.mem_filter.1 hr).1
      exact compileRegion_congr hsame rfl (fun _ _ _ _ _ => ih _ hlength _ _ _ rfl) d

/-- A site that registers no compilers needs two classes. What else it can import does not matter. -/
theorem compile_default_of_imports {load : Importer σ}
    (hpassthrough : load Settings.passthroughPath = .ok (.delegate (Delegate.passthrough σ)))
    (hhtml : load Settings.htmlPath = .ok Catalog.html) (env : Environment σ) (rules : RegionRules)
    (markup path : Text) :
    compile env ⟨.registry load (Settings.registry []), rules⟩ markup path =
      compile env ⟨defaultLookup σ, rules⟩ markup path := by
  refine compile_congr_of_find?_eq (fun type => ?_) env rules markup path
  rw [defaultLookup, Lookup.find?, Lookup.find?, Registry.find?, Registry.find?]
  cases hentry : (Settings.registry ([] : Settings σ)).table.lookup (Mime.normalize type) with
  | none => rfl
  | some entry =>
    rcases lookup_default hentry with rfl | rfl
    · simp only [hpassthrough, find_passthroughPath]
    · simp only [hhtml, find_htmlPath]

end Page

end PageSplice
