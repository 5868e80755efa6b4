-- SUMMARY: Pages inside of pages: how deep they go, and why the recursion into them ends.
import PageSplice.Catalog
import PageSplice.Proofs.Html.EndTags
import PageSplice.Proofs.Page.Frame
import PageSplice.Proofs.Page.Splicing

/-!
# Depth

A script or style ends at the first end tag of its own, so its text holds none.
A region inside of its text has such an end tag and is therefore of the other
kind; inside of that region there are end tags of neither kind, and so no regions.
Whatever compiler the types are given to, pages are compiled at three levels at
the most.
-/

namespace PageSplice.Page

open Build Html

-- ---------------------------------------------------------------------------
-- Regions inside of regions
-- ---------------------------------------------------------------------------

def HasRegion (rules : RegionRules) (markup content : Text) : Prop :=
  ∃ d regions r, Document.parse markup = .ok d ∧ Region.ofDocument rules d = .ok regions ∧
    .code r ∈ regions ∧ r.content = content

theorem hasRegion_of_prepare {workingDirectory : Path} {rules : RegionRules} {markup path : Text}
    {page : Prepared markup} (h : prepare workingDirectory rules markup path = .ok page)
    {r : CodeRegion} (hr : r ∈ page.regions) : HasRegion rules markup r.content := by
  obtain ⟨d, regions, hparse, hregions, hcode, -⟩ := prepare_eq_ok h
  exact ⟨d, regions, r, hparse, hregions, mem_codeRegions.1 (hcode ▸ hr), rfl⟩

theorem HasRegion.length_lt {rules : RegionRules} {markup content : Text}
    (h : HasRegion rules markup content) : content.length < markup.length := by
  obtain ⟨d, regions, r, hparse, hregions, hr, rfl⟩ := h
  exact Document.markup_of_parse hparse ▸ Region.length_content_lt hregions hr

/-- The code of a region is a part of the markup. -/
theorem content_isInfix {markup : Text} {d : Html.Document} (hparse : Document.parse markup = .ok d)
    {rules : RegionRules} {regions : List Region} (hregions : Region.ofDocument rules d = .ok regions)
    {r : CodeRegion} (hr : .code r ∈ regions) : r.content <:+: markup := by
  obtain ⟨e, -, -, hcontent, -⟩ := Region.of_mem_code hregions hr
  rw [hcontent, Document.body, Document.markup_of_parse hparse]
  split
  · exact Document.slice_isInfix _ _ _
  · exact List.nil_infix

/-- A code region stands in front of an end tag of its element and holds none. -/
theorem HasRegion.endTags {rules : RegionRules} {markup content : Text}
    (h : HasRegion rules markup content) :
    ∃ language : Language, content <:+: markup ∧ HoldsEndTag language.tag markup ∧
      ¬ HoldsEndTag language.tag content := by
  obtain ⟨d, regions, r, hparse, hregions, hr, rfl⟩ := h
  obtain ⟨e, raw, stop, he, hraw, hname, hself, hend, -⟩ := exists_of_code hparse hregions hr
  obtain ⟨e', he', -, hcontent, -⟩ := Region.of_mem_code hregions hr
  cases he.symm.trans he'
  have hmarkup := Document.markup_of_parse hparse
  refine ⟨r.language, content_isInfix hparse hregions hr, ?_, ?_⟩
  · obtain ⟨front, last, tail, hplace⟩ := Document.exists_place hparse he
    rw [← hname, ← hmarkup]
    exact (hplace.holdsEndTag hparse hraw hself).mono (List.drop_suffix _ _).isInfix
  · rw [hcontent, ← Document.text_of_parse hparse (List.mem_of_getElem? he), ← hname]
    exact Document.not_holdsEndTag_text hparse he hraw hself

/-- There are two kinds of code. -/
theorem eq_of_ne_of_ne {a b c : Language} (hab : a ≠ b) (hca : c ≠ a) : c = b := by
  cases a <;> cases b <;> cases c <;> first | rfl | contradiction

/-- A region of a region of a document has no regions, whatever counts as one. -/
theorem HasRegion.not_hasRegion {rules rules₁ rules₂ : RegionRules} {markup inner₁ inner₂ : Text}
    (h : HasRegion rules markup inner₁) (h₁ : HasRegion rules₁ inner₁ inner₂) (inner₃ : Text) :
    ¬ HasRegion rules₂ inner₂ inner₃ := by
  intro h₂
  obtain ⟨a, -, -, hbare⟩ := h.endTags
  obtain ⟨b, hinside, hends, hbare₁⟩ := h₁.endTags
  obtain ⟨c, -, hends₁, -⟩ := h₂.endTags
  have hab : a ≠ b := fun heq => hbare (heq ▸ hends)
  have hca : c ≠ a := fun heq => hbare (heq ▸ hends₁.mono hinside)
  exact hbare₁ (eq_of_ne_of_ne hab hca ▸ hends₁)

-- ---------------------------------------------------------------------------
-- Levels
-- ---------------------------------------------------------------------------

variable {σ : Type} {env : Environment σ} {c : PageCompiler σ} {markup path : Text}

/-- Compiles a document whose regions that are pages are compiled by `inner`. -/
def compileWith (env : Environment σ) (inner : PageCompiler σ → Text → Text → Build σ Output)
    (c : PageCompiler σ) (markup path : Text) : Build σ Output := do
  let page ← ofExcept id (prepare env.workingDirectory c.rules markup path)
  (page.regions.filter (·.mimeType.isNone)).forM (logUntyped · path)
  let d ← (page.regions.filter (·.mimeType.isSome)).foldlM
    (fun d r => compileRegion env c path (fun c identity => inner c r.content identity) d r)
    page.document
  finish d path

/-- Compilation is what compiles the regions inside in its own way. -/
theorem compileWith_compile (env : Environment σ) (c : PageCompiler σ) (markup path : Text) :
    compileWith env (compile env) c markup path = compile env c markup path :=
  (compile_eq env c markup path).symm

/-- Of what compiles the regions inside, only what it does with them counts. -/
theorem compileWith_congr {inner inner' : PageCompiler σ → Text → Text → Build σ Output}
    (h : ∀ page, prepare env.workingDirectory c.rules markup path = .ok page →
      ∀ r ∈ page.regions, ∀ c' identity, inner c' r.content identity = inner' c' r.content identity) :
    compileWith env inner c markup path = compileWith env inner' c markup path := by
  refine bind_congr_of_yields fun s page s' hpage => ?_
  obtain ⟨hprepare, -⟩ := yields_ofExcept.1 hpage
  refine congrArg _ (funext fun _ => congrArg (· >>= _) (foldlM_congr (fun d r hr => ?_) _))
  have hsame := h page hprepare r (List.mem_filter.1 hr).1
  simp only [hsame]

theorem compile_eq_three_levels (inner : PageCompiler σ → Text → Text → Build σ Output) :
    compile env c markup path =
      compileWith env (compileWith env (compileWith env inner)) c markup path := by
  rw [← compileWith_compile]
  refine compileWith_congr fun page hpage r₁ hr₁ c₁ identity₁ => ?_
  rw [← compileWith_compile]
  refine compileWith_congr fun page₁ hpage₁ r₂ hr₂ c₂ identity₂ => ?_
  rw [← compileWith_compile]
  refine compileWith_congr fun page₂ hpage₂ r₃ hr₃ => ?_
  have hfirst := hasRegion_of_prepare hpage hr₁
  have hsecond := hasRegion_of_prepare hpage₁ hr₂
  exact absurd (hasRegion_of_prepare hpage₂ hr₃) (hfirst.not_hasRegion hsecond r₃.content)

/-- A page inside of a page is shorter, and one inside of a page inside of a page has no regions. So a
compilation, which compiles the pages inside of a page as it compiles the page, never goes on from
the third level: whatever compiles the pages inside there, it does the same. -/
theorem compile_depth (env : Environment σ) (c : PageCompiler σ) (markup path : Text) :
    (∀ rules inner₁, HasRegion rules markup inner₁ → inner₁.length < markup.length ∧
      ∀ rules₁ inner₂, HasRegion rules₁ inner₁ inner₂ → inner₂.length < inner₁.length ∧
        ∀ rules₂ inner₃, ¬ HasRegion rules₂ inner₂ inner₃) ∧
    compile env c markup path = compileWith env (compile env) c markup path ∧
    ∀ inner, compile env c markup path =
      compileWith env (compileWith env (compileWith env inner)) c markup path := by
  refine ⟨fun rules inner₁ h => ⟨h.length_lt, fun rules₁ inner₂ h₁ => ⟨h₁.length_lt, ?_⟩⟩,
    (compileWith_compile env c markup path).symm, compile_eq_three_levels⟩
  exact fun rules₂ inner₃ => h.not_hasRegion h₁ inner₃

theorem compile_depth_three :
    let env : Environment Unit := ⟨⟨.root, []⟩, []⟩
    let c : PageCompiler Unit := ⟨.exact [("text/html".toList, .compiler Catalog.html)], {}⟩
    let markup := "<script type=text/html><style type=text/html>ab</style></script>".toList
    let inner₁ := "<style type=text/html>ab</style>".toList
    HasRegion c.rules markup inner₁ ∧ HasRegion env.settings.rules inner₁ "ab".toList ∧
      inner₁.length < markup.length ∧ "ab".toList.length < inner₁.length ∧
      (∀ rules inner, ¬ HasRegion rules "ab".toList inner) ∧
      compile env c markup "/a.html".toList = compileWith env (compileWith env (compileWith env
        fun _ _ _ => throw (.raised .badValue "too deep".toList))) c markup "/a.html".toList := by
  intro env c markup inner₁
  have hone {rules : RegionRules} {markup : Text} {r : CodeRegion}
      (h : (prepare env.workingDirectory rules markup "/a.html".toList).toOption.map
        Prepared.regions = some [r]) : HasRegion rules markup r.content := by
    obtain ⟨page, hprepare, hregions⟩ := Option.map_eq_some_iff.1 h
    exact hasRegion_of_prepare (eq_ok_of_toOption hprepare) (hregions ▸ List.mem_cons_self)
  have h₁ : HasRegion c.rules markup inner₁ :=
    hone (r := ⟨.script, 0, 0, some "text/html".toList, some (.fit "text/javascript".toList), inner₁⟩)
      (by decide +kernel)
  have h₂ : HasRegion env.settings.rules inner₁ "ab".toList :=
    hone (r := ⟨.style, 0, 0, some "text/html".toList, none, "ab".toList⟩) (by decide +kernel)
  obtain ⟨hnested, -, hlevels⟩ := compile_depth env c markup "/a.html".toList
  obtain ⟨hshorter₁, hnested₁⟩ := hnested _ _ h₁
  obtain ⟨hshorter₂, hnone⟩ := hnested₁ _ _ h₂
  exact ⟨h₁, h₂, hshorter₁, hshorter₂, hnone, hlevels _⟩

end PageSplice.Page
