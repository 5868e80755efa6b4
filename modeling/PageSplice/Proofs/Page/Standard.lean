-- SUMMARY: The compilers that a site has by default: what becomes of a region, and that they write no new end tag.
import PageSplice.Proofs.Page.Depth
import PageSplice.Proofs.Page.Elements
import PageSplice.Proofs.Page.Faults

/-!
# Default compilers

A site that registers no compilers has two: one for scripts and styles, which
changes nothing, and the compiler of pages for regions that are pages. Neither
declines a region, so a region is left alone, or comes out as it is, or is
compiled as a page with the same compilers. Whatever is written in the end
holds no end tag of a script or style that the markup did not hold.
-/

namespace PageSplice.Page

open Build Html Html.Document

variable {σ : Type}

-- ---------------------------------------------------------------------------
-- Regions that are pages
-- ---------------------------------------------------------------------------

/-- The identity of a region that is a page is that of a page, whatever the path of its document. -/
theorem isHtmlPath_identity {type : Text} (h : Mime.normalize type = "text/html".toList)
    (path : Text) (ordinal : Int) : Mime.isHtmlPath (Mime.identity path ordinal type) = true := by
  have hextension : Mime.extension type = "html".toList := by
    have hpreferred : Mime.preferred.lookup "text/html".toList = some "html".toList := by decide
    rw [Mime.extension, Mime.Table.extension]
    simp only [h, hpreferred]
  have hidentity : Mime.identity path ordinal type =
      (path ++ ":inline_".toList ++ Text.ofInt ordinal) ++ '.' :: "html".toList := by
    rw [Mime.identity, hextension, List.append_assoc]
    rfl
  have hdot : (Mime.identity path ordinal type).contains '.' = true := by
    rw [hidentity]
    simp
  have hlast : Text.afterLast '.' (Mime.identity path ordinal type) = "html".toList := by
    rw [hidentity]
    exact afterLast_append (by decide) _
  have hfind : (Mime.preferred.find? fun entry => entry.2 = Text.lower "html".toList) =
      some ("text/html".toList, "html".toList) := by decide
  rw [Mime.isHtmlPath, Mime.Table.isHtmlPath, Mime.Table.ofPath?]
  simp only [hdot, hlast, if_true, hfind]
  decide

/-- By default just what has the type `text/html` is compiled as a page. -/
theorem find?_eq_html_iff {type : Text} :
    (defaultLookup σ).find? type = .ok (some Catalog.html) ↔
      Mime.normalize type = "text/html".toList := by
  rw [defaultLookup, Lookup.find?, Registry.find?]
  constructor
  · intro h
    cases hentry : (Settings.registry ([] : Settings σ)).table.lookup (Mime.normalize type) with
    | none =>
      rw [hentry] at h
      cases h
    | some entry =>
      obtain ⟨before, after, htable, -⟩ := List.lookup_eq_some_iff.1 hentry
      have hmem : (Mime.normalize type, entry) ∈ (Settings.registry ([] : Settings σ)).table := by
        rw [htable]
        exact List.mem_append_right before List.mem_cons_self
      have hother : entry ≠ .path Settings.passthroughPath := by
        rintro rfl
        rw [hentry] at h
        simp only [find_passthroughPath] at h
        cases h
      simp only [table_default, List.mem_cons, Prod.mk.injEq, List.not_mem_nil, or_false] at hmem
      rcases hmem with ⟨-, h⟩ | ⟨-, h⟩ | ⟨-, h⟩ | ⟨htype, -⟩
      · exact absurd h hother
      · exact absurd h hother
      · exact absurd h hother
      · exact htype
  · intro h
    have hentry : (Settings.registry ([] : Settings σ)).table.lookup "text/html".toList =
        some (.path Settings.htmlPath) := rfl
    rw [h, hentry]
    simp only [find_htmlPath]
    rfl

-- ---------------------------------------------------------------------------
-- Turns
-- ---------------------------------------------------------------------------

def standard (settings : Settings σ) : PageCompiler σ := .withLookup settings (defaultLookup σ)

def IsPage (r : CodeRegion) : Prop :=
  ∃ type, r.typeText = .ok type ∧ Mime.normalize type = "text/html".toList

/-- What the compilers that a site has by default make of a region of the document at `path`. -/
inductive StandardTurn (env : Environment σ) (path : Text) (r : CodeRegion) :
    Session σ → Option Output → Prop
  | unsupported {s : Session σ} {type : Text} (htype : r.typeText = .ok type)
      (hfind : (defaultLookup σ).find? type = .ok none) : StandardTurn env path r s none
  | same {s : Session σ} {out : Output} {type : Text} (htype : r.typeText = .ok type)
      (hfind : (defaultLookup σ).find? type = .ok (some (.delegate (Delegate.passthrough σ))))
      (hcode : out.code = r.content) : StandardTurn env path r s (some out)
  | page {s s' : Session σ} {out : Output} (hpage : IsPage r)
      (hcompile : (compile env (standard env.settings) r.content (identityOf path r)).Yields s out s') :
      StandardTurn env path r s (some out)

/-- By default no region is declined. -/
theorem standardTurn_of_turn {env : Environment σ} {rules : RegionRules} {path : Text}
    {r : CodeRegion} {s s' : Session σ} {made : Option Output}
    (h : Turn env ⟨defaultLookup σ, rules⟩ path r s made s') : StandardTurn env path r s made := by
  cases h with
  | unsupported htype hfind => exact .unsupported htype hfind
  | @declined s₁ type compiler handler htype hfind hmake hdeclines =>
    rcases find?_default (σ := σ) type with hnone | hpassthrough | hpage
    · cases hnone.symm.trans hfind
    · cases hpassthrough.symm.trans hfind
      cases hmake
      cases (yields_pure.1 hdeclines).1
    · cases hpage.symm.trans hfind
      cases hmake
      have haccepts := isHtmlPath_identity (find?_eq_html_iff.1 hpage) path r.ordinal
      rw [← identityOf_eq htype] at haccepts
      cases (yields_pure.1 hdeclines).1.trans haccepts
  | @accepted s₁ s₂ type compiler handler made htype hfind hmake haccepts hmakes =>
    rcases find?_default (σ := σ) type with hnone | hpassthrough | hpage
    · cases hnone.symm.trans hfind
    · cases hpassthrough.symm.trans hfind
      cases hmake
      exact .same htype hfind (congrArg Output.code (yields_pure.1 hmakes).1)
    · cases hpage.symm.trans hfind
      cases hmake
      obtain ⟨-, rfl⟩ := yields_pure.1 haccepts
      exact .page ⟨type, htype, find?_eq_html_iff.1 hpage⟩ hmakes

theorem exists_standardTurn {env : Environment σ} {rules : RegionRules} {path : Text}
    {turns : List (CodeRegion × Option Output)} {s s' : Session σ}
    (h : Turns env ⟨defaultLookup σ, rules⟩ path turns s s') {r : CodeRegion} {made : Option Output}
    (hmem : (r, made) ∈ turns) : ∃ s, StandardTurn env path r s made := by
  induction h with
  | nil s => cases hmem
  | @cons r made turns s s₁ s' hturn _ ih =>
    rcases List.mem_cons.1 hmem with heq | hmem
    · cases heq
      exact ⟨s, standardTurn_of_turn hturn⟩
    · exact ih hmem

theorem Leaves.exists_standardTurn {env : Environment σ} {markup path : Text}
    {turns : List (CodeRegion × Option Output)} {d : Document}
    (h : Leaves env (standard env.settings) markup path turns d) {r : CodeRegion}
    {made : Option Output} (hturn : (r, made) ∈ turns) : ∃ s, StandardTurn env path r s made := by
  obtain ⟨_, _, _, -, -, hturns, -⟩ := h
  exact Page.exists_standardTurn hturns hturn

-- ---------------------------------------------------------------------------
-- End tags
-- ---------------------------------------------------------------------------

/-- Escaping brings no end tag into code. -/
theorem holdsEndTag_of_escapeEndTags {raw : RawElement} {language : Language} {code : Text}
    (h : HoldsEndTag raw.name (escapeEndTags language code)) : HoldsEndTag raw.name code := by
  obtain ⟨gap, tag, htag, hinside⟩ := h
  refine ⟨gap, tag, htag, ?_⟩
  obtain ⟨inner, rfl, hinner⟩ := htag.exists_inner
  have hless : '<' ∉ '/' :: (inner ++ ['>']) := by
    intro hmem
    simp only [List.mem_cons, List.mem_append, List.not_mem_nil, or_false] at hmem
    rcases hmem with h | hmem | h
    · cases h
    · rcases hinner '<' hmem with h | h
      · exact absurd h (by decide)
      · exact absurd h (by decide)
    · cases h
  induction code with
  | nil => exact hinside
  | cons c r ih =>
    rw [escapeEndTags] at hinside
    split at hinside
    · rw [List.infix_cons_iff, List.infix_cons_iff, List.cons_prefix_cons, List.cons_prefix_cons,
        List.cons_prefix_cons] at hinside
      rcases hinside with ⟨-, habsurd, -⟩ | ⟨habsurd, -⟩ | hinside
      · cases habsurd
      · cases habsurd
      · exact List.infix_cons (ih hinside)
    · rw [List.infix_cons_iff, List.cons_prefix_cons, prefix_escapeEndTags hless] at hinside
      rcases hinside with hprefix | hinside
      · exact (List.cons_prefix_cons.2 hprefix).isInfix
      · exact List.infix_cons (ih hinside)

theorem exists_language (raw : RawElement) : ∃ language : Language, language.tag = raw.name := by
  cases raw with
  | script => exact ⟨.script, rfl⟩
  | style => exact ⟨.style, rfl⟩

theorem holdsEndTag_of_bodyFor {raw : RawElement} {rules : RegionRules} {r : CodeRegion}
    {identity : Text} {made : Output} (h : HoldsEndTag raw.name (bodyFor rules r identity made)) :
    HoldsEndTag raw.name made.code := by
  obtain ⟨language, hname⟩ := exists_language raw
  unfold bodyFor at h
  dsimp only at h
  split at h
  · exact holdsEndTag_of_escapeEndTags h
  · rw [← hname, holdsEndTag_attach, hname] at h
    exact holdsEndTag_of_escapeEndTags h

section Compiled

variable {env : Environment σ} {tag : Text} (htag : env.settings.rules.resourceTag = .fit tag)
  (hsecured : Text.lower tag ∉ securedAttributes.map Prod.fst)

include htag hsecured

/-- With the compilers that a site has by default, what is written holds no end tag of a script or
style that the markup does not hold. -/
theorem holdsEndTag_of_compile {markup path : Text} {raw : RawElement} {s s' : Session σ}
    {out : Output} (h : (compile env (standard env.settings) markup path).Yields s out s')
    (hholds : HoldsEndTag raw.name out.code) : HoldsEndTag raw.name markup := by
  induction hn : markup.length using Nat.strongRecOn generalizing markup path s s' out with
  | ind n ih =>
    subst hn
    obtain ⟨turns, d', hleaves, rfl⟩ := exists_leaves h
    obtain ⟨d, hparse⟩ := hleaves.exists_parse
    have hchanges := hleaves.changes hparse htag hsecured
    refine hchanges.holdsEndTag_serialize hparse (fun e' he' body hbody hend => ?_) hholds
    obtain ⟨i, he'⟩ := List.getElem?_of_mem he'
    obtain ⟨e, he⟩ := hchanges.exists_element he'
    obtain ⟨r, made, hturn, -, -, rfl⟩ := (hleaves.changed hparse htag hsecured he he').2 body hbody
    obtain ⟨regions, hregions, -⟩ := hleaves.exists_regions hparse
    have hr := (hleaves.mem_of_turn hparse hregions hturn).1
    have hcontent := content_isInfix hparse hregions hr
    obtain ⟨s₂, hstandard⟩ := hleaves.exists_standardTurn hturn
    have hcode := holdsEndTag_of_bodyFor hend
    cases hstandard with
    | same _ _ hsame => exact (hsame ▸ hcode).mono hcontent
    | page _ hcompile =>
      have hlt := Region.length_content_lt hregions hr
      rw [markup_of_parse hparse] at hlt
      exact (ih _ hlt hcompile hcode rfl).mono hcontent

/-- With the compilers that a site has by default, no body is given an end tag of its element. -/
theorem not_holdsSpacedEndTag_of_turn {markup path : Text}
    {turns : List (CodeRegion × Option Output)} {d d' : Html.Document}
    (h : Leaves env (standard env.settings) markup path turns d')
    (hparse : Document.parse markup = .ok d) {r : CodeRegion} {made : Output}
    (hturn : (r, some made) ∈ turns) : ¬ HoldsSpacedEndTag r.language made.code := by
  obtain ⟨regions, hregions, -⟩ := h.exists_regions hparse
  have hr := (h.mem_of_turn hparse hregions hturn).1
  obtain ⟨e, raw, stop, he, hraw, hname, hself, -⟩ := exists_of_code hparse hregions hr
  have hbare := not_holdsEndTag_text hparse he hraw hself
  obtain ⟨e₀, he₀, -, hcontent, -⟩ := Region.of_mem_code hregions hr
  cases he.symm.trans he₀
  rw [text_of_parse hparse (List.mem_of_getElem? he), ← hcontent] at hbare
  rintro ⟨gap, tag, -, hend, hinside⟩
  have hcode : HoldsEndTag raw.name made.code := ⟨gap, tag, hname ▸ hend, hinside⟩
  obtain ⟨s₂, hstandard⟩ := h.exists_standardTurn hturn
  cases hstandard with
  | same _ _ hsame => exact hbare (hsame ▸ hcode)
  | page _ hcompile => exact hbare (holdsEndTag_of_compile htag hsecured hcompile hcode)

/-- With the compilers that a site has by default, a page whose changes stand behind plain tags is
read back with all of them made. -/
theorem exists_reread {markup path : Text} {s s' : Session σ} {out : Output}
    (h : (compile env (standard env.settings) markup path).Yields s out s') :
    ∃ d turns d₁, Document.parse markup = .ok d ∧
      Leaves env (standard env.settings) markup path turns d₁ ∧
      out = { code := d₁.serialize, mimeType := "text/html".toList } ∧
      (ChangesBehindPlainTags env.settings.rules turns d →
        ∃ d₂, Document.parse out.code = .ok d₂ ∧ d₁.IsShownBy d₂) := by
  obtain ⟨turns, d₁, hleaves, rfl⟩ := exists_leaves h
  obtain ⟨d, hparse⟩ := hleaves.exists_parse
  refine ⟨d, turns, d₁, hparse, hleaves, rfl, fun hplain => ?_⟩
  have hchanges := hleaves.changesPlainly hparse htag hsecured hplain fun r made hturn =>
    not_holdsSpacedEndTag_of_turn htag hsecured hleaves hparse hturn
  exact hchanges.exists_isShownBy hparse

end Compiled

end PageSplice.Page
