-- SUMMARY: Compiling a page twice: what has been compiled and is read back as it was left is compiled to itself.
import PageSplice.Proofs.Html.Appending
import PageSplice.Proofs.Page.Settled

/-!
# Compiling twice

A compilation leaves nothing to do: references to resources are absolute,
addresses have schemes, code has its end tags escaped and refers to its map. So
a page is settled once it is compiled, if it is read back as it was left. It may
be read back otherwise: markup in front of a change may have been left open, and
a region that is a page has a comment put behind it. And a reference that was
made absolute has the dots of its directory.
-/

namespace PageSplice.Page

open Build Html Html.Document

variable {σ : Type}

-- ---------------------------------------------------------------------------
-- References that were made absolute
-- ---------------------------------------------------------------------------

/-- A reference without dots that is made absolute has no dots but those of its directory. -/
theorem not_hasDots_join {directory : Path} (hanchor : directory.anchor ≠ .relative)
    (hwell : directory.WellFormed) (hdirectory : ¬ HasDots directory.toText) {reference : Text}
    (hrelative : IsRelative reference) (hdots : ¬ HasDots reference) :
    ¬ HasDots (directory.join (Path.ofText reference)).toText := by
  have hslash (c : Char) (hc : decide (c = '/') = true) : (c = '\\' || c = '/') = true := by
    simp [of_decide_eq_true hc]
  obtain ⟨hbare, -, -⟩ := ofText_of_isRelative hrelative hdots
  have hsegments : (directory.join (Path.ofText reference)).segments =
      directory.segments ++ (Path.ofText reference).segments :=
    congrArg Path.segments (if_pos hbare)
  rintro ⟨piece, hpiece, hdot⟩
  have hwithin {between text : Text} (hbetween : between ∈ Text.splitOn '/' text)
      (hmem : piece ∈ referenceSegments between) : HasDots text := by
    refine ⟨piece, ?_, hdot⟩
    rw [referenceSegments, Text.splitBy_eq_flatMap hslash]
    exact List.mem_flatMap.2 ⟨between, hbetween, hmem⟩
  rw [referenceSegments, Text.splitBy_eq_flatMap hslash] at hpiece
  obtain ⟨between, hbetween, hmem⟩ := List.mem_flatMap.1 hpiece
  rcases Path.mem_splitOn_toText (Path.anchor_join hanchor _)
    (hwell.join (Path.wellFormed_ofText reference)) hbetween with rfl | hsegment
  · rw [List.mem_singleton.1 hmem] at hdot
    exact absurd hdot (by decide)
  · rw [hsegments] at hsegment
    rcases List.mem_append.1 hsegment with hsegment | hsegment
    · exact hdirectory (hwithin (Path.mem_splitOn_of_mem hanchor hwell hsegment) hmem)
    · exact hdots (hwithin (List.mem_filter.1 hsegment).1 hmem)

-- ---------------------------------------------------------------------------
-- Pages that are read back
-- ---------------------------------------------------------------------------

/-- Whether the text in which a compilation of markup has ended is read back as it was left: its
elements show those that were left, its references have no dots from the directory, and so on for the
regions that are pages. -/
inductive IsReadAsLeft (env : Environment σ) : Text → Text → Text → Prop
  | page {markup path text : Text} {turns : List (CodeRegion × Option Output)} {d d₁ d₂ : Document}
      (hparse : Document.parse markup = .ok d)
      (hleaves : Leaves env (standard env.settings) markup path turns d₁)
      (hread : Document.parse text = .ok d₂) (hshown : d₁.IsShownBy d₂)
      (hdots : (∃ e ∈ d.elements, IsRelativeResource env.settings.rules e) →
        ¬ HasDots (Path.directoryOf env.workingDirectory path).toText)
      (hpages : ∀ r made, (r, some made) ∈ turns → IsPage r → IsReadAsLeft env r.content
        (identityOf path r) (bodyFor env.settings.rules r (identityOf path r) made)) :
      IsReadAsLeft env markup path text

theorem mimeType_isSome_of_isPage {r : CodeRegion} (h : IsPage r) : r.mimeType.isSome = true := by
  obtain ⟨type, htype, hnormal⟩ := h
  cases hmime : r.mimeType with
  | some _ => rfl
  | none =>
    rw [CodeRegion.typeText, hmime] at htype
    cases htype
    exact absurd hnormal (by decide)

section Reread

variable {env : Environment σ} {markup path tag : Text}
  {turns : List (CodeRegion × Option Output)} {d d₁ d₂ : Document}
  (hparse : Document.parse markup = .ok d)
  (hleaves : Leaves env (standard env.settings) markup path turns d₁)
  {text : Text} (hread : Document.parse text = .ok d₂) (hshown : d₁.IsShownBy d₂)
  (htag : env.settings.rules.resourceTag = .fit tag)
  (hsecured : Text.lower tag ∉ securedAttributes.map Prod.fst)

include hparse hleaves hshown htag hsecured

/-- What an element that is read back shows. -/
theorem exists_shown {i : Nat} {e₂ : Element} (he₂ : d₂.elements[i]? = some e₂) :
    ∃ e e₁ e', d.elements[i]? = some e ∧ d₁.elements[i]? = some e' ∧
      Prepares (Path.directoryOf env.workingDirectory path) path tag e e₁ ∧
      Splices env.settings.rules path turns i e₁ e' ∧ e₁.tag = e.tag ∧ e₂.tag = e.tag ∧
      ∀ name, e₂.attributes.lookup name = e₁.attributes.lookup name := by
  have hlt := (List.getElem?_eq_some_iff.1 he₂).1
  rw [hshown.length, (hleaves.frame hparse).2] at hlt
  have he := List.getElem?_eq_getElem hlt
  obtain ⟨e₁, e', hprepares, hsplices, he'⟩ := hleaves.element hparse htag hsecured he
  have hname : e₁.tag = (d.elements[i]).tag := by
    obtain rfl | ⟨-, name, value, -, rfl⟩ := hprepares.eq_or_setAttribute htag <;> rfl
  have hsame : e'.tag = e₁.tag ∧ e'.attributes = e₁.attributes := by
    cases hsplices <;> exact ⟨rfl, rfl⟩
  refine ⟨_, e₁, e', he, he', hprepares, hsplices, hname, ?_, fun name => ?_⟩
  · rw [hshown.tag he' he₂, hsame.1, hname]
  · rw [hshown.lookup he' he₂, hsame.2]

/-- Resources that are read back have references that stay as they are. -/
theorem isFinal_of_shown (hanchor : env.workingDirectory.anchor ≠ .relative)
    (hwell : env.workingDirectory.WellFormed)
    (hdots : (∃ e ∈ d.elements, IsRelativeResource env.settings.rules e) →
      ¬ HasDots (Path.directoryOf env.workingDirectory path).toText)
    {e₂ : Element} (hmem : e₂ ∈ d₂.elements) (hname : e₂.tag = Text.lower tag) :
    IsFinal ((e₂.value? "src".toList).getD []) := by
  obtain ⟨i, he₂⟩ := List.getElem?_of_mem hmem
  obtain ⟨e, e₁, e', he, -, hprepares, -, -, hname₂, hlookup⟩ :=
    exists_shown hparse hleaves hshown htag hsecured he₂
  have hvalue : e₂.value? "src".toList = e₁.value? "src".toList :=
    congrArg Option.join (hlookup _)
  rw [hvalue]
  cases hprepares with
  | other hother => exact absurd (hname₂.symm.trans hname) hother
  | @resource new hresource hnew =>
    obtain ⟨hnoDots, hrelative, rfl⟩ | ⟨-, rfl⟩ := canonical?_eq_ok hnew
    · have hset : (anchored (some ((Path.directoryOf env.workingDirectory path).join
          (Path.ofText ((e.value? "src".toList).getD []))).toText) e).value? "src".toList = some _ :=
        e.value?_setAttribute_self rfl _
      obtain ⟨hdirectory, hsegments⟩ := Path.directoryOf_spec hanchor hwell path
      rw [hset]
      refine isFinal_of_isRooted (.inl (Path.head?_toText (Path.anchor_join hdirectory _))) ?_
      refine not_hasDots_join hdirectory ?_ (hdots ⟨e, List.mem_of_getElem? he,
        isRelativeResource_of_isRelative htag hresource hrelative⟩) hrelative hnoDots
      exact fun segment hsegment => ⟨(hsegments segment hsegment).1, (hsegments segment hsegment).2.1⟩
    · exact isFinal_of_canonical? hnew

/-- Addresses that are read back are secure. -/
theorem not_isInsecure_of_shown {e₂ : Element} (hmem : e₂ ∈ d₂.elements) : ¬ IsInsecure e₂ := by
  obtain ⟨i, he₂⟩ := List.getElem?_of_mem hmem
  obtain ⟨e, e₁, e', -, -, hprepares, -, hname₁, hname₂, hlookup⟩ :=
    exists_shown hparse hleaves hshown htag hsecured he₂
  rw [isInsecure_congr (hname₂.trans hname₁.symm) hlookup]
  cases hprepares with
  | other _ => exact not_isInsecure_secured e
  | resource hresource _ =>
    rintro ⟨name, -, hmem, -⟩
    rw [hname₁, hresource] at hmem
    exact hsecured (List.mem_map_of_mem (f := Prod.fst) hmem)

include hread

/-- What an element that may hold a region shows, when it is read back. -/
theorem exists_shown_code {i : Nat} {e₂ : Element} (he₂ : d₂.elements[i]? = some e₂)
    (hcode : e₂.tag ≠ Text.lower tag) {language : Language}
    (hlanguage : Language.ofTag? e₂.tag = some language) :
    ∃ e e', d.elements[i]? = some e ∧ d₁.elements[i]? = some e' ∧
      Splices env.settings.rules path turns i (secured e) e' ∧ e₂.tag = e.tag ∧
      e₂.value? "type".toList = e.value? "type".toList ∧
      e₂.hasAttribute "src".toList = e.hasAttribute "src".toList ∧ d₂.body e₂ = d₁.text e' := by
  obtain ⟨e, e₁, e', he, he', hprepares, hsplices, -, hname₂, hlookup⟩ :=
    exists_shown hparse hleaves hshown htag hsecured he₂
  cases hprepares with
  | resource hresource _ => exact absurd (hname₂.trans hresource) hcode
  | other _ =>
    refine ⟨e, e', he, he', hsplices, hname₂, ?_, ?_, ?_⟩
    · exact (congrArg Option.join (hlookup _)).trans (value?_secured (by decide) e)
    · exact (congrArg Option.isSome (hlookup _)).trans (hasAttribute_secured e _)
    · obtain ⟨raw, hraw, -⟩ := exists_raw hlanguage
      rw [hshown.tag he' he₂] at hraw
      rw [← hshown.text he' he₂ (Option.isSome_iff_exists.2 ⟨raw, hraw⟩),
        text_of_parse hread (List.mem_of_getElem? he₂)]

/-- A region with a type that is read back is one that something was made of, and holds what was made
of it, or it has no compiler. -/
theorem region_of_shown {regions₂ : List Region}
    (hregions₂ : Region.ofDocument env.settings.rules d₂ = .ok regions₂) {r₂ : CodeRegion}
    (hr₂ : .code r₂ ∈ regions₂) (hsome : r₂.mimeType.isSome = true) :
    (∃ r made, (r, some made) ∈ turns ∧ r₂.typeText = r.typeText ∧
      r₂.content = bodyFor env.settings.rules r (identityOf path r) made ∧
      IsFinished r₂.language r₂.content) ∨
    ∃ type, r₂.typeText = .ok type ∧ (defaultLookup σ).find? type = .ok none := by
  obtain ⟨e₂, he₂, hcode₂, hlanguage₂, hregion₂⟩ := Region.exists_of_mem_code hregions₂ hr₂ htag
  obtain ⟨e, e', he, he', hsplices, hname, htype, hsource, hbody⟩ :=
    exists_shown_code hparse hleaves hread hshown htag hsecured he₂ hcode₂ hlanguage₂
  obtain ⟨regions, hregions, hfst⟩ := hleaves.exists_regions hparse
  cases hsplices with
  | @body r made hturn hr =>
    obtain ⟨e₀, he₀, -, hlanguage, hregion⟩ :=
      Region.exists_of_mem_code hregions (hleaves.mem_of_turn hparse hregions hturn).1 htag
    rw [hr] at he₀
    cases he.symm.trans he₀
    have hsame : r₂.language = r.language := by
      rw [hname, hlanguage] at hlanguage₂
      exact (Option.some.inj hlanguage₂).symm
    obtain ⟨hspec₂, hlong, -⟩ := Region.codeRegion?_spec hregion₂
    have hcontent : r₂.content = bodyFor env.settings.rules r (identityOf path r) made :=
      (congrArg CodeRegion.content hspec₂).trans hbody
    refine .inl ⟨r, made, hturn, ?_, hcontent, ?_⟩
    · have hspec := (Region.codeRegion?_spec hregion).1
      rw [hspec₂, hspec, CodeRegion.typeText, CodeRegion.typeText, CodeRegion.mimeType,
        CodeRegion.mimeType, Region.declaredType_congr htype, hsame]
      rfl
    · rw [hsame, hcontent]
      refine isFinished_bodyFor ?_
      rw [← hcontent, congrArg CodeRegion.content hspec₂]
      exact hlong
  | kept hnot =>
    -- The region was read from the markup as well, under a number of its own.
    rw [Region.codeRegion?_congr htype hsource
      (hbody.trans (hleaves.text_of_kept hparse he he' hnot))] at hregion₂
    obtain ⟨m, hm⟩ := Region.exists_code hregions htag he (hname ▸ hcode₂) (hname ▸ hlanguage₂)
      hregion₂
    have hmem : { r₂ with ordinal := m } ∈ turns.map Prod.fst := by
      rw [hfst]
      exact List.mem_filter.2 ⟨mem_codeRegions.2 hm, hsome⟩
    obtain ⟨⟨r, made⟩, hturn, hr⟩ := List.mem_map.1 hmem
    obtain rfl : r = { r₂ with ordinal := m } := hr
    obtain ⟨s, hstandard⟩ := hleaves.exists_standardTurn hturn
    cases hstandard with
    | unsupported htype hfind => exact .inr ⟨_, htype, hfind⟩
    | same _ _ _ => exact absurd ⟨_, _, hturn, rfl⟩ hnot
    | page _ _ => exact absurd ⟨_, _, hturn, rfl⟩ hnot

end Reread

-- ---------------------------------------------------------------------------
-- Compiling twice
-- ---------------------------------------------------------------------------

/-- What is read back as it was left is settled. -/
theorem IsReadAsLeft.isSettled {env : Environment σ} {markup path text : Text}
    (h : IsReadAsLeft env markup path text) {tag : Text} (hfits : Region.Fits env.settings.rules)
    (htag : env.settings.rules.resourceTag = .fit tag)
    (hsecured : Text.lower tag ∉ securedAttributes.map Prod.fst)
    (hanchor : env.workingDirectory.anchor ≠ .relative)
    (hwell : env.workingDirectory.WellFormed) : IsSettled σ env.settings.rules text := by
  induction h with
  | @page markup path text turns d d₁ d₂ hparse hleaves hread hshown hdots _ ih =>
    obtain ⟨regions₂, hregions₂⟩ := Region.exists_ofDocument_of_fits hfits d₂
    refine .page hread hregions₂ htag ?_ ?_ ?_ ?_
    · exact fun e₂ hmem hname =>
        isFinal_of_shown hparse hleaves hshown htag hsecured hanchor hwell hdots hmem hname
    · exact fun e₂ hmem => not_isInsecure_of_shown hparse hleaves hshown htag hsecured hmem
    · intro r₂ hr₂ hsome
      obtain ⟨type, htype⟩ := Region.exists_typeText_of_fits hfits hregions₂ hr₂
      refine ⟨type, htype, ?_⟩
      rcases region_of_shown hparse hleaves hread hshown htag hsecured hregions₂ hr₂ hsome with
        ⟨r, made, -, -, -, hfinished⟩ | ⟨type', htype', hfind⟩
      · exact .inr hfinished
      · cases htype.symm.trans htype'
        exact .inl hfind
    · intro r₂ hr₂ hpage
      rcases region_of_shown hparse hleaves hread hshown htag hsecured hregions₂ hr₂
        (mimeType_isSome_of_isPage hpage) with ⟨r, made, hturn, htype, hcontent, -⟩ | ⟨type, htype, hfind⟩
      · rw [hcontent]
        refine ih r made hturn ?_
        obtain ⟨type, htype', hnormal⟩ := hpage
        exact ⟨type, htype ▸ htype', hnormal⟩
      · obtain ⟨type', htype', hnormal⟩ := hpage
        cases htype.symm.trans htype'
        cases hfind.symm.trans (find?_eq_html_iff.2 hnormal)

-- ---------------------------------------------------------------------------
-- Plain pages
-- ---------------------------------------------------------------------------

/-- Whether all that a compilation of markup may change stands behind plain tags, its references get
no dots from the directory, and its regions that are pages are plain, take a comment behind their
code, and come out without an end tag to escape. -/
inductive IsPlainPage (env : Environment σ) : Text → Text → Prop
  | page {markup path : Text} {d : Document} {regions : List Region}
      (hparse : Document.parse markup = .ok d)
      (hregions : Region.ofDocument env.settings.rules d = .ok regions)
      (hplain : ∀ i e, d.elements[i]? = some e →
        IsRelativeResource env.settings.rules e ∨ IsInsecure e ∨
          (∃ r, .code r ∈ regions ∧ r.mimeType.isSome = true ∧ r.element = i) → d.PlainUpTo i)
      (hdots : (∃ e ∈ d.elements, IsRelativeResource env.settings.rules e) →
        ¬ HasDots (Path.directoryOf env.workingDirectory path).toText)
      (hpages : ∀ r, .code r ∈ regions → IsPage r → IsPlainPage env r.content (identityOf path r))
      (htakes : ∀ r, .code r ∈ regions → IsPage r → TakesData r.content)
      (hbare : ∀ r, .code r ∈ regions → IsPage r → ∀ s out s',
        (compile env (standard env.settings) r.content (identityOf path r)).Yields s out s' →
          escapeEndTags r.language out.code = out.code) :
      IsPlainPage env markup path

/-- A new body in which no end tag is escaped is what was made, with data behind it. -/
theorem exists_bodyFor_eq_append (rules : RegionRules) {r : CodeRegion} {made : Output}
    (hbare : escapeEndTags r.language made.code = made.code) (identity : Text) :
    ∃ t, '<' ∉ t ∧ bodyFor rules r identity made = made.code ++ t := by
  unfold bodyFor
  dsimp only
  rw [hbare]
  split
  · exact ⟨[], List.not_mem_nil, (List.append_nil _).symm⟩
  · exact exists_attach_eq_append _ _ made.code

/-- A plain page is read back as it was left, with data behind it where it takes data. -/
theorem IsPlainPage.isReadAsLeft {env : Environment σ} {markup path : Text}
    (h : IsPlainPage env markup path) {tag : Text}
    (htag : env.settings.rules.resourceTag = .fit tag)
    (hsecured : Text.lower tag ∉ securedAttributes.map Prod.fst)
    {turns : List (CodeRegion × Option Output)} {d₁ : Document}
    (hleaves : Leaves env (standard env.settings) markup path turns d₁) {t : Text} (hdata : '<' ∉ t)
    (ht : t = [] ∨ TakesData markup) : IsReadAsLeft env markup path (d₁.serialize ++ t) := by
  induction h generalizing turns d₁ t with
  | @page markup path d regions hparse hregions hplain hdots _ htakes hbare ih =>
    have hbehind : ChangesBehindPlainTags env.settings.rules turns d := by
      intro i e he hchanged
      refine hplain i e he (hchanged.imp_right (Or.imp_right ?_))
      rintro ⟨r, made, hturn, hr⟩
      obtain ⟨hmem, hsome⟩ := hleaves.mem_of_turn hparse hregions hturn
      exact ⟨r, hmem, hsome, hr⟩
    have hchanges := hleaves.changesPlainly hparse htag hsecured hbehind fun r made hturn =>
      not_holdsSpacedEndTag_of_turn htag hsecured hleaves hparse hturn
    have hfollowed : Document.parse (markup ++ t) = .ok (d.followedBy t) := by
      rcases ht with rfl | htakes
      · rw [List.append_nil, Document.followedBy, List.append_nil]
        exact hparse
      · exact htakes d t hparse hdata
    obtain ⟨d₂, hread, hshown⟩ := hchanges.exists_isShownBy_followedBy hparse hfollowed
    refine .page hparse hleaves hread hshown hdots fun r made hturn hpage => ?_
    have hr := (hleaves.mem_of_turn hparse hregions hturn).1
    obtain ⟨s₁, hstandard⟩ := hleaves.exists_standardTurn hturn
    cases hstandard with
    | same htype hfind _ =>
      obtain ⟨type, htype', hnormal⟩ := hpage
      cases htype.symm.trans htype'
      cases hfind.symm.trans (find?_eq_html_iff.2 hnormal)
    | page _ hcompile =>
      obtain ⟨t, hdata, hbody⟩ := exists_bodyFor_eq_append env.settings.rules
        (hbare r hr hpage _ _ _ hcompile) (identityOf path r)
      obtain ⟨turns', d₁', hleaves', rfl⟩ := exists_leaves hcompile
      rw [hbody]
      exact ih r hr hpage hleaves' hdata (.inr (htakes r hr hpage))

-- ---------------------------------------------------------------------------
-- Main statement
-- ---------------------------------------------------------------------------

/-- With the compilers that a site has by default, and rules that fit, a page that has been compiled
is compiled to itself, at the same path and from whatever session, if it is read back as it was left.
It is read back so where all that is changed stands behind plain tags, no reference gets dots from the
directory, and the regions that are pages come out without end tags to escape and take the comments
behind their code. -/
theorem compile_compile {env : Environment σ} {tag : Text} (hfits : Region.Fits env.settings.rules)
    (htag : env.settings.rules.resourceTag = .fit tag)
    (hsecured : Text.lower tag ∉ securedAttributes.map Prod.fst)
    (hanchor : env.workingDirectory.anchor ≠ .relative) (hwell : env.workingDirectory.WellFormed)
    {markup path : Text} {s s' : Session σ} {out : Output}
    (h : (compile env (standard env.settings) markup path).Yields s out s') :
    (IsReadAsLeft env markup path out.code → ∀ s₁, ∃ s₂,
      (compile env (standard env.settings) out.code path).Yields s₁ out s₂) ∧
    (IsPlainPage env markup path → IsReadAsLeft env markup path out.code) := by
  obtain ⟨turns, d₁, hleaves, rfl⟩ := exists_leaves h
  refine ⟨fun hread s₁ => ?_, fun hplain => ?_⟩
  · exact (hread.isSettled hfits htag hsecured hanchor hwell).exists_yields htag hsecured path s₁
  · have hleft := hplain.isReadAsLeft htag hsecured hleaves List.not_mem_nil (.inl rfl)
    rwa [List.append_nil] at hleft

/-- A page inside of a page, and a reference in each of them. -/
theorem compile_compile_nested :
    let env : Environment Unit := ⟨⟨.root, []⟩, []⟩
    let markup := "<x-require src=b><script type=text/html><x-require src=b></script>".toList
    let path := "/d/a.html".toList
    ∃ out s', (compile env (standard env.settings) markup path).Yields ⟨(), []⟩ out s' ∧
      out.code.take 72 = ("<x-require src=\"/d/b\"><script type=text/html>".toList ++
        "<x-require src=\"/d/b\">\n//# ".toList) ∧
      ∀ s₁, ∃ s₂, (compile env (standard env.settings) out.code path).Yields s₁ out s₂ := by
  intro env markup path
  let inner := "<x-require src=b>".toList
  let source : Attributes := [("src".toList, some "b".toList)]
  let typed : Attributes := [("type".toList, some "text/html".toList)]
  let tag : StartTag := ⟨"x-require src=b>".toList, "x-require".toList, source, false⟩
  let resource (hasChildren : Bool) : Element := ⟨tag, 0, none, hasChildren, source, none, none⟩
  let script : Element := ⟨⟨"script type=text/html>".toList, "script".toList, typed, false⟩, 17,
    some 57, false, typed, none, none⟩
  let d : Document := ⟨markup, [resource true, script]⟩
  let d' : Document := ⟨inner, [resource false]⟩
  let region : CodeRegion := ⟨.script, 1, 1, some "text/html".toList,
    some (.fit "text/javascript".toList), inner⟩
  have hparse : Document.parse markup = .ok d := eq_ok_of_toOption (by decide +kernel)
  have hparse' : Document.parse inner = .ok d' := eq_ok_of_toOption (by decide +kernel)
  have hregions : Region.ofDocument env.settings.rules d =
      .ok [.resource ⟨0, 0, some "b".toList⟩, .code region] := eq_ok_of_toOption (by decide +kernel)
  have hregions' : Region.ofDocument env.settings.rules d' = .ok [.resource ⟨0, 0, some "b".toList⟩] :=
    eq_ok_of_toOption (by decide +kernel)
  have hresource : tag.IsPlain := StartTag.isPlain_of_fit (c := 'x') (r := "-require".toList)
    [.separator ' ', .named "src".toList (.bare [] [] "b".toList)] rfl rfl rfl rfl ⟨rfl, rfl⟩
    (by decide +kernel)
  have hscript : script.startTag.IsPlain := StartTag.isPlain_of_fit (c := 's') (r := "cript".toList)
    [.separator ' ', .named "type".toList (.bare [] [] "text/html".toList)] rfl rfl rfl rfl
    ⟨rfl, rfl⟩ (by decide +kernel)
  have hplain : d.PlainUpTo 1 := by
    refine plainUpTo_of_forall (List.forall_mem_cons.2 ⟨⟨hresource, ?_⟩,
      List.forall_mem_singleton.2 ⟨hscript, ?_⟩⟩) 1
    all_goals decide +kernel
  have hplain' : d'.PlainUpTo 0 :=
    plainUpTo_of_forall (List.forall_mem_singleton.2 ⟨hresource, by decide +kernel⟩) 0
  have hdots (path : Text)
      (hdirectory : (Path.directoryOf env.workingDirectory path).toText = "/d".toList) :
      ¬ HasDots (Path.directoryOf env.workingDirectory path).toText := by
    rw [hdirectory]
    unfold HasDots
    decide
  have hinner : IsPlainPage env inner (identityOf path region) := by
    refine .page hparse' hregions' (fun i e he _ => hplain'.mono (Nat.le_of_lt_succ
      (List.getElem?_eq_some_iff.1 he).1)) (fun _ => hdots _ (by decide +kernel)) ?_ ?_ ?_
    all_goals exact fun r hr => nomatch List.mem_singleton.1 hr
  have hbare (s : Session Unit) (out : Output) (s' : Session Unit)
      (h : (compile env (standard env.settings) inner (identityOf path region)).Yields s out s') :
      escapeEndTags .script out.code = out.code := by
    obtain ⟨turns, d₁, ⟨page, _, _, hprepare, hfst, -, rfl⟩, rfl⟩ := exists_leaves h
    have hpage : (prepare env.workingDirectory env.settings.rules inner
        (identityOf path region)).toOption.map (fun page => (page.regions, page.document.serialize)) =
        some ([], "<x-require src=\"/d/b\">".toList) := by decide +kernel
    rw [show prepare env.workingDirectory env.settings.rules inner (identityOf path region) = .ok page
      from hprepare] at hpage
    obtain ⟨hregions, hserialize⟩ := Prod.mk.inj (Option.some.inj hpage)
    rw [hregions, List.filter_nil] at hfst
    rw [List.map_eq_nil_iff.1 hfst]
    change escapeEndTags .script page.document.serialize = page.document.serialize
    rw [hserialize]
    decide +kernel
  have hplainPage : IsPlainPage env markup path := by
    have hregion {r : CodeRegion}
        (hr : Region.code r ∈ [.resource ⟨0, 0, some "b".toList⟩, .code region]) : r = region := by
      rcases List.mem_cons.1 hr with h | h
      · cases h
      · exact Region.code.inj (List.mem_singleton.1 h)
    refine .page hparse hregions (fun i e he _ => hplain.mono (Nat.le_of_lt_succ
      (List.getElem?_eq_some_iff.1 he).1)) (fun _ => hdots _ (by decide +kernel)) ?_ ?_ ?_
    · intro r hr _
      cases hregion hr
      exact hinner
    · intro r hr _
      cases hregion hr
      exact takesData_of_plain hparse' hplain' rfl (by decide) (by decide)
    · intro r hr _
      cases hregion hr
      exact hbare
  obtain ⟨out, s', h, hcode⟩ : ∃ out s',
      (compile env (standard env.settings) markup path).Yields ⟨(), []⟩ out s' ∧
        out.code.take 72 = ("<x-require src=\"/d/b\"><script type=text/html>".toList ++
          "<x-require src=\"/d/b\">\n//# ".toList) := exists_yields (by decide +kernel)
  have hfits : Region.Fits env.settings.rules := fits_rules_nil
  obtain ⟨hagain, hleft⟩ := compile_compile hfits rfl (by decide) (by decide)
    (List.forall_mem_nil _) h
  exact ⟨out, s', h, hcode, hagain (hleft hplainPage)⟩

end PageSplice.Page
