-- SUMMARY: Settled pages: those in which nothing is left to do, and that they are compiled to themselves.
import PageSplice.Proofs.Page.Standard

/-!
# Settled pages

In a settled page nothing is left to do: its references to resources stay as
they are, its addresses are secure, and the code of its regions is finished,
with its end tags escaped and a reference to its map. With the compilers that a
site has by default such a page is compiled to itself, at whatever path.
-/

namespace PageSplice.Page

open Build Html Html.Document

variable {σ : Type}

-- ---------------------------------------------------------------------------
-- End tags that are escaped
-- ---------------------------------------------------------------------------

theorem not_sameLetter_less {letter : Char} (h : letter.isAlpha = true) :
    Text.sameLetter letter '<' = false := by
  have hne : '<' ≠ letter := by
    rintro rfl
    exact absurd h (by decide)
  simp [Text.sameLetter, hne]

theorem closesElement_congr {language : Language} {c : Char} {r r' : Text}
    (h : (Text.stripWord? language.tag r).isSome = (Text.stripWord? language.tag r').isSome) :
    closesElement language (c :: r) = closesElement language (c :: r') := by
  by_cases hslash : c = '/'
  · subst hslash
    exact h
  · have hnot (r : Text) : closesElement language (c :: r) = false := by
      unfold closesElement
      split
      · rename_i heq
        exact absurd (List.cons.inj heq).1 hslash
      · rfl
    rw [hnot, hnot]

/-- Whether a word stands in front of a text is the same where the text is escaped. -/
theorem isSome_stripWord?_escapeEndTags {language : Language} {word : Text}
    (hword : ∀ c ∈ word, c.isAlpha = true) (code : Text) :
    (Text.stripWord? word (escapeEndTags language code)).isSome =
      (Text.stripWord? word code).isSome := by
  induction word generalizing code with
  | nil => rfl
  | cons w word ih =>
    obtain ⟨hw, hword⟩ := List.forall_mem_cons.1 hword
    cases code with
    | nil => rfl
    | cons c r =>
      rw [escapeEndTags]
      split
      · rename_i hescaped
        rw [hescaped.1]
        simp only [Text.stripWord?, not_sameLetter_less hw, Bool.false_eq_true, if_false]
      · simp only [Text.stripWord?]
        split
        · exact ih hword r
        · rfl

theorem closesElement_escapeEndTags (language other : Language) (code : Text) :
    closesElement language (escapeEndTags other code) = closesElement language code := by
  cases code with
  | nil => rfl
  | cons c r =>
    rw [escapeEndTags]
    split
    · rename_i hescaped
      rw [hescaped.1]
      rfl
    · exact closesElement_congr (isSome_stripWord?_escapeEndTags (tag_isAlpha language) r)

/-- To escape end tags twice is to escape them once. -/
theorem escapeEndTags_escapeEndTags (language : Language) (code : Text) :
    escapeEndTags language (escapeEndTags language code) = escapeEndTags language code := by
  induction code with
  | nil => rfl
  | cons c r ih =>
    by_cases hcloses : c = '<' ∧ closesElement language r = true
    · have hsame : escapeEndTags language (c :: r) = '<' :: '\\' :: escapeEndTags language r :=
        if_pos hcloses
      have hslash : ¬ ('<' = '<' ∧
          closesElement language ('\\' :: escapeEndTags language r) = true) := fun h => nomatch h.2
      have hless : ¬ ('\\' = '<' ∧ closesElement language (escapeEndTags language r) = true) :=
        fun h => absurd h.1 (by decide)
      rw [hsame, escapeEndTags, if_neg hslash, escapeEndTags, if_neg hless, ih]
    · have hsame : escapeEndTags language (c :: r) = c :: escapeEndTags language r := if_neg hcloses
      rw [hsame, escapeEndTags, closesElement_escapeEndTags, if_neg hcloses, ih]

theorem escapeEndTags_of_not_mem {language : Language} {code : Text} (h : '<' ∉ code) :
    escapeEndTags language code = code := by
  induction code with
  | nil => rfl
  | cons c r ih =>
    obtain ⟨hc, hr⟩ := List.ne_and_not_mem_of_not_mem_cons h
    rw [escapeEndTags, if_neg fun hless => hc hless.1.symm, ih hr]

/-- A word ends in front of a line end at the latest. -/
theorem isSome_stripWord?_append {word : Text} (hword : ∀ c ∈ word, c.isAlpha = true)
    (code back : Text) :
    (Text.stripWord? word (code ++ '\n' :: back)).isSome = (Text.stripWord? word code).isSome := by
  induction word generalizing code with
  | nil => rfl
  | cons w word ih =>
    obtain ⟨hw, hword⟩ := List.forall_mem_cons.1 hword
    cases code with
    | nil =>
      simp only [List.nil_append, Text.stripWord?, not_sameLetter_of_isBlank hw (c := '\n') (by decide),
        Bool.false_eq_true, if_false]
    | cons c r =>
      simp only [List.cons_append, Text.stripWord?]
      split
      · exact ih hword r
      · rfl

theorem closesElement_append (language : Language) (code back : Text) :
    closesElement language (code ++ '\n' :: back) = closesElement language code := by
  cases code with
  | nil => rfl
  | cons c r => exact closesElement_congr (isSome_stripWord?_append (tag_isAlpha language) r back)

/-- No end tag goes on behind a line end. -/
theorem escapeEndTags_append {language : Language} {back : Text} (hback : '<' ∉ back) (code : Text) :
    escapeEndTags language (code ++ '\n' :: back) =
      escapeEndTags language code ++ '\n' :: back := by
  induction code with
  | nil =>
    refine escapeEndTags_of_not_mem fun hmem => ?_
    rcases List.mem_cons.1 hmem with h | h
    · cases h
    · exact hback h
  | cons c r ih =>
    rw [List.cons_append, escapeEndTags, escapeEndTags, closesElement_append, ih]
    split <;> rfl

-- ---------------------------------------------------------------------------
-- Code with a source map
-- ---------------------------------------------------------------------------

theorem less_not_mem_commentLine (style : SourceMap.CommentStyle) (map : SourceMap) :
    '<' ∉ SourceMap.comment style map ++ ['\n'] := by
  obtain ⟨front, back, hcomment, hfront, -, hback⟩ := exists_comment style map
  rw [hcomment]
  simp [hfront, hback]

/-- What attaching a map puts behind code is data. -/
theorem exists_attach_eq_append (style : SourceMap.CommentStyle) (map : SourceMap) (code : Text) :
    ∃ t, '<' ∉ t ∧ SourceMap.attach style map code = code ++ t := by
  have hless := less_not_mem_commentLine style map
  obtain ⟨hsame, -⟩ | ⟨front, rfl | rfl, heq⟩ := SourceMap.attach_cases style map code
  · exact ⟨[], List.not_mem_nil, hsame.trans (List.append_nil _).symm⟩
  · refine ⟨'\n' :: (SourceMap.comment style map ++ ['\n']), fun hmem => ?_, heq⟩
    exact (List.mem_cons.1 hmem).elim (by decide) hless
  · exact ⟨_, hless, heq.trans (List.append_assoc front ['\n'] _).symm⟩

theorem escapeEndTags_attach {language : Language} {code : Text}
    (h : escapeEndTags language code = code) (style : SourceMap.CommentStyle) (map : SourceMap) :
    escapeEndTags language (SourceMap.attach style map code) = SourceMap.attach style map code := by
  obtain ⟨hsame, -⟩ | ⟨front, hcode, heq⟩ := SourceMap.attach_cases style map code
  · rw [hsame, h]
  · have hfront : escapeEndTags language front = front := by
      rcases hcode with rfl | rfl
      · exact h
      · rw [escapeEndTags_append List.not_mem_nil] at h
        exact List.append_cancel_right h
    rw [heq, escapeEndTags_append (less_not_mem_commentLine style map), hfront]

-- ---------------------------------------------------------------------------
-- Finished code
-- ---------------------------------------------------------------------------

/-- Whether code of a region stays as it is when it is put in the place of itself: its end tags are
escaped, and it refers to a map. -/
def IsFinished (language : Language) (code : Text) : Prop :=
  escapeEndTags language code = code ∧ SourceMap.hasReference code = true

theorem IsFinished.bodyFor_eq {rules : RegionRules} {r : CodeRegion}
    (h : IsFinished r.language r.content) (identity : Text) {made : Output}
    (hmade : made.code = r.content) : bodyFor rules r identity made = r.content := by
  unfold bodyFor
  dsimp only
  rw [hmade, h.1]
  split
  · rfl
  · rw [SourceMap.attach, if_pos h.2]

/-- A new body that is long enough for a region is finished. -/
theorem isFinished_bodyFor {rules : RegionRules} {r : CodeRegion} {identity : Text} {made : Output}
    (hlong : rules.isBelow (bodyFor rules r identity made).length = false) :
    IsFinished r.language (bodyFor rules r identity made) := by
  unfold bodyFor at hlong ⊢
  dsimp only at hlong ⊢
  split at hlong
  · rename_i hbelow
    cases hbelow.symm.trans hlong
  · rename_i hbelow
    rw [if_neg hbelow]
    exact ⟨escapeEndTags_attach (escapeEndTags_escapeEndTags _ _) _ _, SourceMap.hasReference_attach _ _ _⟩

-- ---------------------------------------------------------------------------
-- Final references
-- ---------------------------------------------------------------------------

/-- Whether a reference stays as it is, in whatever document. -/
def IsFinal (reference : Text) : Prop :=
  ∀ (directory : Path) (path : Text), canonical? directory path reference = .ok none

theorem isFinal_of_isRooted {reference : Text} (hrooted : IsRooted reference)
    (hdots : ¬ HasDots reference) : IsFinal reference := by
  intro directory path
  unfold canonical?
  split
  · rfl
  · rw [if_neg fun h => hdots (hasDotSegment_iff.1 h), isAbsolute_of_isRooted hrooted]

/-- A reference that stays as it is in one document does so in every one. -/
theorem isFinal_of_canonical? {directory : Path} {path reference : Text}
    (h : canonical? directory path reference = .ok none) : IsFinal reference := by
  intro directory' path'
  unfold canonical? at h ⊢
  split at h
  · rename_i hempty
    rw [if_pos hempty]
  · rename_i hempty
    split at h
    · cases h
    · rename_i hdots
      rw [if_neg hempty, if_neg hdots]
      split at h
      · cases h
      · rfl
      · cases h

theorem IsFinal.not_isRelative {reference : Text} (h : IsFinal reference) :
    ¬ IsRelative reference := by
  obtain ⟨-, -, habsurd⟩ | ⟨hnot, -⟩ := canonical?_eq_ok (h ⟨.root, []⟩ [])
  · cases habsurd
  · exact hnot

-- ---------------------------------------------------------------------------
-- Compilations that come to an end
-- ---------------------------------------------------------------------------

section Turns

variable {env : Environment σ} {c : PageCompiler σ} {path : Text} {r : CodeRegion}

theorem isServed_of_turn {s s' : Session σ} {made : Option Output} (h : Turn env c path r s made s') :
    IsServed env c.lookup r := by
  cases h with
  | unsupported htype hfind => exact ⟨_, none, htype, hfind, nofun⟩
  | declined htype hfind hmake _ =>
    exact ⟨_, _, htype, hfind, fun _ h => Option.some.inj h ▸ ⟨_, hmake⟩⟩
  | accepted htype hfind hmake _ _ _ =>
    exact ⟨_, _, htype, hfind, fun _ h => Option.some.inj h ▸ ⟨_, hmake⟩⟩

/-- A region that can have a turn does not fail. -/
theorem failed_turn {p : Progress σ} (hp : p.failed = none) {s' : Session σ} {made : Option Output}
    (h : Turn env c path r p.session made s') :
    (p.turn env c (identityOf path r) r).failed = none := by
  have hnot : ¬ p.failed.isSome = true := by
    rw [hp]
    exact Bool.false_ne_true
  rw [Progress.turn, if_neg hnot]
  cases h with
  | unsupported htype hfind =>
    have hnone : handlerOf? env c.lookup r = none := by
      rw [handlerOf?, typeOf, htype]
      exact congrArg (fun found => (Except.toOption found).join.bind _) hfind
    rw [hnone]
    exact hp
  | declined htype hfind hmake hdeclines =>
    rw [handlerOf?_eq htype hfind hmake]
    dsimp only [Progress.hand]
    rw [hdeclines]
    exact hp
  | accepted htype hfind hmake haccepts hmakes hcheck =>
    rw [handlerOf?_eq htype hfind hmake]
    dsimp only [Progress.hand]
    rw [haccepts]
    dsimp only
    rw [hmakes]
    dsimp only
    rw [hcheck]
    exact hp

/-- A prepared page whose regions can all have their turns, from whatever session, is compiled. -/
theorem exists_yields_of_turns {markup : Text} {page : Prepared markup}
    (hprepare : prepare env.workingDirectory c.rules markup path = .ok page)
    (hturns : ∀ r ∈ page.regions, r.mimeType.isSome = true →
      ∀ s, ∃ made s', Turn env c path r s made s') (s : Session σ) :
    ∃ out s', (compile env c markup path).Yields s out s' := by
  obtain ⟨d, regions, hparse, hregions, hcode, -⟩ := prepare_eq_ok hprepare
  have hturn (r : CodeRegion) (hr : .code r ∈ regions) (htype : r.mimeType.isSome = true)
      (s : Session σ) : ∃ made s', Turn env c path r s made s' :=
    hturns r (hcode ▸ mem_codeRegions.2 hr) htype s
  have hrun := run_compile hparse hregions hprepare (fun r hr htype => by
    obtain ⟨made, s', h⟩ := hturn r hr htype s
    exact isServed_of_turn h) s
  have hfailed : (dispatch env c path regions s).failed = none := by
    rw [dispatch, Progress.foldl_next fun i region hi => by
      rw [Region.ordinal_of_ofDocument hregions hi, Nat.zero_add]]
    refine List.foldlRecOn _ _ (motive := fun p : Progress σ => p.failed = none) rfl fun p hp r hr => ?_
    obtain ⟨hmem, htype⟩ := List.mem_filter.1 hr
    obtain ⟨made, s', h⟩ := hturn r (mem_codeRegions.1 hmem) htype p.session
    exact failed_turn hp h
  rw [Progress.outcome, hfailed] at hrun
  exact ⟨_, _, hrun⟩

end Turns

/-- A page whose references all stay as they are is prepared. -/
theorem exists_prepare (workingDirectory : Path) {rules : RegionRules} {markup tag : Text}
    {d : Document} {regions : List Region} (hparse : Document.parse markup = .ok d)
    (hregions : Region.ofDocument rules d = .ok regions) (htag : rules.resourceTag = .fit tag)
    (hfinal : ∀ e ∈ d.elements, e.tag = Text.lower tag → IsFinal ((e.value? "src".toList).getD []))
    (path : Text) : ∃ page, prepare workingDirectory rules markup path = .ok page := by
  cases hprepare : prepare workingDirectory rules markup path with
  | ok page => exact ⟨page, rfl⟩
  | error failure =>
    obtain ⟨reference, hmem, hfails⟩ :=
      ((prepare_eq_error workingDirectory hparse hregions htag failure).1 hprepare).exists_mem
    obtain ⟨e, he, rfl⟩ := List.mem_map.1 hmem
    obtain ⟨he, hname⟩ := List.mem_filter.1 he
    have herror : canonical? ⟨.root, []⟩ path ((e.value? "src".toList).getD []) = .error failure :=
      canonical?_eq_error.2 hfails
    cases (hfinal e he (of_decide_eq_true hname) _ _).symm.trans herror

-- ---------------------------------------------------------------------------
-- Settled texts
-- ---------------------------------------------------------------------------

/-- Whether nothing is left to do in a text, for the compilers that a site has by default: its
references and addresses are final, code that has a compiler is finished, and regions that are pages
are settled themselves. -/
inductive IsSettled (σ : Type) (rules : RegionRules) : Text → Prop
  | page {text tag : Text} {d : Document} {regions : List Region}
      (hparse : Document.parse text = .ok d) (hregions : Region.ofDocument rules d = .ok regions)
      (htag : rules.resourceTag = .fit tag)
      (hfinal : ∀ e ∈ d.elements, e.tag = Text.lower tag →
        IsFinal ((e.value? "src".toList).getD []))
      (hsecure : ∀ e ∈ d.elements, ¬ IsInsecure e)
      (hcode : ∀ r, .code r ∈ regions → r.mimeType.isSome = true → ∃ type, r.typeText = .ok type ∧
        ((defaultLookup σ).find? type = .ok none ∨ IsFinished r.language r.content))
      (hpages : ∀ r, .code r ∈ regions → IsPage r → IsSettled σ rules r.content) :
      IsSettled σ rules text

section Settled

variable {env : Environment σ} {path : Text} {r : CodeRegion} {type : Text}
  (htype : r.typeText = .ok type)
  (hnested : IsPage r → ∀ s, ∃ s', (compile env (standard env.settings) r.content
    (identityOf path r)).Yields s { code := r.content, mimeType := "text/html".toList } s')

include htype hnested

/-- A region has its turn where, as a page, it is compiled to itself. -/
theorem exists_turn (s : Session σ) :
    ∃ made s', Turn env (standard env.settings) path r s made s' := by
  rcases find?_default (σ := σ) type with hfind | hfind | hfind
  · exact ⟨none, _, .unsupported htype hfind⟩
  · exact ⟨_, _, .accepted htype hfind rfl (yields_pure.2 ⟨rfl, rfl⟩) (yields_pure.2 ⟨rfl, rfl⟩)
      (checkMap_eq_ok (hasPrintableMap_of_none rfl) _ _ _)⟩
  · have hnormal := find?_eq_html_iff.1 hfind
    have haccepts := isHtmlPath_identity hnormal path r.ordinal
    rw [← identityOf_eq htype] at haccepts
    obtain ⟨s', hyields⟩ := hnested ⟨type, htype, hnormal⟩ s
    exact ⟨_, _, .accepted htype hfind rfl (yields_pure.2 ⟨haccepts.symm, rfl⟩) hyields
      (checkMap_eq_ok (hasPrintableMap_compile hyields) _ _ _)⟩

/-- The new body of a finished region is the one that it has. -/
theorem bodyFor_of_standardTurn {s : Session σ} {made : Output}
    (hfound : (defaultLookup σ).find? type = .ok none ∨ IsFinished r.language r.content)
    (h : StandardTurn env path r s (some made)) (rules : RegionRules) :
    bodyFor rules r (identityOf path r) made = r.content := by
  cases h with
  | same htype' hfind hsame =>
    cases htype.symm.trans htype'
    rcases hfound with hnone | hfinished
    · cases hnone.symm.trans hfind
    · exact hfinished.bodyFor_eq _ hsame
  | page hpage hcompile =>
    obtain ⟨s', hyields⟩ := hnested hpage s
    cases hyields.symm.trans hcompile
    obtain ⟨type', htype', hnormal⟩ := hpage
    cases htype.symm.trans htype'
    rcases hfound with hnone | hfinished
    · cases hnone.symm.trans (find?_eq_html_iff.2 hnormal)
    · exact hfinished.bodyFor_eq _ rfl

end Settled

/-- Where references and addresses are final and bodies come out as they are, a page is written as it
was read. -/
theorem Leaves.serialize_eq {env : Environment σ} {c : PageCompiler σ} {markup path tag : Text}
    {turns : List (CodeRegion × Option Output)} {d d' : Document}
    (h : Leaves env c markup path turns d') (hparse : Document.parse markup = .ok d)
    (htag : c.rules.resourceTag = .fit tag)
    (hsecured : Text.lower tag ∉ securedAttributes.map Prod.fst)
    (hfinal : ∀ e ∈ d.elements, e.tag = Text.lower tag → IsFinal ((e.value? "src".toList).getD []))
    (hsecure : ∀ e ∈ d.elements, ¬ IsInsecure e)
    (hbodies : ∀ r made, (r, some made) ∈ turns →
      bodyFor c.rules r (identityOf path r) made = r.content) : d'.serialize = markup := by
  refine (h.changes hparse htag hsecured).serialize_eq hparse fun {i e e'} he he' => ?_
  obtain ⟨hset, hmade⟩ := h.changed hparse htag hsecured he he'
  constructor
  · refine Decidable.byContradiction fun hchanged => ?_
    rcases hset hchanged with ⟨_, reference, hname, hname', hvalue, hne, habsolute⟩ | hinsecure
    · cases htag.symm.trans hname
      have hstays := hfinal e (List.mem_of_getElem? he) hname'
      rw [hvalue] at hstays
      exact hstays.not_isRelative (isRelative_iff.2 ⟨hne, habsolute⟩)
    · exact hsecure e (List.mem_of_getElem? he) hinsecure
  · intro body hbody
    obtain ⟨r, made, hturn, rfl, -, rfl⟩ := hmade body hbody
    obtain ⟨regions, hregions, -⟩ := h.exists_regions hparse
    obtain ⟨e₀, he₀, -, hcontent, -⟩ :=
      Region.of_mem_code hregions (h.mem_of_turn hparse hregions hturn).1
    cases he.symm.trans he₀
    exact (hbodies r made hturn).trans hcontent

/-- With the compilers that a site has by default, a settled text is compiled to itself. -/
theorem IsSettled.exists_yields {env : Environment σ} {text : Text}
    (h : IsSettled σ env.settings.rules text) {tag : Text}
    (htag : env.settings.rules.resourceTag = .fit tag)
    (hsecured : Text.lower tag ∉ securedAttributes.map Prod.fst) (path : Text) (s : Session σ) :
    ∃ s', (compile env (standard env.settings) text path).Yields s
      { code := text, mimeType := "text/html".toList } s' := by
  induction h generalizing path s with
  | @page text tag' d regions hparse hregions htag' hfinal hsecure hcode _ ih =>
    cases htag.symm.trans htag'
    obtain ⟨page, hprepare⟩ := exists_prepare env.workingDirectory hparse hregions htag hfinal path
    have hturns : ∀ r ∈ page.regions, r.mimeType.isSome = true → ∀ s, ∃ made s',
        Turn env (standard env.settings) path r s made s' := by
      intro r hr hsome
      obtain ⟨_, _, hparse', hregions', hcodes, -⟩ := prepare_eq_ok hprepare
      cases hparse.symm.trans hparse'
      cases hregions.symm.trans hregions'
      have hr := mem_codeRegions.1 (hcodes ▸ hr)
      obtain ⟨type, htype, -⟩ := hcode r hr hsome
      exact exists_turn htype fun hpage => ih r hr hpage (identityOf path r)
    obtain ⟨out, s', hyields⟩ := exists_yields_of_turns hprepare hturns s
    obtain ⟨turns, d', hleaves, rfl⟩ := exists_leaves hyields
    have hserialize : d'.serialize = text := by
      refine hleaves.serialize_eq hparse htag hsecured hfinal hsecure fun r made hturn => ?_
      obtain ⟨hr, hsome⟩ := hleaves.mem_of_turn hparse hregions hturn
      obtain ⟨s₂, hstandard⟩ := hleaves.exists_standardTurn hturn
      obtain ⟨type, htype, hfound⟩ := hcode r hr hsome
      exact bodyFor_of_standardTurn htype (fun hpage => ih r hr hpage (identityOf path r)) hfound
        hstandard _
    exact ⟨s', hserialize ▸ hyields⟩

end PageSplice.Page
