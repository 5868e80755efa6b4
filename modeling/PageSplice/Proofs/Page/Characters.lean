-- SUMMARY: Characters beyond ASCII in a compiled page: those of the markup, and those of the references that are written.
import PageSplice.Proofs.Html.EndTags
import PageSplice.Proofs.Page.Inner
import PageSplice.Proofs.Page.Standard
import PageSplice.Proofs.SourceMap.Reference

/-!
# Characters of compiled pages

All that a compilation writes of its own is ASCII: references to characters,
schemes, source maps. So a character beyond ASCII that is written comes from the
markup or from a reference that is written, which brings those of the document
path, and those that the markup names by character references. Of a reference
that is written, all characters are there in the end, however deep the page lies
that it belongs to.
-/

namespace PageSplice

def BeyondAscii (c : Char) : Prop := 0x80 ≤ c.toNat

theorem BeyondAscii.ne {c d : Char} (h : BeyondAscii c) (hd : d.toNat < 0x80) : c ≠ d :=
  fun heq => Nat.not_lt.2 h (heq ▸ hd)

theorem BeyondAscii.not_mem {c : Char} {s : Text} (h : BeyondAscii c)
    (hs : ∀ d ∈ s, d.toNat < 0x80) : c ∉ s :=
  fun hmem => h.ne (hs c hmem) rfl

theorem BeyondAscii.not_mem_of_all {c : Char} {s : Text} (h : BeyondAscii c)
    (hs : s.all (·.toNat < 0x80) = true) : c ∉ s :=
  h.not_mem fun d hd => of_decide_eq_true (List.all_eq_true.1 hs d hd)

-- ---------------------------------------------------------------------------
-- Tags
-- ---------------------------------------------------------------------------

namespace Html

variable {c : Char} (hc : BeyondAscii c)

include hc

theorem mem_escapeChar {d : Char} : c ∈ CharRef.escapeChar d ↔ c = d := by
  by_cases hd : d.toNat < 0x80
  · have hescape : (CharRef.escapeChar d).all (·.toNat < 0x80) = true :=
      of_ascii (P := fun d => (CharRef.escapeChar d).all (·.toNat < 0x80) = true) (by decide) hd
    exact iff_of_false (hc.not_mem_of_all hescape) (hc.ne hd)
  · have hd : BeyondAscii d := Nat.not_lt.1 hd
    rw [CharRef.escapeChar, if_neg (hd.ne (by decide)), if_neg (hd.ne (by decide)),
      if_neg (hd.ne (by decide)), if_neg (hd.ne (by decide)), if_neg (hd.ne (by decide))]
    exact List.mem_singleton

theorem mem_escape {s : Text} : c ∈ CharRef.escape s ↔ c ∈ s := by
  simp only [CharRef.escape, List.mem_flatMap, mem_escapeChar hc, exists_eq_right']

variable {name : Text} (hname : ∀ d ∈ name, d.toNat < 0x80)

include hname

theorem mem_render {value : Text} : c ∈ TagText.render name value ↔ c ∈ value := by
  have hquote : c ∉ "\"".toList := hc.not_mem_of_all rfl
  have hequals : c ∉ "=\"".toList := hc.not_mem_of_all rfl
  simp only [TagText.render, List.mem_append, hc.not_mem hname, hequals, hquote, mem_escape hc,
    false_or, or_false]

/-- A start tag in which an attribute is set has the characters of the value, and otherwise none that
it did not have. -/
theorem of_mem_setAttribute {value tag : Text} (h : c ∈ TagText.setAttribute name value tag) :
    c ∈ value ∨ c ∈ tag := by
  unfold TagText.setAttribute at h
  split at h
  · rename_i here rest hfind
    obtain ⟨hhere, hrest, -⟩ := TagText.find?_spec hfind
    have hafter : TagText.afterElementName tag <:+ tag := by
      unfold TagText.afterElementName
      split
      · split
        · exact List.suffix_refl _
        · exact (List.dropWhile_suffix _).trans (List.suffix_cons _ _)
      · exact List.suffix_refl _
    rw [List.mem_append, List.mem_append, mem_render hc hname] at h
    rcases h with (h | h) | h
    · exact .inr (List.mem_of_mem_take h)
    · exact .inl h
    · exact .inr ((hrest.trans (hhere.trans hafter)).subset h)
  · dsimp only at h
    rw [List.mem_append, List.mem_append, List.mem_cons, mem_render hc hname] at h
    rcases h with (h | h | h) | h
    · exact .inr (List.mem_of_mem_take ((TagText.trimRight_isPrefix _ _).subset h))
    · exact absurd h (hc.ne (by decide))
    · exact .inl h
    · exact .inr (List.mem_of_mem_drop h)

theorem mem_setAttribute {value : Text} (h : c ∈ value) (tag : Text) :
    c ∈ TagText.setAttribute name value tag := by
  have hrender := (mem_render hc hname).2 h
  unfold TagText.setAttribute
  split
  · exact List.mem_append_left _ (List.mem_append_right _ hrender)
  · exact List.mem_append_left _ (List.mem_append_right _ (List.mem_cons_of_mem _ hrender))

end Html

-- ---------------------------------------------------------------------------
-- Documents
-- ---------------------------------------------------------------------------

namespace Html.Document

theorem of_mem_splice {markup : Text} {edits : List Edit} {cursor : Nat} {c : Char}
    (h : c ∈ splice markup cursor edits) : c ∈ markup ∨ ∃ edit ∈ edits, c ∈ edit.replacement := by
  induction edits generalizing cursor with
  | nil => exact .inl (List.mem_of_mem_drop h)
  | cons edit rest ih =>
    rw [splice, List.mem_append, List.mem_append] at h
    rcases h with (h | h) | h
    · exact .inl ((slice_isInfix _ _ _).subset h)
    · exact .inr ⟨edit, List.mem_cons_self, h⟩
    · obtain h | ⟨edit', hedit', h⟩ := ih h
      · exact .inl h
      · exact .inr ⟨edit', List.mem_cons_of_mem _ hedit', h⟩

theorem mem_splice {markup : Text} {edits : List Edit} {edit : Edit} (hedit : edit ∈ edits) {c : Char}
    (h : c ∈ edit.replacement) (cursor : Nat) : c ∈ splice markup cursor edits := by
  induction edits generalizing cursor with
  | nil => cases hedit
  | cons first rest ih =>
    rw [splice]
    rcases List.mem_cons.1 hedit with rfl | hedit
    · exact List.mem_append_left _ (List.mem_append_right _ h)
    · exact List.mem_append_right _ (ih hedit _)

theorem mem_replacements {e : Element} {c : Char} :
    (∃ edit ∈ editsOf e, c ∈ edit.replacement) ↔
      (∃ tag, e.newTag = some tag ∧ c ∈ tag) ∨ ∃ body, e.newBody = some body ∧ c ∈ body := by
  unfold editsOf
  cases e.newTag <;> cases e.newBody <;> simp

/-- What is written is the markup in parts, and the new start tags and bodies. -/
theorem of_mem_serialize {d : Document} {c : Char} (h : c ∈ d.serialize) :
    c ∈ d.markup ∨ ∃ e ∈ d.elements,
      (∃ tag, e.newTag = some tag ∧ c ∈ tag) ∨ ∃ body, e.newBody = some body ∧ c ∈ body := by
  refine (of_mem_splice h).imp_right fun ⟨edit, hedit, h⟩ => ?_
  obtain ⟨e, he, hedit⟩ := List.mem_flatMap.1 hedit
  exact ⟨e, he, mem_replacements.1 ⟨edit, hedit, h⟩⟩

theorem mem_serialize {d : Document} {e : Element} (he : e ∈ d.elements) {c : Char}
    (h : (∃ tag, e.newTag = some tag ∧ c ∈ tag) ∨ ∃ body, e.newBody = some body ∧ c ∈ body) :
    c ∈ d.serialize := by
  obtain ⟨edit, hedit, h⟩ := mem_replacements.2 h
  exact mem_splice (List.mem_flatMap.2 ⟨e, he, hedit⟩) h 0

end Html.Document

-- ---------------------------------------------------------------------------
-- Bodies
-- ---------------------------------------------------------------------------

section Bodies

variable {c : Char} (hc : BeyondAscii c)

include hc

theorem SourceMap.not_mem_comment (style : CommentStyle) (map : SourceMap) :
    c ∉ comment style map := by
  obtain ⟨opener, close, hopener, hclose, heq⟩ := comment_eq style map
  have hfront : c ∉ '/' :: opener :: '#' :: ' ' :: referenceKey := by
    rcases hopener with rfl | rfl <;> exact hc.not_mem_of_all rfl
  have hurl : c ∉ dataUrl map :=
    not_mem_dataUrl (hc.not_mem_of_all rfl) (hc.not_mem_of_all rfl) map
  have hback : c ∉ close := by
    rcases hclose with rfl | rfl <;> exact hc.not_mem_of_all rfl
  rw [heq, ← List.cons_append, ← List.cons_append, ← List.cons_append, ← List.cons_append,
    List.mem_append, List.mem_append]
  exact not_or.2 ⟨hfront, not_or.2 ⟨hurl, hback⟩⟩

theorem SourceMap.mem_attach {style : CommentStyle} {map : SourceMap} {code : Text} :
    c ∈ attach style map code ↔ c ∈ code := by
  have hnewline : c ∉ ['\n'] := hc.not_mem_of_all rfl
  unfold attach
  split
  · exact Iff.rfl
  · have hseparator : c ∉ if Text.endsWith code ['\n'] then [] else ['\n'] := by
      split
      · exact List.not_mem_nil
      · exact hnewline
    simp only [List.mem_append, hseparator, not_mem_comment hc, hnewline, or_false]

theorem Page.mem_escapeEndTags {language : Language} {code : Text} :
    c ∈ escapeEndTags language code ↔ c ∈ code := by
  induction code with
  | nil => exact Iff.rfl
  | cons d r ih =>
    rw [escapeEndTags]
    split
    · rename_i hd
      rw [hd.1, List.mem_cons, List.mem_cons, List.mem_cons, ih,
        or_iff_right (hc.ne (d := '\\') (by decide))]
    · rw [List.mem_cons, List.mem_cons, ih]

/-- A new body has the characters of what was made, and brings none of its own. -/
theorem Page.mem_bodyFor {rules : RegionRules} {r : CodeRegion} {identity : Text} {made : Output} :
    c ∈ bodyFor rules r identity made ↔ c ∈ made.code := by
  unfold bodyFor
  dsimp only
  split
  · exact mem_escapeEndTags hc
  · exact (SourceMap.mem_attach hc).trans (mem_escapeEndTags hc)

end Bodies

-- ---------------------------------------------------------------------------
-- Start tags
-- ---------------------------------------------------------------------------

namespace Page

open Build Html.Document

variable {σ : Type}

/-- Whether a text is written into a start tag of a page: as the absolute path of a relative
resource, or as an address, behind its new scheme. -/
def Sheet.Writes (workingDirectory : Path) (page : Sheet) (value : Text) : Prop :=
  ∃ d e, Html.Document.parse page.markup = .ok d ∧ e ∈ d.elements ∧
    ((∃ tag reference, page.rules.resourceTag = .fit tag ∧ e.tag = Text.lower tag ∧
        e.value? "src".toList = some reference ∧ IsRelative reference ∧
        value = ((Path.directoryOf workingDirectory page.path).join
          (Path.ofText reference)).toText) ∨
      ∃ name, (e.tag, name) ∈ securedAttributes ∧ e.value? name = some value ∧
        lacksScheme value = true)

section StartTags

variable {c : Char} (hc : BeyondAscii c)

include hc

theorem of_mem_startText_setAttribute {e : Html.Element} {name value : Text}
    (hname : Html.IsAsciiName name) (h : c ∈ (e.setAttribute name value).startText) :
    c ∈ value ∨ c ∈ e.startText :=
  Html.of_mem_setAttribute hc hname.toNat_lower_lt h

theorem mem_startText_setAttribute {e : Html.Element} {name value : Text}
    (hname : Html.IsAsciiName name) (h : c ∈ value) : c ∈ (e.setAttribute name value).startText :=
  Html.mem_setAttribute hc hname.toNat_lower_lt h e.startText

theorem of_mem_startText_secured {e : Html.Element} (h : c ∈ (secured e).startText) :
    c ∈ e.startText ∨ ∃ name reference, (e.tag, name) ∈ securedAttributes ∧
      e.value? name = some reference ∧ lacksScheme reference = true ∧ c ∈ reference := by
  obtain ⟨name, reference, hmem, hvalue, hlacks, hset⟩ | ⟨-, hkept⟩ := secured_cases e
  · rw [hset] at h
    rcases of_mem_startText_setAttribute hc (isAsciiName_of_secured hmem) h with h | h
    · have hscheme : c ∉ "https:".toList := hc.not_mem_of_all rfl
      exact .inr ⟨name, reference, hmem, hvalue, hlacks, (List.mem_append.1 h).resolve_left hscheme⟩
    · exact .inl h
  · exact .inl (hkept ▸ h)

/-- A start tag once its page is prepared has the characters of what is written into it, and else
none that it did not have. -/
theorem of_mem_startText {e : Html.Element} {new : Option Text}
    (h : c ∈ (secured (anchored new e)).startText) :
    c ∈ e.startText ∨ (∃ reference, new = some reference ∧ c ∈ reference) ∨
      ∃ name reference, (e.tag, name) ∈ securedAttributes ∧ e.value? name = some reference ∧
        lacksScheme reference = true ∧ c ∈ reference := by
  cases new with
  | none => exact (of_mem_startText_secured hc h).imp_right .inr
  | some new =>
    rcases of_mem_startText_secured hc h with h | ⟨name, reference, hmem, hvalue, hlacks, h⟩
    · rcases of_mem_startText_setAttribute hc isAsciiName_src h with h | h
      · exact .inr (.inl ⟨new, rfl, h⟩)
      · exact .inl h
    · by_cases hname : Text.lower name = Text.lower "src".toList
      · cases (Html.Element.value?_setAttribute_self e hname new).symm.trans hvalue
        exact .inr (.inl ⟨_, rfl, h⟩)
      · rw [anchored, e.value?_setAttribute_ne hname] at hvalue
        exact .inr (.inr ⟨name, reference, hmem, hvalue, hlacks, h⟩)

end StartTags

-- ---------------------------------------------------------------------------
-- Compiled documents
-- ---------------------------------------------------------------------------

section Documents

variable {env : Environment σ} {compiler : PageCompiler σ} {markup path tag : Text}
  {turns : List (CodeRegion × Option Output)} {d w : Html.Document} {c : Char} (hc : BeyondAscii c)

include hc

/-- A new start tag has the characters of the markup and of the references written. -/
theorem Leaves.of_mem_newTag (h : Leaves env compiler markup path turns w)
    (hparse : Html.Document.parse markup = .ok d) {i : Nat} {e' : Html.Element}
    (he' : w.elements[i]? = some e') {newTag : Text} (hnew : e'.newTag = some newTag)
    (hmem : c ∈ newTag) :
    c ∈ markup ∨ ∃ value, Sheet.Writes env.workingDirectory ⟨compiler.rules, markup, path⟩ value ∧
      c ∈ value := by
  obtain ⟨regions, hregions, -⟩ := h.exists_regions hparse
  obtain ⟨tag, htag, -⟩ := Region.exists_resourceTag hregions
  obtain ⟨e, he⟩ : ∃ e, d.elements[i]? = some e := by
    obtain ⟨hi, -⟩ := List.getElem?_eq_some_iff.1 he'
    exact ⟨_, List.getElem?_eq_getElem ((h.frame hparse).2 ▸ hi)⟩
  have hin := List.mem_of_getElem? he
  obtain ⟨new, e₁, he₁, hnewTag, hresource, hother⟩ := h.newTag hparse htag he
  cases he'.symm.trans he₁
  have hstart : (secured (anchored new e)).startText = newTag := by
    rw [Html.Element.startText, ← hnewTag, hnew, Option.getD_some]
  rcases of_mem_startText hc (hstart ▸ hmem) with hmem | ⟨value, rfl, hmem⟩ |
    ⟨name, value, hname, hvalue, hlacks, hmem⟩
  · obtain ⟨-, hnoTag, -⟩ := isUnchanged_of_parse hparse e hin
    rw [Html.Element.startText, hnoTag, Option.getD_none, ← slice_startTag hparse he] at hmem
    exact .inl ((slice_isInfix _ _ _).subset hmem)
  · refine .inr ⟨value, ⟨d, e, hparse, hin, .inl ?_⟩, hmem⟩
    by_cases hname : e.tag = Text.lower tag
    · obtain ⟨-, hrelative, hvalue⟩ | ⟨-, hnone⟩ := canonical?_eq_ok (hresource hname)
      · obtain ⟨reference, hsrc, hrelative⟩ := exists_reference_of_isRelative hrelative
        rw [hsrc] at hvalue
        exact ⟨tag, reference, htag, hname, hsrc, hrelative, Option.some.inj hvalue⟩
      · cases hnone
    · cases hother hname
  · exact .inr ⟨value, ⟨d, e, hparse, hin, .inr ⟨name, hname, hvalue, hlacks⟩⟩, hmem⟩

/-- The characters of what is written are those of the markup, of the references written, and of
what was made of the regions. -/
theorem Leaves.of_mem_serialize (h : Leaves env compiler markup path turns w)
    (hmem : c ∈ w.serialize) :
    c ∈ markup ∨
      (∃ value, Sheet.Writes env.workingDirectory ⟨compiler.rules, markup, path⟩ value ∧
        c ∈ value) ∨
      ∃ r made, (r, some made) ∈ turns ∧ c ∈ made.code := by
  obtain ⟨d, hparse⟩ := h.exists_parse
  obtain hmem | ⟨e', he', hnew⟩ := Html.Document.of_mem_serialize hmem
  · rw [(h.frame hparse).1, markup_of_parse hparse] at hmem
    exact .inl hmem
  · obtain ⟨i, he'⟩ := List.getElem?_of_mem he'
    obtain ⟨newTag, hnewTag, hmem⟩ | ⟨body, hbody, hmem⟩ := hnew
    · exact (h.of_mem_newTag hc hparse he' hnewTag hmem).imp_right .inl
    · obtain ⟨r, made, hturn, -, rfl⟩ := (h.newBody_eq_some_iff hparse he').1 hbody
      exact .inr (.inr ⟨r, made, hturn, (mem_bodyFor hc).1 hmem⟩)

/-- What was made of a region is written with all its characters. -/
theorem Leaves.mem_serialize_of_turn (h : Leaves env compiler markup path turns w) {r : CodeRegion}
    {made : Output} (hturn : (r, some made) ∈ turns) (hmem : c ∈ made.code) : c ∈ w.serialize := by
  obtain ⟨d, hparse⟩ := h.exists_parse
  obtain ⟨regions, hregions, -⟩ := h.exists_regions hparse
  obtain ⟨tag, htag, -⟩ := Region.exists_resourceTag hregions
  obtain ⟨e, he, -⟩ := Region.of_mem_code hregions (h.mem_of_turn hparse hregions hturn).1
  obtain ⟨-, e', he', -⟩ := h.newTag hparse htag he
  have hbody := (h.newBody_eq_some_iff hparse he').2 ⟨r, made, hturn, rfl, rfl⟩
  exact Html.Document.mem_serialize (List.mem_of_getElem? he')
    (.inr ⟨_, hbody, (mem_bodyFor hc).2 hmem⟩)

/-- A reference is written with all its characters, where resource elements are neither links nor
scripts. -/
theorem Leaves.mem_serialize_of_writes (h : Leaves env compiler markup path turns w)
    (hsecured : ∀ tag, compiler.rules.resourceTag = .fit tag →
      Text.lower tag ∉ securedAttributes.map Prod.fst) {value : Text}
    (hwrites : Sheet.Writes env.workingDirectory ⟨compiler.rules, markup, path⟩ value)
    (hmem : c ∈ value) : c ∈ w.serialize := by
  obtain ⟨d, e, hparse, he, hwrites⟩ := hwrites
  obtain ⟨regions, hregions, -⟩ := h.exists_regions hparse
  obtain ⟨tag, htag, -⟩ := Region.exists_resourceTag hregions
  obtain ⟨i, he⟩ := List.getElem?_of_mem he
  obtain ⟨new, e', he', hnewTag, hresource, hother⟩ := h.newTag hparse htag he
  have hset {name set : Text} (hname : Html.IsAsciiName name) (hset : c ∈ set)
      (heq : secured (anchored new e) = e.setAttribute name set) : c ∈ w.serialize := by
    rw [heq] at hnewTag
    exact Html.Document.mem_serialize (List.mem_of_getElem? he')
      (.inl ⟨_, hnewTag, mem_startText_setAttribute hc hname hset⟩)
  rcases hwrites with ⟨tag', reference, htag', hname, hvalue, hrelative, rfl⟩ |
    ⟨name, hname, hvalue, hlacks⟩
  · cases htag.symm.trans htag'
    have hcanonical := hresource hname
    rw [hvalue, Option.getD_some] at hcanonical
    obtain ⟨-, -, rfl⟩ | ⟨hnot, -⟩ := canonical?_eq_ok hcanonical
    · exact hset isAsciiName_src hmem (secured_of_other fun h => hsecured tag htag (hname ▸ h))
    · exact absurd hrelative hnot
  · have hnone : new = none := hother fun heq =>
      hsecured tag htag (heq ▸ List.mem_map_of_mem (f := Prod.fst) hname)
    have hscheme : secured (anchored new e) = e.setAttribute name ("https:".toList ++ value) := by
      rw [hnone, anchored, secured_of_mem hname, withScheme, hvalue]
      exact if_pos hlacks
    exact hset (isAsciiName_of_secured hname) (List.mem_append_right _ hmem) hscheme

end Documents

-- ---------------------------------------------------------------------------
-- Pages inside of pages
-- ---------------------------------------------------------------------------

section Compiled

variable {env : Environment σ} {outer : Sheet} {s s' : Session σ} {out : Output} {c : Char}
  (hc : BeyondAscii c)
  (h : (compile env ⟨defaultLookup σ, outer.rules⟩ outer.markup outer.path).Yields s out s')

include hc h

/-- With the compilers that a site has by default, the characters of what is written are those of the
markup, and of references that are written into the page or a page inside of it. -/
theorem of_mem_compile (hmem : c ∈ out.code) :
    c ∈ outer.markup ∨ ∃ page value, Sheet.Within (defaultLookup σ) env.settings.rules outer page ∧
      page.Writes env.workingDirectory value ∧ c ∈ value := by
  induction hn : outer.markup.length using Nat.strongRecOn generalizing outer s s' out with
  | ind n ih =>
    subst hn
    obtain ⟨turns, w, hleaves, rfl⟩ := exists_leaves h
    rcases hleaves.of_mem_serialize hc hmem with hmem | ⟨value, hwrites, hmem⟩ | ⟨r, made, hturn, hmem⟩
    · exact .inl hmem
    · exact .inr ⟨outer, value, .refl, hwrites, hmem⟩
    · obtain ⟨d, hparse⟩ := hleaves.exists_parse
      obtain ⟨regions, hregions, -⟩ := hleaves.exists_regions hparse
      obtain ⟨hr, hsome⟩ := hleaves.mem_of_turn hparse hregions hturn
      obtain ⟨-, _, _, -, -, hturns, -⟩ := hleaves
      obtain ⟨s₂, hstandard⟩ := exists_standardTurn hturns hturn
      have hcontent := content_isInfix hparse hregions hr
      cases hstandard with
      | same _ _ hsame => exact .inl (hcontent.subset (hsame ▸ hmem))
      | page hpage hcompile =>
        have hlt := Region.length_content_lt hregions hr
        rw [markup_of_parse hparse] at hlt
        let inner : Sheet := ⟨env.settings.rules, r.content, identityOf outer.path r⟩
        have hholds : Sheet.Holds (defaultLookup σ) env.settings.rules outer inner :=
          Sheet.holds_of_isPage hparse hregions hr hsome hpage
        have hinner : (compile env ⟨defaultLookup σ, inner.rules⟩ inner.markup inner.path).Yields
          s₂ _ _ := hcompile
        obtain hmem | ⟨page, value, hwithin, hwrites⟩ := ih _ hlt hinner hmem rfl
        · exact .inl (hcontent.subset hmem)
        · exact .inr ⟨page, value, .head hholds hwithin, hwrites⟩

/-- Where resource elements are neither links nor scripts, a reference that is written into the page
or a page inside of it comes out with all its characters. -/
theorem mem_compile_of_writes {page : Sheet}
    (hwithin : Sheet.Within (defaultLookup σ) env.settings.rules outer page)
    (hsecured : ∀ rules ∈ [outer.rules, env.settings.rules], ∀ tag, rules.resourceTag = .fit tag →
      Text.lower tag ∉ securedAttributes.map Prod.fst) {value : Text}
    (hwrites : page.Writes env.workingDirectory value) (hmem : c ∈ value) : c ∈ out.code := by
  induction hwithin using Relation.ReflTransGen.head_induction_on generalizing s s' out with
  | refl =>
    obtain ⟨turns, w, hleaves, rfl⟩ := exists_leaves h
    exact hleaves.mem_serialize_of_writes hc (hsecured _ List.mem_cons_self) hwrites hmem
  | head hholds _ ih =>
    obtain ⟨turns, w, hleaves, rfl⟩ := exists_leaves h
    obtain ⟨d, regions, r, type, name, hparse, hregions, hr, hsome, htype, hfind, -, rfl⟩ := hholds
    obtain ⟨regions', hregions', hfst⟩ := hleaves.exists_regions hparse
    cases hregions.symm.trans hregions'
    have hr : r ∈ turns.map Prod.fst :=
      hfst ▸ List.mem_filter.2 ⟨mem_codeRegions.2 hr, hsome⟩
    obtain ⟨⟨r, made⟩, hturn, rfl⟩ := List.mem_map.1 hr
    have hturns := hleaves
    obtain ⟨-, _, _, -, -, hturns, -⟩ := hturns
    obtain ⟨s₂, hstandard⟩ := exists_standardTurn hturns hturn
    cases hstandard with
    | unsupported htype' hfind' =>
      cases htype.symm.trans htype'
      cases hfind.symm.trans hfind'
    | same htype' hfind' _ =>
      cases htype.symm.trans htype'
      cases hfind.symm.trans hfind'
    | page hpage hcompile =>
      refine hleaves.mem_serialize_of_turn hc hturn (ih hcompile ?_)
      exact List.forall_mem_cons.2 ⟨hsecured _ (List.mem_cons_of_mem _ List.mem_cons_self),
        (List.forall_mem_cons.1 hsecured).2⟩

end Compiled

end Page

end PageSplice
