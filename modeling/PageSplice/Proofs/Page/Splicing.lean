-- SUMMARY: What a spliced page reads back as, and which compiled code it reads back with.
import PageSplice.Proofs.Html.PlainFront
import PageSplice.Proofs.Html.RawText
import PageSplice.Proofs.Page.Turn
import PageSplice.Proofs.Region
import PageSplice.Proofs.SourceMap.Reference

/-!
# Splicing

Compiled code must not end the element that it is spliced into. Escaping puts
a backslash into an end tag whose name follows the slash, so what is left are
end tags with white space behind the slash: these the parser takes for end
tags, and escaping does not. A page reads back as it was spliced exactly when
the code has no such end tag, and when nothing in front of the element was left
open that the code goes on with.
-/

namespace PageSplice.Page

open Html

-- ---------------------------------------------------------------------------
-- Escaped code
-- ---------------------------------------------------------------------------

/-- Whether code has an end tag of its element with white space in front of the name. -/
def HoldsSpacedEndTag (language : Language) (code : Text) : Prop :=
  ∃ gap tag, gap ≠ [] ∧ IsEndTag language.tag gap tag ∧ tag <:+: code

section EndTag

variable {language : Language} {gap tag : Text}

theorem tag_isAlpha (language : Language) : ∀ c ∈ language.tag, c.isAlpha = true := by
  cases language <;> exact List.all_eq_true.1 (by decide)

theorem not_sameLetter_of_isBlank {letter c : Char} (hletter : letter.isAlpha = true)
    (hc : Text.isBlank c = true) : Text.sameLetter letter c = false := by
  have hne (d : Char) (hd : Text.isBlank d = false) : c ≠ d := by
    rintro rfl
    cases hc.symm.trans hd
  have hlower : c.toLower ≠ letter := by
    rintro rfl
    cases hc.symm.trans (not_isBlank_of_isAlpha (isAlpha_of_toLower hletter))
  simp [Text.sameLetter, hlower, hne '\u017F' (by decide), hne '\u212A' (by decide),
    hne '\u0130' (by decide), hne '\u0131' (by decide)]

/-- An end tag is a less-than sign and a slash, and goes on with other characters. -/
theorem exists_of_endTag (h : IsEndTag language.tag gap tag) :
    ∃ inner, tag = '<' :: '/' :: inner ∧ '<' ∉ inner ∧ '#' ∉ inner ∧ inner.getLast? = some '>' ∧
      ∀ back, (Text.stripWord? language.tag (inner ++ back)).isSome = true ↔ gap = [] := by
  obtain ⟨word, trail, rfl, hgap, htrail, hname⟩ := h
  have halpha : ∀ c ∈ word, c.isAlpha = true := by
    intro c hc
    have hmem : c.toLower ∈ language.tag := hname ▸ List.mem_map_of_mem hc
    exact isAlpha_of_toLower (tag_isAlpha language _ hmem)
  have hnot {c : Char} (hblank : Text.isBlank c = false) (hc : c.isAlpha = false) (hend : c ≠ '>') :
      c ∉ gap ++ (word ++ (trail ++ ['>'])) := by
    intro hmem
    rcases List.mem_append.1 hmem with hmem | hmem
    · cases hblank.symm.trans (hgap c hmem)
    · rcases List.mem_append.1 hmem with hmem | hmem
      · cases hc.symm.trans (halpha c hmem)
      · rcases List.mem_append.1 hmem with hmem | hmem
        · cases hblank.symm.trans (htrail c hmem)
        · exact hend (List.mem_singleton.1 hmem)
  refine ⟨gap ++ (word ++ (trail ++ ['>'])), rfl, hnot (by decide) (by decide) (by decide),
    hnot (by decide) (by decide) (by decide), by simp, fun back => ?_⟩
  rw [List.append_assoc]
  cases gap with
  | nil =>
    rw [List.nil_append, ← hname, List.append_assoc, stripWord?_map_toLower]
    exact ⟨fun _ => rfl, fun _ => rfl⟩
  | cons c r =>
    have hblank := hgap c List.mem_cons_self
    have hstrip (s : Text) : Text.stripWord? language.tag (c :: s) = none := by
      cases htag : language.tag with
      | nil => cases language <;> cases htag
      | cons w ws =>
        have hw := tag_isAlpha language w (htag ▸ List.mem_cons_self)
        rw [Text.stripWord?, if_neg]
        rw [not_sameLetter_of_isBlank hw hblank]
        exact Bool.false_ne_true
    rw [List.cons_append, hstrip]
    exact iff_of_false Bool.false_ne_true (List.cons_ne_nil c r)

end EndTag

/-- Escaping keeps what stands in front of the next less-than sign. -/
theorem prefix_escapeEndTags {language : Language} {p : Text} (hp : '<' ∉ p) (code : Text) :
    p <+: escapeEndTags language code ↔ p <+: code := by
  induction p generalizing code with
  | nil => exact ⟨fun _ => List.nil_prefix, fun _ => List.nil_prefix⟩
  | cons x p ih =>
    have hx : x ≠ '<' := fun h => hp (h ▸ List.mem_cons_self)
    cases code with
    | nil => rfl
    | cons c r =>
      rw [escapeEndTags]
      split
      · rename_i hc
        rw [hc.1, List.cons_prefix_cons, List.cons_prefix_cons]
        exact ⟨fun h => absurd h.1 hx, fun h => absurd h.1 hx⟩
      · rw [List.cons_prefix_cons, List.cons_prefix_cons,
          ih (fun h => hp (List.mem_cons_of_mem x h))]

theorem infix_escapeEndTags {language : Language} {gap tag : Text}
    (h : IsEndTag language.tag gap tag) (code : Text) :
    tag <:+: escapeEndTags language code ↔ gap ≠ [] ∧ tag <:+: code := by
  obtain ⟨inner, rfl, hless, -, -, hstrip⟩ := exists_of_endTag h
  have hslash : '<' ∉ '/' :: inner := by
    intro hmem
    rcases List.mem_cons.1 hmem with heq | hmem
    · cases heq
    · exact hless hmem
  -- An end tag that stands right here is escaped if and only if its name follows the slash.
  have hcloses {r : Text} (hbegins : '/' :: inner <+: r) :
      closesElement language r = true ↔ gap = [] := by
    obtain ⟨back, rfl⟩ := hbegins
    exact hstrip back
  induction code with
  | nil =>
    rw [escapeEndTags, List.infix_nil]
    exact ⟨fun h => (nomatch h), fun h => (nomatch h.2)⟩
  | cons c r ih =>
    rw [escapeEndTags, @List.infix_cons_iff _ _ _ r, List.cons_prefix_cons]
    split
    · rename_i hc
      rw [List.infix_cons_iff, List.infix_cons_iff, List.cons_prefix_cons, List.cons_prefix_cons,
        List.cons_prefix_cons]
      constructor
      · rintro (⟨-, habsurd, -⟩ | ⟨habsurd, -⟩ | hinfix)
        · cases habsurd
        · cases habsurd
        · exact ⟨(ih.1 hinfix).1, .inr (ih.1 hinfix).2⟩
      · rintro ⟨hgap, ⟨-, hbegins⟩ | hinfix⟩
        · exact absurd ((hcloses hbegins).1 hc.2) hgap
        · exact .inr (.inr (ih.2 ⟨hgap, hinfix⟩))
    · rename_i hc
      rw [List.infix_cons_iff, List.cons_prefix_cons, prefix_escapeEndTags hslash]
      constructor
      · rintro (⟨rfl, hbegins⟩ | hinfix)
        · exact ⟨fun hgap => hc ⟨rfl, (hcloses hbegins).2 hgap⟩, .inl ⟨rfl, hbegins⟩⟩
        · exact ⟨(ih.1 hinfix).1, .inr (ih.1 hinfix).2⟩
      · rintro ⟨hgap, hhere | hinfix⟩
        · exact .inl hhere
        · exact .inr (ih.2 ⟨hgap, hinfix⟩)

/-- Of the end tags of its element, escaped code has those with white space behind the slash. -/
theorem holdsEndTag_escapeEndTags (language : Language) (code : Text) :
    HoldsEndTag language.tag (escapeEndTags language code) ↔ HoldsSpacedEndTag language code := by
  constructor
  · rintro ⟨gap, tag, htag, hinfix⟩
    obtain ⟨hgap, hinfix⟩ := (infix_escapeEndTags htag code).1 hinfix
    exact ⟨gap, tag, hgap, htag, hinfix⟩
  · rintro ⟨gap, tag, hgap, htag, hinfix⟩
    exact ⟨gap, tag, htag, (infix_escapeEndTags htag code).2 ⟨hgap, hinfix⟩⟩

-- ---------------------------------------------------------------------------
-- New bodies
-- ---------------------------------------------------------------------------

/-- What follows code in a comment makes no end tag. -/
theorem holdsEndTag_append {language : Language} {front back : Text} (hfront : '<' ∉ front)
    (hclose : '>' ∉ front) (hback : '<' ∉ back) (code : Text) :
    HoldsEndTag language.tag (code ++ (front ++ '#' :: back)) ↔ HoldsEndTag language.tag code := by
  have hless : '<' ∉ front ++ '#' :: back := by
    simp [hfront, hback]
  constructor
  · rintro ⟨gap, tag, htag, u, v, heq⟩
    refine ⟨gap, tag, htag, ?_⟩
    obtain ⟨inner, rfl, -, hhash, hlast, -⟩ := exists_of_endTag htag
    rcases List.append_eq_append_iff.1 heq with ⟨x, rfl, -⟩ | ⟨x, hx, hrest⟩
    · exact (List.infix_append u _ x)
    · -- What of the tag stands behind the code would begin with the comment.
      have hx' : '<' ∉ x := fun hmem => hless (hrest ▸ List.mem_append_left v hmem)
      rcases List.append_eq_append_iff.1 hx with ⟨y, rfl, htail⟩ | ⟨y, -, rfl⟩
      · by_cases hnil : x = []
        · subst hnil
          rw [List.append_nil] at htail
          rw [← htail]
          exact List.infix_append_right
        · exfalso
          have hmem : '>' ∈ x := by
            have hwhole : ('<' :: '/' :: inner).getLast? = some '>' := by
              rw [List.getLast?_cons, List.getLast?_cons, hlast]
              rfl
            rw [htail, List.getLast?_append, List.getLast?_eq_some_getLast hnil] at hwhole
            exact Option.some.inj hwhole ▸ List.getLast_mem hnil
          have hhash' : '#' ∉ x := by
            intro hmem
            have hmem : '#' ∈ '<' :: '/' :: inner := htail ▸ List.mem_append_right y hmem
            simp [hhash] at hmem
          rcases List.append_eq_append_iff.1 hrest with ⟨z, rfl, hz⟩ | ⟨z, rfl, -⟩
          · cases z with
            | nil => exact hclose (List.append_nil front ▸ hmem)
            | cons c r =>
              obtain ⟨rfl, -⟩ := List.cons.inj hz
              exact hhash' (List.mem_append_right front List.mem_cons_self)
          · exact hclose (List.mem_append_left z hmem)
      · exact absurd (List.mem_append_right y List.mem_cons_self) hx'
  · exact fun h => h.mono (List.prefix_append code _).isInfix

theorem exists_comment (style : SourceMap.CommentStyle) (map : SourceMap) :
    ∃ front back, SourceMap.comment style map = front ++ '#' :: back ∧ '<' ∉ front ∧ '>' ∉ front ∧
      '<' ∉ back := by
  obtain ⟨opener, close, hopener, hclose, heq⟩ := SourceMap.comment_eq style map
  have hurl : '<' ∉ SourceMap.dataUrl map := SourceMap.not_mem_dataUrl (by decide) (by decide) map
  have hkey : '<' ∉ SourceMap.referenceKey := by decide
  refine ⟨['/', opener], _, heq, ?_, ?_, ?_⟩
  · rcases hopener with rfl | rfl <;> decide
  · rcases hopener with rfl | rfl <;> decide
  · rcases hclose with rfl | rfl <;> simp [hkey, hurl]

theorem holdsEndTag_attach (language : Language) (style : SourceMap.CommentStyle) (map : SourceMap)
    (code : Text) :
    HoldsEndTag language.tag (SourceMap.attach style map code) ↔ HoldsEndTag language.tag code := by
  unfold SourceMap.attach
  split
  · rfl
  · obtain ⟨front, back, hcomment, hfront, hclose, hback⟩ := exists_comment style map
    have hseparator : ∀ c ∈ (if Text.endsWith code ['\n'] then [] else ['\n'] : Text), c = '\n' := by
      intro c hc
      split at hc
      · cases hc
      · exact List.mem_singleton.1 hc
    dsimp only
    generalize (if Text.endsWith code ['\n'] then [] else ['\n'] : Text) = separator at hseparator
    have hshape : code ++ separator ++ SourceMap.comment style map ++ ['\n'] =
        code ++ ((separator ++ front) ++ '#' :: (back ++ ['\n'])) := by
      rw [hcomment]
      simp
    rw [hshape]
    refine holdsEndTag_append ?_ ?_ ?_ code
    · intro hmem
      rcases List.mem_append.1 hmem with hmem | hmem
      · cases hseparator _ hmem
      · exact hfront hmem
    · intro hmem
      rcases List.mem_append.1 hmem with hmem | hmem
      · cases hseparator _ hmem
      · exact hclose hmem
    · simp [hback]

/-- Of the end tags of its element, a new body has those of the code with white space behind the
slash. -/
theorem holdsEndTag_bodyFor (rules : RegionRules) (r : CodeRegion) (identity : Text)
    (made : Output) :
    HoldsEndTag r.language.tag (bodyFor rules r identity made) ↔
      HoldsSpacedEndTag r.language made.code := by
  unfold bodyFor
  dsimp only
  split
  · exact holdsEndTag_escapeEndTags r.language made.code
  · rw [holdsEndTag_attach]
    exact holdsEndTag_escapeEndTags r.language made.code

-- ---------------------------------------------------------------------------
-- Spliced pages
-- ---------------------------------------------------------------------------

theorem exists_raw {tag : Text} {language : Language} (h : Language.ofTag? tag = some language) :
    ∃ raw, RawElement.ofName? tag = some raw ∧ raw.name = language.tag := by
  unfold Language.ofTag? at h
  split at h
  · rename_i htag
    cases h
    exact ⟨.script, if_pos htag, rfl⟩
  · rename_i hscript
    split at h
    · rename_i htag
      cases h
      exact ⟨.style, (if_neg hscript).trans (if_pos htag), rfl⟩
    · cases h

/-- A code region is a script or style with an end tag of its own and a body in front of it. -/
theorem exists_of_code {markup : Text} {d : Document} (h : Document.parse markup = .ok d)
    {rules : RegionRules} {regions : List Region} (hregions : Region.ofDocument rules d = .ok regions)
    {r : CodeRegion} (hr : .code r ∈ regions) :
    ∃ e raw stop, d.elements[r.element]? = some e ∧ RawElement.ofName? e.tag = some raw ∧
      raw.name = r.language.tag ∧ e.startTag.selfClosing = false ∧ e.bodyEnd = some stop ∧
      e.bodyStart < stop := by
  obtain ⟨e, he, hlanguage, -, hblank⟩ := Region.of_mem_code hregions hr
  obtain ⟨raw, hraw, hname⟩ := exists_raw hlanguage
  have hbody : d.body e ≠ [] := by
    intro hnil
    rw [hnil] at hblank
    cases hblank
  cases hend : e.bodyEnd with
  | none =>
    rw [Document.body, hend] at hbody
    exact absurd rfl hbody
  | some stop =>
    have hlt : e.bodyStart < stop := by
      have hpos := List.length_pos_iff.2 hbody
      rw [Document.body, hend] at hpos
      dsimp only at hpos
      rw [Text.length_slice] at hpos
      omega
    refine ⟨e, raw, stop, he, hraw, hname, ?_, hend, hlt⟩
    cases hself : e.startTag.selfClosing with
    | false => rfl
    | true =>
      have hsame := Document.bodyEnd_of_selfClosing h he hself
      cases hend.symm.trans hsame
      exact absurd hlt (Nat.lt_irrefl _)

/-- Splicing a region yields the page in which the region's body has given way to the new one. The
page reads back with the same elements, the new body in its element and all other texts as they
were, exactly when it is read as before up to the element and the code holds no end tag of the
element with white space behind the slash. Behind plain tags it is always read as before. -/
theorem parse_splice {σ : Type} {markup : Text} {d : Document} (h : Document.parse markup = .ok d)
    {rules : RegionRules} {regions : List Region} (hregions : Region.ofDocument rules d = .ok regions)
    {r : CodeRegion} (hr : .code r ∈ regions) (identity : Text) (made : Output) (s : Session σ) :
    let body := bodyFor rules r identity made
    ∃ e stop d' s', d.elements[r.element]? = some e ∧ e.bodyEnd = some stop ∧
      (splice rules d r identity made).Yields s d' s' ∧
      (d.ReadsBackWithBody d'.serialize r.element e stop body ↔
        d.Continues d'.serialize r.element e.startTag ∧
          ¬ HoldsSpacedEndTag r.language made.code) ∧
      (d.PlainUpTo r.element → (d.ReadsBackWithBody d'.serialize r.element e stop body ↔
        ¬ HoldsSpacedEndTag r.language made.code)) := by
  obtain ⟨e, raw, stop, he, hraw, hname, hself, hend, hlt⟩ := exists_of_code h hregions hr
  have hleaf := Document.hasChildren_of_raw h he hraw hself
  have hstart := Document.bodyStart_le_length h he
  generalize hbody : bodyFor rules r identity made = body
  have hholds := holdsEndTag_bodyFor rules r identity made
  rw [hbody, ← hname] at hholds
  have hset : d.setBody r.element body =
      .ok { d with elements := d.elements.modify r.element fun e => { e with newBody := some body } } := by
    simp only [Document.setBody, he, Element.isClosed, hend, hleaf]
    rfl
  have hedits : Document.editsOf { e with newBody := some body } = [⟨e.bodyStart, stop, body⟩] := by
    obtain ⟨-, htag, -⟩ := Document.isUnchanged_of_parse h e (List.mem_of_getElem? he)
    simp only [Document.editsOf, htag, hend]
    rfl
  have hserialize := Document.serialize_modify h he
    (f := fun e => { e with newBody := some body }) hedits
  have hyields : (splice rules d r identity made).Yields s
      { d with elements := d.elements.modify r.element fun e => { e with newBody := some body } }
      (Build.noted .debug .page (compiledNote identity body) s) := by
    rw [splice, hbody]
    exact Build.yields_bind.2 ⟨_, s, Build.yields_ofExcept.2 ⟨hset, rfl⟩, Build.yields_bind.2
      ⟨(), _, Build.yields_log.2 rfl, Build.yields_pure.2 ⟨rfl, rfl⟩⟩⟩
  have hexact := Document.readsBackWithBody_iff h he hraw hself hend hlt body
  rw [← hserialize, hholds] at hexact
  refine ⟨e, stop, _, _, he, hend, hyields, hexact, fun hplain => hexact.trans (and_iff_right ?_)⟩
  rw [hserialize, ← Document.markup_of_parse h]
  exact hplain.continues_apply h he (Nat.le_refl _) hstart

theorem parse_splice_endTag :
    let rules : RegionRules := { minLength := .fit 13 }
    let made : Output := ⟨"'</script>'".toList, "text/javascript".toList, none⟩
    ∃ d regions r, Document.parse "<p><script>alert(document)</script></p>".toList = .ok d ∧
      Region.ofDocument rules d = .ok regions ∧ .code r ∈ regions ∧ d.PlainUpTo r.element ∧
      ∃ d' s' d'', (splice rules d r "/a.js".toList made).Yields (⟨(), []⟩ : Session Unit) d' s' ∧
        Document.parse d'.serialize = .ok d'' ∧
        d''.elements[r.element]?.map d''.text = some "'<\\/script>'".toList := by
  intro rules made
  let p : Element := ⟨⟨"p>".toList, "p".toList, [], false⟩, 0, some 35, true, [], none, none⟩
  let script : Element :=
    ⟨⟨"script>".toList, "script".toList, [], false⟩, 3, some 26, false, [], none, none⟩
  let d : Document := ⟨"<p><script>alert(document)</script></p>".toList, [p, script]⟩
  let r : CodeRegion := ⟨.script, 1, 0, none, some (.fit "text/javascript".toList),
    "alert(document)".toList⟩
  have hparse : Document.parse "<p><script>alert(document)</script></p>".toList = .ok d :=
    eq_ok_of_toOption (by decide +kernel)
  have hregions : Region.ofDocument rules d = .ok [.code r] := eq_ok_of_toOption (by decide +kernel)
  have hbody : bodyFor rules r "/a.js".toList made = "'<\\/script>'".toList := by decide +kernel
  have hp : p.startTag.IsPlain := StartTag.isPlain_of_name (c := 'p') (r := []) rfl rfl rfl rfl
  have hscript : script.startTag.IsPlain :=
    StartTag.isPlain_of_name (c := 's') (r := "cript".toList) rfl rfl rfl rfl
  have hplain : d.PlainUpTo 1 := by
    refine Document.plainUpTo_of_forall (List.forall_mem_cons.2 ⟨⟨hp, ?_⟩,
      List.forall_mem_singleton.2 ⟨hscript, ?_⟩⟩) 1
    all_goals decide +kernel
  have hspaced : ¬ HoldsSpacedEndTag r.language made.code := by
    rintro ⟨gap, tag, hgap, ⟨word, trail, rfl, hblank, -⟩, hinfix⟩
    obtain ⟨c, gap, rfl⟩ := List.exists_cons_of_ne_nil hgap
    have hnone : made.code.any Text.isBlank = false := by decide
    have hmem := hinfix.subset (List.mem_cons_of_mem '<' (List.mem_cons_of_mem '/'
      (List.mem_append_left (word ++ (trail ++ ['>'])) (List.mem_cons_self (a := c) (l := gap)))))
    exact List.any_eq_false.1 hnone c hmem (hblank c List.mem_cons_self)
  obtain ⟨e, stop, d', s', -, -, hyields, -, hiff⟩ := parse_splice hparse hregions
    List.mem_cons_self "/a.js".toList made (⟨(), []⟩ : Session Unit)
  obtain ⟨d'', hread, -, htext⟩ := (hiff hplain).2 hspaced
  exact ⟨d, _, r, hparse, hregions, List.mem_cons_self, hplain, d', s', d'', hyields, hread,
    hbody ▸ htext⟩

end PageSplice.Page
