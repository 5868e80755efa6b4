-- SUMMARY: End tags in edited markup: changes to elements bring none in but those of the new bodies.
import PageSplice.Proofs.Html.Rereading

/-!
# End tags in edited markup

Markup that is put into a script or style must not hold an end tag of it. An end
tag begins with a less-than sign and ends with a greater-than sign, and has no
other of either. So where one text ends with a tag, or the next one begins with
one, the two texts hold no end tag together that neither of them holds.
-/

namespace PageSplice.Html

-- ---------------------------------------------------------------------------
-- Texts that meet
-- ---------------------------------------------------------------------------

section Meeting

variable {raw : RawElement} {gap tag s t : Text}

/-- Between its first two characters and its last one, an end tag has letters and white space. -/
theorem IsEndTag.exists_inner (h : IsEndTag raw.name gap tag) :
    ∃ inner, tag = '<' :: '/' :: (inner ++ ['>']) ∧
      ∀ c ∈ inner, Text.isBlank c = true ∨ c.isAlpha = true := by
  obtain ⟨word, trail, rfl, hgap, htrail, hname⟩ := h
  refine ⟨gap ++ (word ++ trail), by simp, fun c hc => ?_⟩
  rcases List.mem_append.1 hc with hc | hc
  · exact .inl (hgap c hc)
  · rcases List.mem_append.1 hc with hc | hc
    · have hmem : c.toLower ∈ raw.name := hname ▸ List.mem_map_of_mem hc
      exact .inr (isAlpha_of_toLower (name_isAlpha raw _ hmem))
    · exact .inl (htrail c hc)

theorem not_holdsEndTag_of_not_mem {c : Char} (hc : c = '<' ∨ c = '>') (h : c ∉ s) :
    ¬ HoldsEndTag raw.name s := by
  rintro ⟨gap, tag, htag, hinside⟩
  obtain ⟨inner, rfl, -⟩ := htag.exists_inner
  refine h (hinside.subset ?_)
  rcases hc with rfl | rfl
  · exact List.mem_cons_self
  · simp

/-- An end tag across the border of two texts is in one of them where a tag ends or begins there. -/
theorem HoldsEndTag.of_append (hborder : s.getLast? = some '>' ∨ t.head? = some '<')
    (h : HoldsEndTag raw.name (s ++ t)) : HoldsEndTag raw.name s ∨ HoldsEndTag raw.name t := by
  obtain ⟨gap, tag, htag, hinside⟩ := h
  obtain ⟨inner, hshape, hinner⟩ := htag.exists_inner
  have hnot {c : Char} (hblank : Text.isBlank c = false) (hc : c.isAlpha = false) : c ∉ inner := by
    intro hmem
    rcases hinner c hmem with h | h
    · cases hblank.symm.trans h
    · cases hc.symm.trans h
  rcases List.infix_append_iff.1 hinside with hs | ht | ⟨front, back, hsplit, hfront, hback⟩
  · exact .inl ⟨gap, tag, htag, hs⟩
  · exact .inr ⟨gap, tag, htag, ht⟩
  · cases front with
    | nil =>
      rw [List.nil_append] at hsplit
      exact .inr ⟨gap, tag, htag, (hsplit ▸ hback).isInfix⟩
    | cons c front =>
      by_cases hnil : back = []
      · rw [hnil, List.append_nil] at hsplit
        exact .inl ⟨gap, tag, htag, (hsplit ▸ hfront).isInfix⟩
      exfalso
      obtain ⟨rfl, htail⟩ := List.cons.inj (hshape.symm.trans hsplit)
      rcases hborder with hlast | hhead
      · -- The last character in front of the border would be inside of the tag.
        obtain ⟨u, rfl⟩ := hfront
        have hmem : '>' ∈ '<' :: '/' :: inner := by
          have hinit : '/' :: inner = front ++ back.dropLast := by
            rw [← List.dropLast_append_of_ne_nil hnil, ← (show _ = front ++ back from htail),
              ← List.cons_append, List.dropLast_concat]
          rw [hinit, ← List.cons_append]
          refine List.mem_append_left _ ?_
          rw [List.getLast?_append, List.getLast?_eq_some_getLast (List.cons_ne_nil _ _)] at hlast
          exact Option.some.inj hlast ▸ List.getLast_mem (List.cons_ne_nil _ _)
        simp [hnot (show Text.isBlank '>' = false by decide) (by decide)] at hmem
      · obtain ⟨d, back, rfl⟩ := List.exists_cons_of_ne_nil hnil
        obtain ⟨u, rfl⟩ := hback
        cases Option.some.inj hhead
        have hmem : '<' ∈ '/' :: (inner ++ ['>']) := htail ▸ List.mem_append_right front List.mem_cons_self
        simp [hnot (show Text.isBlank '<' = false by decide) (by decide)] at hmem

/-- An end tag does not reach over a character that it cannot hold. -/
theorem HoldsEndTag.of_barrier {c : Char} (hblank : Text.isBlank c = false)
    (halpha : c.isAlpha = false) (hless : c ≠ '<') (hslash : c ≠ '/') (hgreater : c ≠ '>')
    (h : HoldsEndTag raw.name (s ++ c :: t)) : HoldsEndTag raw.name s ∨ HoldsEndTag raw.name t := by
  obtain ⟨gap, tag, htag, hinside⟩ := h
  obtain ⟨inner, rfl, hinner⟩ := htag.exists_inner
  have hnot : c ∉ '<' :: '/' :: (inner ++ ['>']) := by
    intro hmem
    simp only [List.mem_cons, List.mem_append, List.not_mem_nil, or_false] at hmem
    rcases hmem with h | h | hmem | h
    · exact hless h
    · exact hslash h
    · rcases hinner c hmem with h | h
      · cases hblank.symm.trans h
      · cases halpha.symm.trans h
    · exact hgreater h
  rcases List.infix_append_iff.1 hinside with hs | ht | ⟨front, back, hsplit, hfront, hback⟩
  · exact .inl ⟨gap, _, htag, hs⟩
  · rcases List.infix_cons_iff.1 ht with hprefix | ht
    · exact absurd (List.cons_prefix_cons.1 hprefix).1.symm hless
    · exact .inr ⟨gap, _, htag, ht⟩
  · cases back with
    | nil =>
      rw [List.append_nil] at hsplit
      exact .inl ⟨gap, _, htag, (hsplit ▸ hfront).isInfix⟩
    | cons d back =>
      obtain ⟨rfl, -⟩ := List.cons_prefix_cons.1 hback
      exact absurd (hsplit ▸ List.mem_append_right front List.mem_cons_self) hnot

/-- A text without a greater-than sign does not complete an end tag. -/
theorem HoldsEndTag.of_append_left (ht : '>' ∉ t) (h : HoldsEndTag raw.name (s ++ t)) :
    HoldsEndTag raw.name s := by
  obtain ⟨gap, tag, htag, hinside⟩ := h
  obtain ⟨inner, hshape, -⟩ := htag.exists_inner
  have hlast : tag.getLast? = some '>' := by
    rw [hshape, ← List.cons_append, ← List.cons_append, List.getLast?_append]
    rfl
  rcases List.infix_append_iff.1 hinside with hs | hinside | ⟨front, back, hsplit, hfront, hback⟩
  · exact ⟨gap, tag, htag, hs⟩
  · exact absurd (hinside.subset (List.mem_of_getLast? hlast)) ht
  · cases hb : back.getLast? with
    | none =>
      rw [List.getLast?_eq_none_iff.1 hb, List.append_nil] at hsplit
      exact ⟨gap, tag, htag, (hsplit ▸ hfront).isInfix⟩
    | some c =>
      rw [hsplit, List.getLast?_append, hb, Option.some_or] at hlast
      cases hlast
      exact absurd (hback.subset (List.mem_of_getLast? hb)) ht

end Meeting

-- ---------------------------------------------------------------------------
-- Start tags
-- ---------------------------------------------------------------------------

theorem getLast?_of_suffix {s rest : Text} (h : rest <:+ s) (hne : rest ≠ []) :
    rest.getLast? = s.getLast? := by
  obtain ⟨before, rfl⟩ := h
  rw [List.getLast?_append, List.getLast?_eq_some_getLast hne, Option.some_or]

theorem getLast?_of_cons {c : Char} {r : Text} (h : (c :: r).getLast? = some '>') (hc : c ≠ '>') :
    r.getLast? = some '>' := by
  cases r with
  | nil => exact absurd (Option.some.inj h) hc
  | cons d r => exact h

theorem dropWhile_ne_nil_of_getLast? {p : Char → Bool} {s : Text} {c : Char}
    (h : s.getLast? = some c) (hc : p c = false) : s.dropWhile p ≠ [] := by
  intro hnil
  have htake : s.takeWhile p = s := by
    have := List.takeWhile_append_dropWhile (p := p) (l := s)
    rwa [hnil, List.append_nil] at this
  cases hc.symm.trans (of_mem_takeWhile c (htake.symm ▸ List.mem_of_getLast? h))

theorem getLast?_dropWhile {p : Char → Bool} {s : Text} {c : Char} (h : s.getLast? = some c)
    (hc : p c = false) : (s.dropWhile p).getLast? = some c :=
  (getLast?_of_suffix (List.dropWhile_suffix p) (dropWhile_ne_nil_of_getLast? h hc)).trans h

/-- A start tag that is read begins with a less-than sign and a letter and ends with a greater-than
sign. -/
theorem exists_source_of_step {last : Bool} {raw : Option RawElement} {s rest : Text} {tag : StartTag}
    (h : step last raw s = .ok (.token (.start tag) rest)) :
    ∃ c inner, tag.source = '<' :: c :: (inner ++ ['>']) ∧ c.isAlpha = true := by
  obtain ⟨rfl, z, rfl, hz⟩ := beginsTag_of_step h
  have hcuts : tag.source ++ rest = '<' :: z := (step_cuts h).2
  obtain ⟨⟨c, r, rfl, hc⟩, tag', rest', hstart⟩ := hz
  rw [step_markup, markupStep?_alpha hc, hstart] at h
  obtain ⟨rfl, rfl⟩ : tag' = tag ∧ rest' = rest := by
    cases h
    exact ⟨rfl, rfl⟩
  obtain ⟨before, hbefore⟩ := (suffix_of_startStep? hstart).trans (StartTag.scanHead_isSuffix _)
  have hsource : tag'.source = '<' :: (before ++ ['>']) := by
    refine (List.append_left_inj _).1 (hcuts.trans ?_)
    rw [← hbefore]
    simp
  cases before with
  | nil =>
    cases hbefore
    exact absurd hc (by decide)
  | cons d before =>
    obtain ⟨rfl, -⟩ := List.cons.inj hbefore
    exact ⟨d, before, hsource, hc⟩

namespace TagText

theorem getLast?_stripQuoted? {s rest : Text} (h : stripQuoted? s = some rest)
    (hlast : s.getLast? = some '>') : rest.getLast? = some '>' := by
  have hsuffix := stripQuoted?_isSuffix h
  by_cases hne : rest = []
  · exfalso
    subst hne
    unfold stripQuoted? at h
    split at h
    · cases h
    · rename_i c r
      split at h
      · rename_i hquote
        split at h
        · cases h
        · rename_i d t hd
          cases h
          -- The text would end with the quote.
          have hstop := List.head?_dropWhile_not (· ≠ c) r
          have hdrop : (r.dropWhile (· ≠ c)).getLast? = some '>' :=
            (getLast?_of_suffix ((List.dropWhile_suffix _).trans (List.suffix_cons c r))
              (hd ▸ List.cons_ne_nil _ _)).trans hlast
          rw [hd] at hstop hdrop
          cases hdrop
          have hc : '>' = c := Decidable.not_not.1 (of_decide_eq_false hstop)
          subst hc
          exact absurd hquote (by decide)
      · cases h
  · exact (getLast?_of_suffix hsuffix hne).trans hlast

theorem getLast?_skipValue {s : Text} (hlast : s.getLast? = some '>') :
    (skipValue s).getLast? = some '>' := by
  have hblank : Text.isBlank '>' = false := by decide
  unfold skipValue
  split
  · rename_i r hr
    have hsigns := getLast?_dropWhile hlast hblank
    rw [hr] at hsigns
    have hvalue := getLast?_dropWhile (getLast?_of_cons hsigns (by decide)) hblank
    dsimp only
    split
    · rename_i rest hquoted
      exact getLast?_stripQuoted? hquoted hvalue
    · split
      · exact getLast?_dropWhile hvalue (by decide)
      · exact hlast
  · exact hlast

/-- The end of a tag stands behind every attribute in it. -/
theorem getLast?_behind {c : Char} {r : Text} (hc : isNameChar c = true)
    (hlast : (c :: r).getLast? = some '>') :
    (skipValue (r.dropWhile isNameChar)).getLast? = some '>' := by
  have hne : c ≠ '>' := by
    rintro rfl
    exact absurd hc (by decide)
  exact getLast?_skipValue (getLast?_dropWhile (getLast?_of_cons hlast hne) (by decide))

/-- What is found of an attribute lies in the text, and the end of a tag behind it. -/
theorem find?_spec {name s here rest : Text} (h : find? name s = some (here, rest)) :
    here <:+ s ∧ rest <:+ here ∧ (s.getLast? = some '>' → rest.getLast? = some '>') := by
  have hbehind (c : Char) (r : Text) : skipValue (r.dropWhile isNameChar) <:+ c :: r :=
    ((skipValue_isSuffix _).trans (List.dropWhile_suffix _)).trans (List.suffix_cons c r)
  fun_induction find? name s with
  | case1 => cases h
  | case2 c r hc after hname =>
    simp only [Option.some.injEq, Prod.mk.injEq] at h
    obtain ⟨rfl, rfl⟩ := h
    exact ⟨List.suffix_refl _, hbehind c r, getLast?_behind hc⟩
  | case3 c r hc after hname ih =>
    obtain ⟨hhere, hrest, hlast⟩ := ih h
    exact ⟨hhere.trans (hbehind c r), hrest, fun h => hlast (getLast?_behind hc h)⟩
  | case4 c r hc ih =>
    obtain ⟨hhere, hrest, hlast⟩ := ih h
    refine ⟨hhere.trans (List.suffix_cons c r), hrest, fun hend => hlast ?_⟩
    cases r with
    | nil =>
      rw [find?_nil] at h
      cases h
    | cons d r => exact hend

theorem isElementChar_of_isAlpha {c : Char} (h : c.isAlpha = true) : isElementChar c = true := by
  have hblank := not_isBlank_of_isAlpha h
  have hne (d : Char) (hd : d.isAlpha = false) : c ≠ d := by
    rintro rfl
    cases hd.symm.trans h
  simp [isElementChar, hblank, hne '/' (by decide), hne '>' (by decide)]

theorem trimRight_cons {p : Char → Bool} {c : Char} (hc : p c = false) (r : Text) :
    Text.trimRight p (c :: r) = c :: Text.trimRight p r := by
  have hcons : [c].dropWhile p = [c] := List.dropWhile_cons_of_neg (by simp [hc])
  unfold Text.trimRight
  rw [List.reverse_cons, List.dropWhile_append, hcons]
  split
  · rename_i hnil
    rw [List.isEmpty_iff.1 hnil]
    rfl
  · rw [List.reverse_append]
    rfl

theorem trimRight_isPrefix (p : Char → Bool) (s : Text) : Text.trimRight p s <+: s := by
  rw [Text.trimRight, ← List.reverse_suffix, List.reverse_reverse]
  exact List.dropWhile_suffix p

/-- A start tag in which an attribute is set is what it was in front of the attribute and behind it,
both within the tag, with the attribute in between. -/
theorem exists_setAttribute_split {name tag : Text} {c : Char} {inner : Text}
    (htag : tag = '<' :: c :: (inner ++ ['>'])) (hc : c.isAlpha = true) (value : Text) :
    ∃ front gap back, setAttribute name value tag =
        front ++ (gap ++ (name ++ '=' :: '"' :: (CharRef.escape value ++ '"' :: back))) ∧
      front <+: tag ∧ front.head? = some '<' ∧ '>' ∉ gap ∧ back <:+ tag ∧
      back.getLast? = some '>' := by
  have hlast : tag.getLast? = some '>' := by
    rw [htag, ← List.cons_append, ← List.cons_append, List.getLast?_append]
    rfl
  unfold setAttribute
  cases hfind : find? name (afterElementName tag) with
  | some found =>
    obtain ⟨here, rest⟩ := found
    have hname : afterElementName tag = (c :: (inner ++ ['>'])).dropWhile isElementChar := by
      rw [htag, afterElementName, List.takeWhile_cons_of_pos (isElementChar_of_isAlpha hc)]
      rfl
    have hafter : afterElementName tag <:+ c :: (inner ++ ['>']) := hname ▸ List.dropWhile_suffix _
    obtain ⟨hhere, hrest, hend⟩ := find?_spec hfind
    obtain ⟨before, hbefore⟩ := hhere.trans hafter
    have htag' : ('<' :: before) ++ here = tag := by rw [htag, List.cons_append, hbefore]
    refine ⟨'<' :: before, [], rest, ?_, ⟨here, htag'⟩, rfl, List.not_mem_nil, ?_, hend ?_⟩
    · have hupTo : Text.upTo tag here = '<' :: before := by
        rw [← htag', Text.upTo, List.length_append, Nat.add_sub_cancel, List.take_left]
      dsimp only
      rw [hupTo, render]
      simp
    · exact (hrest.trans ⟨_, hbefore⟩).trans (htag ▸ List.suffix_cons _ _)
    · rw [hname]
      refine getLast?_dropWhile ?_ (by decide)
      rw [← List.cons_append, List.getLast?_append]
      rfl
  | none =>
    dsimp only
    have hcut : (if Text.endsWith tag "/>".toList then 2 else 1) < tag.length ∧
        0 < (if Text.endsWith tag "/>".toList then 2 else 1) := by
      rw [htag]
      split <;> simp
    generalize (if Text.endsWith tag "/>".toList then 2 else 1) = cut at hcut
    obtain ⟨kept, hkept⟩ : ∃ kept, tag.take (tag.length - cut) = '<' :: kept := by
      obtain ⟨n, hn⟩ := Nat.exists_eq_succ_of_ne_zero (Nat.sub_ne_zero_of_lt hcut.1)
      rw [hn, htag]
      exact ⟨_, rfl⟩
    refine ⟨Text.trimRight Text.isBlank (tag.take (tag.length - cut)), [' '],
      tag.drop (tag.length - cut), ?_, ?_, ?_, by decide, List.drop_suffix _ _, ?_⟩
    · rw [render]
      simp
    · exact (trimRight_isPrefix _ _).trans (List.take_prefix _ _)
    · rw [hkept, trimRight_cons (by decide)]
      rfl
    · refine (getLast?_of_suffix (List.drop_suffix _ _) fun hnil => ?_).trans hlast
      have := List.drop_eq_nil_iff.1 hnil
      omega

theorem less_not_mem_escape (value : Text) : '<' ∉ CharRef.escape value := by
  intro hmem
  obtain ⟨c, -, hc⟩ := List.mem_flatMap.1 hmem
  unfold CharRef.escapeChar at hc
  split at hc
  · exact absurd hc (by decide)
  · split at hc
    · exact absurd hc (by decide)
    · rename_i hless
      split at hc
      · exact absurd hc (by decide)
      · split at hc
        · exact absurd hc (by decide)
        · split at hc
          · exact absurd hc (by decide)
          · exact hless (List.mem_singleton.1 hc).symm

/-- A start tag in which an attribute is set begins and ends as one, and holds no end tag that the
start tag did not hold. -/
theorem setAttribute_spec (raw : RawElement) {name tag : Text} (hname : '>' ∉ name) {c : Char}
    {inner : Text} (htag : tag = '<' :: c :: (inner ++ ['>'])) (hc : c.isAlpha = true) (value : Text) :
    (setAttribute name value tag).head? = some '<' ∧
      (setAttribute name value tag).getLast? = some '>' ∧
      (HoldsEndTag raw.name (setAttribute name value tag) → HoldsEndTag raw.name tag) := by
  obtain ⟨front, gap, back, hset, hfront, hhead, hgap, hback, hlast⟩ :=
    exists_setAttribute_split htag hc value
  have hne : back ≠ [] := by
    rintro rfl
    cases hlast
  have hend : ∀ before, (before ++ back).getLast? = some '>' := fun before =>
    (getLast?_of_suffix (List.suffix_append before back) hne).symm.trans hlast
  rw [hset]
  refine ⟨?_, ?_, fun hholds => ?_⟩
  · rw [List.head?_append, hhead, Option.some_or]
  · have hshape : front ++ (gap ++ (name ++ '=' :: '"' :: (CharRef.escape value ++ '"' :: back))) =
        front ++ (gap ++ (name ++ '=' :: '"' :: (CharRef.escape value ++ ['"']))) ++ back := by simp
    rw [hshape]
    exact hend _
  · have hshape : front ++ (gap ++ (name ++ '=' :: '"' :: (CharRef.escape value ++ '"' :: back))) =
        (front ++ (gap ++ name)) ++ '=' :: ('"' :: CharRef.escape value ++ '"' :: back) := by simp
    rw [hshape] at hholds
    rcases hholds.of_barrier (by decide) (by decide) (by decide) (by decide) (by decide) with h | h
    · refine (h.of_append_left ?_).mono hfront.isInfix
      simp [hgap, hname]
    · rcases h.of_barrier (by decide) (by decide) (by decide) (by decide) (by decide) with h | h
      · refine absurd h (not_holdsEndTag_of_not_mem (.inl rfl) ?_)
        simp [less_not_mem_escape]
      · exact h.mono hback.isInfix

end TagText

-- ---------------------------------------------------------------------------
-- Documents
-- ---------------------------------------------------------------------------

namespace Document

variable {markup : Text} {d d' : Document}

/-- The text in front of all edits is kept. -/
theorem splice_eq_slice_append {edits : List Edit} {i j : Nat} (hij : i ≤ j)
    (hbehind : ∀ edit ∈ edits, j ≤ edit.start) :
    splice markup i edits = Text.slice markup i j ++ splice markup j edits := by
  cases edits with
  | nil => exact (slice_append_drop markup hij).symm
  | cons edit rest =>
    rw [splice, splice, ← Edit.slice_append_slice markup hij (hbehind edit List.mem_cons_self)]
    simp only [List.append_assoc]

theorem slice_isInfix (s : Text) (i j : Nat) : Text.slice s i j <:+: s :=
  (List.drop_suffix _ _).isInfix.trans (List.take_prefix _ _).isInfix

/-- Behind the body of a script or style comes an end tag. -/
theorem head?_drop_bodyEnd (h : parse markup = .ok d) {index : Nat} {e : Element}
    (he : d.elements[index]? = some e) {raw : RawElement} (hraw : RawElement.ofName? e.tag = some raw)
    (hself : e.startTag.selfClosing = false) {stop : Nat} (hstop : e.bodyEnd = some stop) :
    (markup.drop stop).head? = some '<' := by
  obtain ⟨front, last, tail, hplace⟩ := exists_place h he
  obtain ⟨body, closing, _, _, _, _, hsplit, hbody, -, -, hend, -⟩ := hplace.rawBody h hraw hself
  cases hstop.symm.trans hend
  obtain ⟨gap, tag, back, htag, rfl⟩ := hbody.endTag
  obtain ⟨inner, rfl, -⟩ := htag.exists_inner
  rw [markup_of_parse h] at hsplit
  rw [← List.drop_drop, hsplit, List.drop_left]
  rfl

section Written

variable {raw : RawElement} {index : Nat} {e e' : Element}

/-- What is written of a start tag begins and ends as one, and holds no end tag that the markup does
not hold. -/
theorem Changes.startText_spec (hchanges : d.Changes d') (h : parse markup = .ok d) (raw : RawElement)
    (he : d.elements[index]? = some e) (he' : d'.elements[index]? = some e') :
    e'.startText.head? = some '<' ∧ e'.startText.getLast? = some '>' ∧
      (HoldsEndTag raw.name e'.startText → HoldsEndTag raw.name markup) := by
  have hchange := hchanges.element he he'
  obtain ⟨front, last, tail, hplace⟩ := exists_place h he
  obtain ⟨c, inner, hsource, hc⟩ := exists_source_of_step hplace.reaches
  have hinside : e.startTag.source <:+: markup := slice_startTag h he ▸ slice_isInfix _ _ _
  rcases hchange.newTag with ⟨hnone, -⟩ | ⟨name, value, hname, hset, -⟩
  · rw [Element.startText, hnone, Option.getD_none, hchange.startTag]
    refine ⟨?_, ?_, fun hholds => hholds.mono hinside⟩
    · rw [hsource]
      rfl
    · rw [hsource, ← List.cons_append, ← List.cons_append, List.getLast?_append]
      rfl
  · have hgreater : '>' ∉ Text.lower name := fun hmem =>
      absurd (hname.isNameChar '>' hmem) (by decide)
    obtain ⟨hhead, hlast, hholds⟩ := TagText.setAttribute_spec raw hgreater hsource hc value
    rw [Element.startText, hset, Option.getD_some]
    exact ⟨hhead, hlast, fun h => (hholds h).mono hinside⟩

/-- What is written from the offset `start` on holds no end tag that the markup does not hold, and
begins with a less-than sign where the markup does. -/
def WrittenAlike (raw : RawElement) (markup : Text) (start : Nat) (written : Text) : Prop :=
  (HoldsEndTag raw.name written → HoldsEndTag raw.name markup) ∧
    ((markup.drop start).head? = some '<' → written.head? = some '<')

/-- What is written of an element and all behind it, given what is written behind it. -/
theorem Changes.writtenAlike_step (hchanges : d.Changes d') (h : parse markup = .ok d)
    (hbodies : ∀ e' ∈ d'.elements, ∀ body, e'.newBody = some body →
      HoldsEndTag raw.name body → HoldsEndTag raw.name markup)
    (he : d.elements[index]? = some e) (he' : d'.elements[index]? = some e') {start : Nat}
    (hstart : start ≤ e.start)
    (hlater : ∀ start', (∀ i f, index < i → d.elements[i]? = some f → start' ≤ f.start) →
      WrittenAlike raw markup start' (splice markup start' (d'.editsFrom (index + 1)))) :
    WrittenAlike raw markup start (splice markup start (d'.editsFrom index)) := by
  have hchange := hchanges.element he he'
  have hlt := e.start_lt_bodyStart
  have hbehind {i : Nat} {f : Element} (hi : index < i) (hf : d.elements[i]? = some f) :
      e.bodyStart ≤ f.start := bodyStart_le_start h hi he hf
  have hedits : ∀ edit ∈ bodyEditOf e' ++ d'.editsFrom (index + 1), e.bodyStart ≤ edit.start := by
    intro edit hedit
    rcases List.mem_append.1 hedit with hmem | hmem
    · obtain ⟨body, -, rfl⟩ := Option.map_eq_some_iff.1 (Option.mem_toList.1 hmem)
      exact Nat.le_of_eq hchange.bodyStart.symm
    · obtain ⟨i, f, hi, hf, hle⟩ := hchanges.le_of_mem_editsFrom hmem
      exact Nat.le_trans (hbehind hi hf) hle
  -- What is written behind the start tag.
  obtain ⟨back, hback, hholds⟩ : ∃ back,
      splice markup e.bodyStart (bodyEditOf e' ++ d'.editsFrom (index + 1)) = back ∧
        (HoldsEndTag raw.name back → HoldsEndTag raw.name markup) := by
    rcases hchange.newBody with hnone | ⟨body, raw', stop, hbody, hraw, hself, hend, -⟩
    · refine ⟨_, rfl, ?_⟩
      rw [bodyEditOf, hnone]
      exact (hlater e.bodyStart fun i f hi hf => hbehind hi hf).1
    · obtain ⟨hinner, hhead⟩ := hlater stop fun i f hi hf =>
        bodyEnd_le_of_raw h hi he hf (Option.isSome_iff_exists.2 ⟨_, hraw⟩) hend
      refine ⟨body ++ splice markup stop (d'.editsFrom (index + 1)), ?_, fun hholds => ?_⟩
      · rw [bodyEditOf, hbody, hchange.bodyStart, hchange.bodyEnd, hend, Option.map_some,
          Option.toList_some, List.singleton_append, splice]
        simp [Text.slice]
      · rcases hholds.of_append (.inr (hhead (head?_drop_bodyEnd h he hraw hself hend))) with h | h
        · exact hbodies e' (List.mem_of_getElem? he') body hbody h
        · exact hinner h
  obtain ⟨hhead, hlast, htext⟩ := hchanges.startText_spec h raw he he'
  have hwritten : splice markup start (d'.editsFrom index) =
      Text.slice markup start e.start ++ (e'.startText ++ back) := by
    rw [editsFrom_eq he', ← hback]
    cases hnew : e'.newTag with
    | none =>
      have heditsOf : editsOf e' = bodyEditOf e' := by
        rw [editsOf, hnew]
        rfl
      rw [heditsOf, splice_eq_slice_append (Nat.le_trans hstart (Nat.le_of_lt hlt)) hedits,
        Element.startText, hnew, Option.getD_none, hchange.startTag, ← slice_startTag h he,
        ← List.append_assoc, Edit.slice_append_slice markup hstart (Nat.le_of_lt hlt)]
    | some text =>
      have heditsOf : editsOf e' = ⟨e.start, e.bodyStart, text⟩ :: bodyEditOf e' := by
        rw [editsOf, bodyEditOf, hnew, hchange.start, hchange.bodyStart]
        rfl
      rw [heditsOf, List.cons_append, splice, Element.startText, hnew, Option.getD_some,
        List.append_assoc]
  rw [hwritten]
  constructor
  · intro hwhole
    have hborder : (e'.startText ++ back).head? = some '<' := by
      rw [List.head?_append, hhead, Option.some_or]
    rcases hwhole.of_append (.inr hborder) with h | h
    · exact h.mono (slice_isInfix _ _ _)
    · rcases h.of_append (.inl hlast) with h | h
      · exact htext h
      · exact hholds h
  · intro hfirst
    rw [List.head?_append, List.head?_append, hhead, Text.slice, List.drop_take]
    cases hkept : e.start - start with
    | zero => rfl
    | succ n =>
      cases hdrop : markup.drop start with
      | nil =>
        rw [hdrop] at hfirst
        cases hfirst
      | cons c r =>
        rw [hdrop] at hfirst
        exact congrArg (Option.or · _) hfirst

end Written

/-- Changes to the elements of a document bring no end tag into what is written, unless a new body
holds one. -/
theorem Changes.holdsEndTag_serialize (hchanges : d.Changes d') (h : parse markup = .ok d)
    {raw : RawElement} (hbodies : ∀ e' ∈ d'.elements, ∀ body, e'.newBody = some body →
      HoldsEndTag raw.name body → HoldsEndTag raw.name markup)
    (hholds : HoldsEndTag raw.name d'.serialize) : HoldsEndTag raw.name markup := by
  have hmarkup := hchanges.markup.trans (markup_of_parse h)
  -- The `n` elements from `index` on have been written.
  have hall (n index : Nat) (hn : index + n = d.elements.length) (start : Nat)
      (hstart : ∀ i f, index ≤ i → d.elements[i]? = some f → start ≤ f.start) :
      WrittenAlike raw markup start (splice markup start (d'.editsFrom index)) := by
    induction n generalizing index start with
    | zero =>
      rw [editsFrom, List.drop_eq_nil_of_le (hchanges.length ▸ Nat.le_of_eq hn.symm)]
      exact ⟨fun h => h.mono (List.drop_suffix _ _).isInfix, id⟩
    | succ n ih =>
      have hlt : index < d.elements.length := by omega
      have he := List.getElem?_eq_getElem hlt
      exact hchanges.writtenAlike_step h hbodies he
        (List.getElem?_eq_getElem (hchanges.length ▸ hlt)) (hstart index _ (Nat.le_refl _) he)
        fun start' hstart' => ih (index + 1) (by omega) start' hstart'
  refine (hall d.elements.length 0 (Nat.zero_add _) 0 fun _ _ _ _ => Nat.zero_le _).1 ?_
  rw [serialize, edits, hmarkup] at hholds
  exact hholds

end Document

end PageSplice.Html
