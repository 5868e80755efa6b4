-- SUMMARY: Raw text: the first end tag of its element ends it, and nothing else in it is markup.
import PageSplice.Proofs.Html.Relocation

/-!
# Raw text

The body of a script or style goes on up to the first end tag of the element.
An end tag that matches only because letters outside ASCII fold to letters of
the name ends nothing. So the body of such an element is a text that holds no
end tag of the element, and every such text can be one.
-/

namespace PageSplice.Html

-- ---------------------------------------------------------------------------
-- End tags
-- ---------------------------------------------------------------------------

/-- Whether `tag` is an end tag of a raw text element called `name`, with the white space `gap` in
front of the name. -/
def IsEndTag (name gap tag : Text) : Prop :=
  ∃ word trail, tag = '<' :: '/' :: (gap ++ (word ++ (trail ++ ['>']))) ∧
    (∀ c ∈ gap, Text.isBlank c = true) ∧ (∀ c ∈ trail, Text.isBlank c = true) ∧
    word.map Char.toLower = name

/-- Whether an end tag of a raw text element called `name` stands somewhere in `s`. -/
def HoldsEndTag (name s : Text) : Prop := ∃ gap tag, IsEndTag name gap tag ∧ tag <:+: s

theorem not_isPlainNameChar_of_isBlank {c : Char} (h : Text.isBlank c = true) :
    isPlainNameChar c = false := by
  have hne (d : Char) (hd : Text.isBlank d = false) : c ≠ d := by
    rintro rfl
    cases h.symm.trans hd
  simp [isPlainNameChar, not_isAlphanum_of_isBlank h, hne '-' (by decide), hne '.' (by decide),
    hne ':' (by decide), hne '_' (by decide)]

theorem isPlainNameChar_of_isAlpha {c : Char} (h : c.isAlpha = true) :
    isPlainNameChar c = true := by
  simp [isPlainNameChar, Char.isAlphanum, h]

theorem name_isAlpha (raw : RawElement) : ∀ c ∈ raw.name, c.isAlpha = true := by
  cases raw <;> exact List.all_eq_true.1 (by decide)

/-- The names of plain end tags as texts: what `plainCloseName?` accepts is an end tag. -/
theorem exists_endTag_of_plainCloseName? {s name : Text} (h : plainCloseName? s = some name) :
    ∃ gap tag back, IsEndTag name gap tag ∧ '<' :: '/' :: s = tag ++ back := by
  unfold plainCloseName? at h
  simp only at h
  split at h
  · rename_i hplain
    rw [Bool.and_eq_true] at hplain
    obtain ⟨back, hback⟩ := Option.isSome_iff_exists.1 hplain.2
    unfold blanksThenClose? at hback
    split at hback
    · rename_i back' hdrop
      have hgap := List.takeWhile_append_dropWhile (p := Text.isBlank) (l := s)
      have hword := List.takeWhile_append_dropWhile (p := isPlainNameChar)
        (l := s.dropWhile Text.isBlank)
      have htrail := List.takeWhile_append_dropWhile (p := Text.isBlank)
        (l := (s.dropWhile Text.isBlank).dropWhile isPlainNameChar)
      refine ⟨_, _, back', ⟨(s.dropWhile Text.isBlank).takeWhile isPlainNameChar,
        ((s.dropWhile Text.isBlank).dropWhile isPlainNameChar).takeWhile Text.isBlank, rfl,
        of_mem_takeWhile (s := s), of_mem_takeWhile, Option.some.inj h⟩, ?_⟩
      rw [hdrop] at htrail
      simp only [List.cons_append, List.append_assoc, List.nil_append, htrail, hword, hgap]
    · cases hback
  · cases h

theorem stripWord?_map_toLower (word s : Text) :
    Text.stripWord? (word.map Char.toLower) (word ++ s) = some s := by
  induction word with
  | nil => rfl
  | cons c r ih =>
    rw [List.map_cons, List.cons_append, Text.stripWord?, if_pos, ih]
    simp [Text.sameLetter]

/-- An end tag of a raw text element is one to both of the parser's tests. -/
theorem IsEndTag.closes {raw : RawElement} {gap tag : Text} (h : IsEndTag raw.name gap tag)
    (back : Text) :
    startsRawEnd raw (tag ++ back) = true ∧
      plainCloseName? ((tag ++ back).drop 2) = some raw.name := by
  obtain ⟨word, trail, rfl, hgap, htrail, hname⟩ := h
  have halpha : ∀ c ∈ word, c.isAlpha = true := by
    intro c hc
    have hmem : c.toLower ∈ raw.name := hname ▸ List.mem_map_of_mem hc
    exact isAlpha_of_toLower (name_isAlpha raw _ hmem)
  obtain ⟨first, letters, rfl⟩ : ∃ first letters, word = first :: letters := by
    cases word with
    | nil => cases raw <;> cases hname
    | cons first letters => exact ⟨first, letters, rfl⟩
  have hfirst := halpha first List.mem_cons_self
  have hshape : '<' :: '/' :: (gap ++ (first :: letters ++ (trail ++ ['>']))) ++ back =
      '<' :: '/' :: (gap ++ (first :: letters ++ (trail ++ '>' :: back))) := by
    simp
  have hskip : (gap ++ (first :: letters ++ (trail ++ '>' :: back))).dropWhile Text.isBlank =
      first :: letters ++ (trail ++ '>' :: back) := by
    rw [List.dropWhile_append_of_pos hgap, List.cons_append,
      List.dropWhile_cons_of_neg (by simp [not_isBlank_of_isAlpha hfirst])]
  have hclose : blanksThenClose? (trail ++ '>' :: back) = some back := by
    unfold blanksThenClose?
    rw [List.dropWhile_append_of_pos htrail]
    rfl
  have hstop : (trail ++ '>' :: back).dropWhile isPlainNameChar = trail ++ '>' :: back ∧
      (trail ++ '>' :: back).takeWhile isPlainNameChar = [] := by
    cases trail with
    | nil => exact ⟨rfl, rfl⟩
    | cons c r =>
      have hc := not_isPlainNameChar_of_isBlank (htrail c List.mem_cons_self)
      exact ⟨List.dropWhile_cons_of_neg (by simp [hc]), List.takeWhile_cons_of_neg (by simp [hc])⟩
  have hplain : ∀ c ∈ first :: letters, isPlainNameChar c = true :=
    fun c hc => isPlainNameChar_of_isAlpha (halpha c hc)
  have hstrip : Text.stripWord? raw.name (first :: letters ++ (trail ++ '>' :: back)) =
      some (trail ++ '>' :: back) := by
    rw [← hname]
    exact stripWord?_map_toLower _ _
  rw [hshape]
  constructor
  · simp only [startsRawEnd, hskip, hstrip, hclose]
    rfl
  · simp only [List.drop_succ_cons, List.drop_zero, plainCloseName?, hskip,
      List.dropWhile_append_of_pos hplain, List.takeWhile_append_of_pos hplain, hstop, hclose]
    simp [hfirst, hname]

-- ---------------------------------------------------------------------------
-- Reading raw text
-- ---------------------------------------------------------------------------

theorem HoldsEndTag.mono {name s t : Text} (h : HoldsEndTag name s) (hst : s <:+: t) :
    HoldsEndTag name t := by
  obtain ⟨gap, tag, htag, hinfix⟩ := h
  exact ⟨gap, tag, htag, hinfix.trans hst⟩

theorem holdsEndTag_of_plainCloseName? {name s : Text} (h : plainCloseName? s = some name) :
    HoldsEndTag name ('<' :: '/' :: s) := by
  obtain ⟨gap, tag, back, htag, heq⟩ := exists_endTag_of_plainCloseName? h
  exact ⟨gap, tag, htag, heq ▸ (List.prefix_append tag back).isInfix⟩

theorem rawEnd?_append_end {raw : RawElement} {z : Text} (hz : startsRawEnd raw ('<' :: z) = true)
    (s : Text) : rawEnd? raw (s ++ '<' :: z) =
      ((rawEnd? raw s).map (· ++ '<' :: z)).or (some ('<' :: z)) := by
  unfold rawEnd?
  induction s with
  | nil =>
    have hsearch (m : Text → Option Text) :
        Text.search m ('<' :: z) = (m ('<' :: z)).or (Text.search m z) := rfl
    rw [List.nil_append, hsearch, if_pos hz, Option.some_or]
    rfl
  | cons c r ih =>
    have hstarts := startsRawEnd_append_tag raw (List.cons_ne_nil c r) z
    rw [List.cons_append] at hstarts
    rw [List.cons_append, Text.search, Text.search, hstarts, ih]
    cases startsRawEnd raw (c :: r) <;> simp

/-- Whether tokens open and close nothing. -/
def AllInert (tokens : List Token) : Prop := ∀ t ∈ tokens, ∃ source, t = .inert source

theorem AllInert.cons {tokens : List Token} (h : AllInert tokens) (source : Text) :
    AllInert (.inert source :: tokens) := by
  intro t ht
  cases ht with
  | head => exact ⟨source, rfl⟩
  | tail _ ht => exact h t ht

/-- What a step makes of raw text that holds no end tag. -/
theorem rawStep_cases {raw : RawElement} {s : Text} (hs : ¬ HoldsEndTag raw.name s) :
    (rawEnd? raw s = none ∧ rawStep raw s = .stop [] s) ∨
      ∃ rest, rest <:+ s ∧ rest.length < s.length ∧ rawStep raw s = .inert s rest := by
  unfold rawStep
  cases hfound : rawEnd? raw s with
  | none => exact .inl ⟨rfl, rfl⟩
  | some found =>
    have hsuffix := rawEnd?_isSuffix hfound
    by_cases hshort : found.length < s.length
    · exact .inr ⟨found, hsuffix, hshort, by simp only [hshort, if_true]⟩
    · -- A match that is no end tag of its own, as its name has a letter outside ASCII.
      have hsame : found = s := hsuffix.eq_of_length
        (Nat.le_antisymm hsuffix.length_le (Nat.le_of_not_lt hshort))
      subst hsame
      obtain ⟨t, rfl, hmem⟩ := startsRawEnd_eq_true (rawEnd?_eq_some hfound)
      obtain ⟨rest, hrest⟩ := exists_after?_of_mem hmem
      have hname : plainCloseName? t ≠ some raw.name :=
        fun h => hs (holdsEndTag_of_plainCloseName? h)
      have hrestSuffix := after?_isSuffix hrest
      refine .inr ⟨rest,
        hrestSuffix.trans ((List.suffix_cons _ _).trans (List.suffix_cons _ _)), ?_, ?_⟩
      · have hle := hrestSuffix.length_le
        simp only [List.length_cons]
        omega
      · simp only [hshort, if_false, List.drop_succ_cons, List.drop_zero, dropWhile_of_after? hrest,
          hname]

/-- In front of an end tag, raw text that holds none is read as inert. -/
theorem exists_rawStep_append_end {raw : RawElement} {body z : Text} (hne : body ≠ [])
    (hbody : ¬ HoldsEndTag raw.name body) (hz : startsRawEnd raw ('<' :: z) = true) :
    ∃ rest, rest <:+ body ∧ rest.length < body.length ∧
      rawStep raw (body ++ '<' :: z) = .inert (body ++ '<' :: z) (rest ++ '<' :: z) := by
  have hend := rawEnd?_append_end hz body
  rcases rawStep_cases hbody with ⟨hnone, -⟩ | ⟨rest, hsuffix, hshort, hstep⟩
  · have hpos := List.length_pos_iff.2 hne
    refine ⟨[], List.nil_suffix, hpos, ?_⟩
    have hlt : ('<' :: z).length < (body ++ '<' :: z).length := by
      rw [List.length_append]
      omega
    rw [hnone] at hend
    have hend : rawEnd? raw (body ++ '<' :: z) = some ('<' :: z) := hend
    rw [rawStep, hend]
    simp only [hlt, if_true]
    rfl
  · cases hfound : rawEnd? raw body with
    | none =>
      rw [rawStep, hfound] at hstep
      cases hstep
    | some found =>
      rw [hfound] at hend
      refine ⟨rest, hsuffix, hshort, ?_⟩
      rw [rawStep_append_tag hfound hend, hstep]
      exact (Step.append_inert body rest _).symm

/-- Raw text that holds no end tag is inert up to the end tag behind it. -/
theorem reads_rawText {raw : RawElement} {last : Bool} {body z : Text}
    (hbody : ¬ HoldsEndTag raw.name body) (hz : startsRawEnd raw ('<' :: z) = true) :
    ∃ tokens, Reads ⟨last, some raw, body ++ '<' :: z⟩ tokens ⟨last, some raw, '<' :: z⟩ ∧
      AllInert tokens := by
  induction hlength : body.length using Nat.strongRecOn generalizing body with
  | _ n ih =>
    subst hlength
    by_cases hnil : body = []
    · subst hnil
      exact ⟨[], .refl _, fun t ht => by cases ht⟩
    · obtain ⟨rest, hsuffix, hshort, hstep⟩ := exists_rawStep_append_end hnil hbody hz
      obtain ⟨tokens, hreads, hinert⟩ :=
        ih rest.length hshort (fun h => hbody (h.mono hsuffix.isInfix)) rfl
      exact ⟨_, .token (congrArg Except.ok hstep) hreads, hinert.cons _⟩

/-- An end tag ends raw text. -/
theorem step_endTag {raw : RawElement} (last : Bool) {gap tag : Text}
    (h : IsEndTag raw.name gap tag) (back : Text) :
    ∃ source rest, step last (some raw) (tag ++ back) = .ok (.token (.close raw.name source) rest) := by
  obtain ⟨hstarts, hname⟩ := h.closes back
  have hend : rawEnd? raw (tag ++ back) = some (tag ++ back) := by
    obtain ⟨t, heq, -⟩ := startsRawEnd_eq_true hstarts
    rw [heq] at hstarts ⊢
    exact rawEnd?_append_end hstarts []
  obtain ⟨t, heq, hmem⟩ := startsRawEnd_eq_true hstarts
  obtain ⟨rest, hrest⟩ := exists_after?_of_mem hmem
  refine ⟨Text.upTo (tag ++ back) rest, rest, ?_⟩
  have hdrop : ((tag ++ back).drop 2).dropWhile (· ≠ '>') = '>' :: rest := by
    rw [heq]
    exact dropWhile_of_after? hrest
  refine congrArg Except.ok ?_
  simp only [rawStep, hend, Nat.lt_irrefl, if_false, hdrop, hname, if_true]

/-- Where no end tag follows, a scan finds no tag at all in the body of a raw text element. -/
theorem Scans.allInert {last : Bool} {raw : RawElement} {s : Text} {tokens : List Token}
    (h : Scans ⟨last, some raw, s⟩ tokens) (hs : ¬ HoldsEndTag raw.name s) : AllInert tokens := by
  have hstop {last : Bool} {s skipped rest : Text} (hs : ¬ HoldsEndTag raw.name s)
      (hstep : step last (some raw) s = .ok (.stop skipped rest)) : skipped = [] ∧ rest = s := by
    rcases rawStep_cases hs with ⟨-, hraw⟩ | ⟨rest', -, -, hraw⟩
    · cases (Except.ok.inj hstep).symm.trans hraw
      exact ⟨rfl, rfl⟩
    · cases (Except.ok.inj hstep).symm.trans hraw
  generalize hc : (⟨last, some raw, s⟩ : Cursor) = c at h
  induction h generalizing last s with
  | @token last' raw' s' rest t tokens hstep _ ih =>
    cases hc
    rcases rawStep_cases hs with ⟨-, hraw⟩ | ⟨rest', hsuffix, -, hraw⟩
    · cases (Except.ok.inj hstep).symm.trans hraw
    · cases (Except.ok.inj hstep).symm.trans hraw
      exact (ih (fun h => hs (h.mono hsuffix.isInfix)) rfl).cons _
  | again hstep _ ih =>
    cases hc
    obtain ⟨rfl, rfl⟩ := hstop hs hstep
    exact ih hs rfl
  | @done raw' s' skipped rest hstep =>
    cases hc
    obtain ⟨rfl, rfl⟩ := hstop hs hstep
    have hnil : AllInert [] := fun t ht => by cases ht
    exact hnil.cons rest

/-- Raw text that holds an end tag has a first one. -/
theorem HoldsEndTag.first {name s : Text} (h : HoldsEndTag name s) :
    ∃ body gap tag back, s = body ++ (tag ++ back) ∧ ¬ HoldsEndTag name body ∧
      IsEndTag name gap tag := by
  have hne {gap tag : Text} (h : IsEndTag name gap tag) : tag ≠ [] := by
    obtain ⟨word, trail, rfl, -⟩ := h
    exact List.cons_ne_nil _ _
  induction s with
  | nil =>
    obtain ⟨gap, tag, htag, hinfix⟩ := h
    exact absurd (List.infix_nil.1 hinfix) (hne htag)
  | cons c r ih =>
    by_cases hhere : ∃ gap tag, IsEndTag name gap tag ∧ tag <+: c :: r
    · obtain ⟨gap, tag, htag, back, hback⟩ := hhere
      refine ⟨[], gap, tag, back, hback.symm, ?_, htag⟩
      rintro ⟨gap', tag', htag', hinfix⟩
      exact absurd (List.infix_nil.1 hinfix) (hne htag')
    · have hlater : HoldsEndTag name r := by
        obtain ⟨gap, tag, htag, hinfix⟩ := h
        rcases List.infix_cons_iff.1 hinfix with hprefix | hinfix
        · exact absurd ⟨gap, tag, htag, hprefix⟩ hhere
        · exact ⟨gap, tag, htag, hinfix⟩
      obtain ⟨body, gap, tag, back, rfl, hbody, htag⟩ := ih hlater
      refine ⟨c :: body, gap, tag, back, rfl, ?_, htag⟩
      rintro ⟨gap', tag', htag', hinfix⟩
      rcases List.infix_cons_iff.1 hinfix with hprefix | hinfix
      · exact hhere ⟨gap', tag', htag', hprefix.trans (List.prefix_append (c :: body) _)⟩
      · exact hbody ⟨gap', tag', htag', hinfix⟩

-- ---------------------------------------------------------------------------
-- Raw text elements
-- ---------------------------------------------------------------------------

theorem foldl_read_allInert {tokens : List Token} (h : AllInert tokens) (o : Outline) :
    tokens.foldl Outline.read o = { o with offset := o.offset + (sourceOf tokens).length } := by
  induction tokens generalizing o with
  | nil => rfl
  | cons t rest ih =>
    obtain ⟨source, rfl⟩ := h t List.mem_cons_self
    rw [List.foldl_cons, ih fun t ht => h t (List.mem_cons_of_mem _ ht), sourceOf_cons,
      List.length_append, ← Nat.add_assoc]
    rfl

/-- The outline behind a raw text element whose body and end tag have the given lengths. -/
def Outline.addRawElement (o : Outline) (tag : StartTag) (body closing : Nat) : Outline :=
  { elements := (o.addElement tag).elements.modify o.elements.length fun e =>
      { e with bodyEnd := some (o.offset + tag.source.length + body) }
    stack := o.stack
    offset := o.offset + tag.source.length + body + closing }

theorem foldl_read_rawElement (o : Outline) {tag : StartTag} (hopens : Outline.opens tag = true)
    {tokens : List Token} (h : AllInert tokens) (source : Text) :
    (tokens ++ [Token.close tag.name source]).foldl Outline.read (o.addElement tag) =
      o.addRawElement tag (sourceOf tokens).length source.length := by
  rw [List.foldl_append, foldl_read_allInert h, Outline.addRawElement, Outline.addElement_eq, hopens]
  simp [Outline.read, Outline.closeElement]

theorem nested_addRawElement {o : Outline} (ho : o.Nested) {tag : StartTag}
    (hopens : Outline.opens tag = true) (body closing : Nat) :
    (o.addRawElement tag body closing).Nested := by
  have hinert : AllInert [.inert (List.replicate body ' ')] := by
    intro t ht
    exact ⟨_, List.mem_singleton.1 ht⟩
  have hsource : (sourceOf [.inert (List.replicate body ' ')]).length = body := by
    rw [sourceOf_cons, List.length_append]
    exact List.length_replicate
  have hread := foldl_read_rawElement o hopens hinert (List.replicate closing ' ')
  rw [hsource, List.length_replicate] at hread
  exact hread ▸ (ho.addElement tag).foldl_read _

theorem elements_addRawElement (o : Outline) (tag : StartTag) (body closing : Nat) :
    (o.addRawElement tag body closing).elements =
      o.marked ++ [{ o.begun tag with bodyEnd := some (o.offset + tag.source.length + body) }] := by
  simp only [Outline.addRawElement, Outline.addElement_eq]
  rw [← Outline.length_marked, modify_length]

theorem length_addRawElement (o : Outline) (tag : StartTag) (body closing : Nat) :
    (o.addRawElement tag body closing).elements.length = o.elements.length + 1 := by
  rw [elements_addRawElement, List.length_append, Outline.length_marked]
  rfl

/-- The element is the last one, and closed where its body ends. -/
theorem getElem?_addRawElement (o : Outline) (tag : StartTag) (body closing : Nat) :
    (o.addRawElement tag body closing).elements[o.elements.length]? =
      some { o.begun tag with bodyEnd := some (o.offset + tag.source.length + body) } := by
  rw [elements_addRawElement, ← Outline.length_marked, List.getElem?_concat_length]

/-- With a body of another length, only what stands behind the body moves. -/
theorem addRawElement_relocate {o : Outline} (ho : o.Nested) (tag : StartTag) {body : Nat}
    (hbody : 0 < body) (body' : Text) (closing : Nat) :
    o.addRawElement tag body'.length closing = (o.addRawElement tag body closing).relocate
      ⟨o.offset + tag.source.length, o.offset + tag.source.length + body, body'⟩
      o.elements.length tag := by
  have hlt : o.offset + tag.source.length < o.offset + tag.source.length + body :=
    Nat.lt_add_of_pos_right hbody
  have hle : o.offset ≤ o.offset + tag.source.length := Nat.le_add_right _ _
  have hstart : Document.Edit.shift
      ⟨o.offset + tag.source.length, o.offset + tag.source.length + body, body'⟩ o.offset =
        o.offset :=
    Document.Edit.shift_of_le hle
  have hshift : Document.Edit.shift
      ⟨o.offset + tag.source.length, o.offset + tag.source.length + body, body'⟩
      (o.offset + tag.source.length + body) = o.offset + tag.source.length + body'.length := by
    rw [Document.Edit.shift_of_stop_le hlt (Nat.le_refl _), Nat.sub_self]
    rfl
  have hoffset : Document.Edit.shift
      ⟨o.offset + tag.source.length, o.offset + tag.source.length + body, body'⟩
      (o.offset + tag.source.length + body + closing) =
        o.offset + tag.source.length + body'.length + closing := by
    rw [Document.Edit.shift_add hlt (Nat.le_refl _), hshift]
  have helements : relocated
      ⟨o.offset + tag.source.length, o.offset + tag.source.length + body, body'⟩
      o.elements.length tag (o.addRawElement tag body closing).elements =
        (o.addRawElement tag body'.length closing).elements := by
    rw [elements_addRawElement, elements_addRawElement, relocated, List.map_append,
      Outline.marked_relocate_of_le ho hle, ← Outline.length_marked, List.map_singleton,
      modify_length]
    simp only [Outline.begun, Element.relocate, Element.retag, Option.map_some, hshift, hstart]
  rw [Outline.relocate, helements]
  simp only [Outline.addRawElement, hoffset]

theorem opens_of_raw {tag : StartTag} {raw : RawElement} (hraw : RawElement.ofName? tag.name = some raw)
    (hself : tag.selfClosing = false) : Outline.opens tag = true ∧ tag.name = raw.name := by
  have hname : tag.name = raw.name := by
    unfold RawElement.ofName? at hraw
    split at hraw
    · rename_i h
      exact Option.some.inj hraw ▸ h
    · split at hraw
      · rename_i h
        exact Option.some.inj hraw ▸ h
      · cases hraw
  refine ⟨?_, hname⟩
  rw [Outline.opens, hself, hname]
  cases raw <;> decide

/-- How a scan reads the body of a raw text element up to the end tag at the front of `closing`. -/
structure RawBody (last : Bool) (raw : RawElement) (body closing : Text) (tokens : List Token)
    (source rest : Text) : Prop where
  bare : ¬ HoldsEndTag raw.name body
  endTag : ∃ gap tag back, IsEndTag raw.name gap tag ∧ closing = tag ++ back
  inert : AllInert tokens
  reads : Reads ⟨last, some raw, body ++ closing⟩ tokens ⟨last, some raw, closing⟩
  closes : step last (some raw) closing = .ok (.token (.close raw.name source) rest)

theorem exists_rawBody (last : Bool) {raw : RawElement} {body gap tag : Text} (back : Text)
    (hbody : ¬ HoldsEndTag raw.name body) (htag : IsEndTag raw.name gap tag) :
    ∃ inert source rest, RawBody last raw body (tag ++ back) inert source rest := by
  obtain ⟨source, rest, hcloses⟩ := step_endTag last htag back
  obtain ⟨hstarts, -⟩ := htag.closes back
  obtain ⟨t, heq, -⟩ := startsRawEnd_eq_true hstarts
  rw [heq] at hstarts
  obtain ⟨inert, hreads, hinert⟩ := @reads_rawText raw last _ _ hbody hstarts
  rw [← heq] at hreads
  exact ⟨inert, source, rest, hbody, ⟨gap, tag, back, htag, rfl⟩, hinert, hreads, hcloses⟩

theorem RawBody.sourceOf_inert {last : Bool} {raw : RawElement} {body closing source rest : Text}
    {inert : List Token} (h : RawBody last raw body closing inert source rest) :
    sourceOf inert = body :=
  List.append_cancel_right h.reads.source

/-- Another body without an end tag is read up to the same place. -/
theorem RawBody.replace {last : Bool} {raw : RawElement} {body closing source rest : Text}
    {inert : List Token} (h : RawBody last raw body closing inert source rest) {body' : Text}
    (hbody' : ¬ HoldsEndTag raw.name body') :
    ∃ inert', RawBody last raw body' closing inert' source rest := by
  obtain ⟨gap, tag, back, htag, rfl⟩ := h.endTag
  obtain ⟨inert', source', rest', h'⟩ := exists_rawBody last back hbody' htag
  cases h.closes.symm.trans h'.closes
  exact ⟨inert', h'⟩

theorem RawBody.scans {last : Bool} {raw : RawElement} {body closing source rest : Text}
    {inert more : List Token} (h : RawBody last raw body closing inert source rest)
    (hmore : Scans ⟨last, none, rest⟩ more) :
    Scans ⟨last, some raw, body ++ closing⟩ (inert ++ .close raw.name source :: more) :=
  h.reads.scans (.token h.closes hmore)

/-- Where an end tag follows, a scan reads a body up to the first one. -/
theorem Scans.rawBody {last : Bool} {raw : RawElement} {s : Text} {tokens : List Token}
    (h : Scans ⟨last, some raw, s⟩ tokens) (hs : HoldsEndTag raw.name s) :
    ∃ body closing inert source rest more, s = body ++ closing ∧
      RawBody last raw body closing inert source rest ∧
      tokens = inert ++ .close raw.name source :: more ∧ Scans ⟨last, none, rest⟩ more := by
  obtain ⟨body, gap, tag, back, rfl, hbody, htag⟩ := hs.first
  obtain ⟨inert, source, rest, hraw⟩ := exists_rawBody last back hbody htag
  obtain ⟨others, rfl, hothers⟩ := hraw.reads.scans_rest h
  obtain ⟨more, rfl, hmore⟩ := (Reads.single hraw.closes).scans_rest hothers
  exact ⟨body, tag ++ back, inert, source, rest, more, rfl, hraw, rfl, hmore⟩

namespace Document

section RawElement

variable {markup : Text} {d : Document} {index : Nat} {e : Element} {raw : RawElement}
  {front tail : List Token} {last : Bool}

theorem rawAfter_start {tag : StartTag} (hraw : RawElement.ofName? tag.name = some raw)
    (hself : tag.selfClosing = false) : (Token.start tag).rawAfter none = some raw := by
  simp only [Token.rawAfter, hself]
  exact hraw

/-- A script or style of a document has an end tag behind its start tag. -/
theorem Place.holdsEndTag (hplace : d.Place index e front last tail) (h : parse markup = .ok d)
    (hraw : RawElement.ofName? e.tag = some raw) (hself : e.startTag.selfClosing = false) :
    HoldsEndTag raw.name (d.markup.drop e.bodyStart) := by
  by_cases hholds : HoldsEndTag raw.name (d.markup.drop e.bodyStart)
  · exact hholds
  · have hscans := hplace.scans
    rw [rawAfter_start hraw hself] at hscans
    have helements := hplace.elements
    rw [foldl_read_allInert (hscans.allInert hholds)] at helements
    have hindex := hplace.outline.2.1
    generalize front.foldl Outline.read .empty = o at helements hindex
    have he := hplace.element
    rw [helements] at he
    have hopen : e.bodyEnd = none := by
      have hbegun : e = o.begun e.startTag := by
        simp only [Outline.addElement_eq, ← hindex, ← Outline.length_marked,
          List.getElem?_concat_length, Option.some.injEq] at he
        exact he.symm
      rw [hbegun, Outline.begun, hself]
      rfl
    have hclosed := List.find?_eq_none.1 (unterminated?_of_parse h) e
      (List.mem_of_getElem? hplace.element)
    simp [hraw, Element.isClosed, hopen] at hclosed

theorem Place.elements_of_rawBody {body closing source rest : Text} {tokens more : List Token}
    (hplace : d.Place index e front last (tokens ++ .close raw.name source :: more))
    (hraw : RawElement.ofName? e.tag = some raw) (hself : e.startTag.selfClosing = false)
    (hbody : RawBody last raw body closing tokens source rest) :
    d.elements = (more.foldl Outline.read ((front.foldl Outline.read .empty).addRawElement
      e.startTag body.length source.length)).elements := by
  obtain ⟨hopens, hname⟩ := opens_of_raw hraw hself
  have hread := foldl_read_rawElement (front.foldl Outline.read .empty) hopens hbody.inert source
  rw [hname, hbody.sourceOf_inert] at hread
  rw [hplace.elements, ← hread, ← List.foldl_append, List.append_assoc]
  rfl

/-- What a scan reads behind the start tag of a script or style: the body up to its first end tag,
which closes the element. -/
theorem Place.rawBody (hplace : d.Place index e front last tail) (h : parse markup = .ok d)
    (hraw : RawElement.ofName? e.tag = some raw) (hself : e.startTag.selfClosing = false) :
    ∃ body closing tokens source rest more, d.markup.drop e.bodyStart = body ++ closing ∧
      RawBody last raw body closing tokens source rest ∧ Scans ⟨last, none, rest⟩ more ∧
      tail = tokens ++ .close raw.name source :: more ∧
      e.bodyEnd = some (e.bodyStart + body.length) ∧ e.hasChildren = false := by
  have hscans := hplace.scans
  rw [rawAfter_start hraw hself] at hscans
  obtain ⟨body, closing, tokens, source, rest, more, hsplit, hbody, rfl, hmore⟩ :=
    hscans.rawBody (hplace.holdsEndTag h hraw hself)
  refine ⟨body, closing, tokens, source, rest, more, hsplit, hbody, hmore, rfl, ?_⟩
  obtain ⟨hnested, hindex, hoffset⟩ := hplace.outline
  have hclosed := nested_addRawElement hnested (opens_of_raw hraw hself).1 body.length source.length
  have hlength := length_addRawElement (front.foldl Outline.read .empty) e.startTag body.length
    source.length
  have hlast := getElem?_addRawElement (front.foldl Outline.read .empty) e.startTag body.length
    source.length
  rw [hindex, hoffset] at hlast
  rw [hindex] at hlength
  have he := hplace.element
  rw [hplace.elements_of_rawBody hraw hself hbody] at he
  have hend : e.bodyEnd = some (e.bodyStart + body.length) := by
    rcases Outline.bodyEnd_foldl_read hclosed hlast he with hsame | ⟨hopen, -⟩
    · exact hsame
    · cases hopen
  refine ⟨hend, Outline.hasChildren_foldl_read (hclosed.foldl_read more) he hend hlength ?_⟩
  rw [Element.bodyStart, ← hoffset]
  exact Nat.le_add_right _ _

/-- The scan that comes to a script or style with another body reads the new body and goes on as
before. -/
theorem Place.scans_rebody {body body' closing source rest : Text} {tokens tokens' more : List Token}
    (hplace : d.Place index e front last (tokens ++ .close raw.name source :: more))
    (hraw : RawElement.ofName? e.tag = some raw) (hself : e.startTag.selfClosing = false)
    (hstart : e.bodyStart ≤ d.markup.length) (hsplit : d.markup.drop e.bodyStart = body ++ closing)
    (hbody' : RawBody last raw body' closing tokens' source rest)
    (hmore : Scans ⟨last, none, rest⟩ more)
    (hcontinues : d.Continues (Edit.apply ⟨e.bodyStart, e.bodyStart + body.length, body'⟩ d.markup)
      index e.startTag) :
    Scans ⟨false, none, Edit.apply ⟨e.bodyStart, e.bodyStart + body.length, body'⟩ d.markup⟩
      (front ++ .start e.startTag :: (tokens' ++ .close raw.name source :: more)) := by
  generalize hedit : (⟨e.bodyStart, e.bodyStart + body.length, body'⟩ : Edit) = edit at hcontinues ⊢
  have hbodyStart : edit.start = e.bodyStart := hedit ▸ rfl
  have hreplacement : edit.replacement = body' := hedit ▸ rfl
  have hstop : edit.stop = e.bodyStart + body.length := hedit ▸ rfl
  rw [← hbodyStart] at hstart
  have htext : (edit.apply d.markup).drop e.bodyStart = body' ++ closing := by
    have hclosing : d.markup.drop (e.bodyStart + body.length) = closing := by
      rw [← List.drop_drop, hsplit, List.drop_left]
    rw [← hbodyStart, Edit.drop_start_apply hstart, hreplacement, hstop, hclosing]
  have htake : (edit.apply d.markup).take e.start = d.markup.take e.start := by
    have hle : e.start ≤ edit.start := hbodyStart ▸ Nat.le_of_lt e.start_lt_bodyStart
    have hbefore := congrArg (List.take e.start) (Edit.take_apply hstart)
    rwa [List.take_take, List.take_take, Nat.min_eq_left hle] at hbefore
  obtain ⟨hreads, rest', hstep⟩ := hcontinues.reads hplace htake
  have hrest : rest' = body' ++ closing := by
    obtain ⟨-, hcuts⟩ := step_cuts hstep
    have hcuts : e.startTag.source ++ rest' = (edit.apply d.markup).drop e.start := hcuts
    rw [← htext, Element.bodyStart, ← List.drop_drop, ← hcuts, List.drop_left]
  subst hrest
  have hscans := hbody'.scans hmore
  rw [← rawAfter_start hraw hself] at hscans
  exact hreads.scans (.token hstep hscans)

/-- With another body in a script or style, the elements are those of the document, relocated. -/
theorem Place.elements_rebody {body body' closing source rest : Text}
    {tokens tokens' more : List Token}
    (hplace : d.Place index e front last (tokens ++ .close raw.name source :: more))
    (hraw : RawElement.ofName? e.tag = some raw) (hself : e.startTag.selfClosing = false)
    (hbody : RawBody last raw body closing tokens source rest)
    (hbody' : RawBody last raw body' closing tokens' source rest) (hpos : 0 < body.length) :
    ((front ++ .start e.startTag :: (tokens' ++ .close raw.name source :: more)).foldl Outline.read
        .empty).elements =
      relocated ⟨e.bodyStart, e.bodyStart + body.length, body'⟩ index e.startTag d.elements := by
  obtain ⟨hnested, hindex, hoffset⟩ := hplace.outline
  obtain ⟨hopens, hname⟩ := opens_of_raw hraw hself
  have hread := foldl_read_rawElement (front.foldl Outline.read .empty) hopens hbody'.inert source
  rw [hname, hbody'.sourceOf_inert] at hread
  have hsplit : front ++ .start e.startTag :: (tokens' ++ .close raw.name source :: more) =
      (front ++ [.start e.startTag]) ++ ((tokens' ++ [.close raw.name source]) ++ more) := by
    simp
  have hfirst : (front ++ [Token.start e.startTag]).foldl Outline.read .empty =
      (front.foldl Outline.read .empty).addElement e.startTag := by
    rw [List.foldl_append]
    rfl
  rw [hsplit, List.foldl_append, hfirst, List.foldl_append, hread,
    addRawElement_relocate hnested e.startTag hpos body' source.length,
    hplace.elements_of_rawBody hraw hself hbody]
  have hlength := length_addRawElement (front.foldl Outline.read .empty) e.startTag body.length
    source.length
  have hbodyStart : (front.foldl Outline.read .empty).offset + e.startTag.source.length =
      e.bodyStart := congrArg (· + e.startTag.source.length) hoffset
  rw [hindex] at hlength
  rw [hindex, hbodyStart, Outline.foldl_read_relocate (Nat.lt_add_of_pos_right hpos) _
    (hlength ▸ Nat.lt_succ_self index)]
  · rfl
  · rw [Outline.addRawElement, hbodyStart]
    exact Nat.le_add_right _ _

/-- A text in which another body without an end tag stands in the place of the body of a script or
style is the document with that body, as long as the scan comes to the element. -/
theorem parse_rebody (h : parse markup = .ok d) (he : d.elements[index]? = some e)
    (hraw : RawElement.ofName? e.tag = some raw) (hself : e.startTag.selfClosing = false)
    {stop : Nat} (hend : e.bodyEnd = some stop) (hlt : e.bodyStart < stop) {body' : Text}
    (hbody' : ¬ HoldsEndTag raw.name body')
    (hcontinues : d.Continues (Edit.apply ⟨e.bodyStart, stop, body'⟩ markup) index e.startTag) :
    parse (Edit.apply ⟨e.bodyStart, stop, body'⟩ markup) =
      .ok (d.relocate ⟨e.bodyStart, stop, body'⟩ index e.startTag) := by
  obtain ⟨front, last, tail, hplace⟩ := exists_place h he
  obtain ⟨body, closing, tokens, source, rest, more, hsplit, hbody, hmore, rfl, hend', -⟩ :=
    hplace.rawBody h hraw hself
  cases hend.symm.trans hend'
  obtain ⟨tokens', hbody''⟩ := hbody.replace hbody'
  have hpos : 0 < body.length := Nat.lt_of_add_lt_add_left hlt
  have hmarkup := markup_of_parse h
  rw [← hmarkup] at hcontinues
  have hscans := hplace.scans_rebody hraw hself (bodyStart_le_length h he) hsplit hbody'' hmore
    hcontinues
  rw [hmarkup] at hscans
  exact parse_relocate h (fun e' he' => by cases he.symm.trans he'; rfl) hscans
    (hplace.elements_rebody hraw hself hbody hbody'' hpos)

/-- The text of a script or style of a document holds no end tag of the element. -/
theorem not_holdsEndTag_text (h : parse markup = .ok d) (he : d.elements[index]? = some e)
    (hraw : RawElement.ofName? e.tag = some raw) (hself : e.startTag.selfClosing = false) :
    ¬ HoldsEndTag raw.name (d.text e) := by
  obtain ⟨front, last, tail, hplace⟩ := exists_place h he
  obtain ⟨body, closing, tokens, source, rest, more, hsplit, hbody, -, -, hend, -⟩ :=
    hplace.rawBody h hraw hself
  have htext : d.text e = body := by
    rw [text_of_parse h (List.mem_of_getElem? he), Document.body, hend]
    dsimp only
    rw [Text.slice, List.drop_take, hsplit, Nat.add_sub_cancel_left, List.take_left]
  exact htext ▸ hbody.bare

/-- A script or style has no other element in its body. -/
theorem hasChildren_of_raw (h : parse markup = .ok d) (he : d.elements[index]? = some e)
    (hraw : RawElement.ofName? e.tag = some raw) (hself : e.startTag.selfClosing = false) :
    e.hasChildren = false := by
  obtain ⟨front, last, tail, hplace⟩ := exists_place h he
  obtain ⟨body, closing, tokens, source, rest, more, -, -, -, -, -, hchildren⟩ :=
    hplace.rawBody h hraw hself
  exact hchildren

end RawElement

theorem fits_rebody {markup : Text} {d : Document} (h : parse markup = .ok d) {index : Nat}
    {e : Element} (he : d.elements[index]? = some e) {stop : Nat} (hend : e.bodyEnd = some stop)
    (hlt : e.bodyStart < stop) (hleaf : e.hasChildren = false) (body : Text) :
    d.Fits ⟨e.bodyStart, stop, body⟩ index e.startTag := by
  intro i f hf
  obtain ⟨o, ho, helements, -⟩ := exists_outline h
  rw [← helements] at he hf
  have hbounds {x : Nat} (hx : f.bodyEnd = some x) := (ho.bodyEnd_bounds hf hx).1
  rcases Nat.lt_trichotomy i index with hi | rfl | hi
  · have hle := Nat.le_trans (ho.ordered hi hf he) (Nat.le_of_lt e.start_lt_bodyStart)
    refine ⟨?_, fun x hx => ⟨hbounds hx, ?_⟩⟩
    · rw [if_neg (Nat.ne_of_gt hi)]
      exact bodyStart_relocate_of_le hle
    · rcases ho.nested_or_disjoint hi hf he hx hend with hbefore | haround
      · exact .inl (Nat.le_trans hbefore (Nat.le_of_lt e.start_lt_bodyStart))
      · exact .inr (.inr ⟨hle, haround⟩)
  · cases he.symm.trans hf
    refine ⟨?_, fun x hx => ⟨hbounds hx, ?_⟩⟩
    · rw [if_pos rfl]
      exact bodyStart_relocate_of_le (Nat.le_refl _)
    · cases hend.symm.trans hx
      exact .inr (.inr ⟨Nat.le_refl _, Nat.le_refl _⟩)
  · have hle := ho.leaf hi he hf hend hleaf
    have hle' := Nat.le_trans hle (Nat.le_of_lt f.start_lt_bodyStart)
    refine ⟨?_, fun x hx => ⟨hbounds hx, .inr (.inl hle')⟩⟩
    rw [if_neg (Nat.ne_of_lt hi)]
    exact bodyStart_relocate_of_stop_le hlt hle

/-- Whether a text is read back as `d` with another body, `body`, in `e`, the element at `index`, the
body of which ends at `stop`. -/
def ReadsBackWithBody (d : Document) (text : Text) (index : Nat) (e : Element) (stop : Nat)
    (body : Text) : Prop :=
  ∃ d', parse text = .ok d' ∧ d.Follows ⟨e.bodyStart, stop, body⟩ index e.startTag d' ∧
    d'.elements[index]?.map d'.text = some body

/-- A text in which another body stands in the place of the body of a script or style is read back as
that exactly when the scan comes to the element and the body holds no end tag of it. -/
theorem readsBackWithBody_iff {markup : Text} {d : Document} (h : parse markup = .ok d)
    {index : Nat} {e : Element} (he : d.elements[index]? = some e) {raw : RawElement}
    (hraw : RawElement.ofName? e.tag = some raw) (hself : e.startTag.selfClosing = false) {stop : Nat}
    (hend : e.bodyEnd = some stop) (hlt : e.bodyStart < stop) (body : Text) :
    d.ReadsBackWithBody (Edit.apply ⟨e.bodyStart, stop, body⟩ markup) index e stop body ↔
      d.Continues (Edit.apply ⟨e.bodyStart, stop, body⟩ markup) index e.startTag ∧
        ¬ HoldsEndTag raw.name body := by
  constructor
  · rintro ⟨d', hparse, hfollows, htext⟩
    refine ⟨hfollows.continues h hparse he (Nat.le_of_lt e.start_lt_bodyStart), ?_⟩
    obtain ⟨e', he', rfl⟩ := Option.map_eq_some_iff.1 htext
    have htag : e'.startTag = e.startTag := by
      have hopening := hfollows.opening index
      rw [he, he', Option.map_some, Option.map_some, if_pos rfl] at hopening
      exact (Prod.mk.inj (Option.some.inj hopening)).2
    have hraw' : RawElement.ofName? e'.tag = some raw := by
      rw [Element.tag, htag]
      exact hraw
    exact not_holdsEndTag_text hparse he' hraw' (htag ▸ hself)
  · rintro ⟨hcontinues, hbare⟩
    have hleaf := hasChildren_of_raw h he hraw hself
    have hparse := parse_rebody h he hraw hself hend hlt hbare hcontinues
    have hfollows := follows_relocate h hlt (bodyStart_le_length h he)
      (fits_rebody h he hend hlt hleaf body)
    refine ⟨_, hparse, hfollows, ?_⟩
    have hopening := hfollows.opening index
    rw [he, Option.map_some] at hopening
    obtain ⟨e', he', -⟩ := Option.map_eq_some_iff.1 hopening
    rw [he', Option.map_some,
      hfollows.text_around he he' hend (Nat.le_refl _) (Nat.le_refl _)]
    simp [Text.slice]

end Document

end PageSplice.Html
