-- SUMMARY: A document in which an attribute is set: when it is read back with that attribute set and nothing else changed.
import PageSplice.Proofs.Html.AttributeText
import PageSplice.Proofs.Html.PlainFront

/-!
# Reading back a set attribute

A document in which an attribute is set is read back as meant exactly when its
start tag is, at its place. For a plain tag that comes down to the text in
front of it, which the quotes of the new value must not complete.
-/

namespace PageSplice.Html

-- ---------------------------------------------------------------------------
-- Names
-- ---------------------------------------------------------------------------

/-- Whether `name` begins with an ASCII letter and holds only ASCII letters, digits and hyphens. -/
def IsAsciiName (name : Text) : Prop :=
  (∃ c r, name = c :: r ∧ c.isAlpha = true) ∧ ∀ c ∈ name, c.isAlphanum = true ∨ c = '-'

theorem IsAsciiName.of_letters {c : Char} {r : Text} (hc : c.isAlpha = true)
    (h : (c :: r).all Char.isAlphanum = true) : IsAsciiName (c :: r) :=
  ⟨⟨c, r, rfl, hc⟩, fun c hc => .inl (List.all_eq_true.1 h c hc)⟩

theorem IsAsciiName.toNat_lt {name : Text} (h : IsAsciiName name) : ∀ c ∈ name, c.toNat < 128 := by
  intro c hc
  rcases h.2 c hc with halphanum | rfl
  · have hranges := toNat_of_isAlphanum halphanum
    omega
  · decide

theorem lower_of_ascii {s : Text} (h : ∀ c ∈ s, c.toNat < 128) :
    Text.lower s = s.map Char.toLower := by
  have hafter (passed : Text) : Text.lowerAfter passed s = s.map Char.toLower := by
    induction s generalizing passed with
    | nil => rfl
    | cons c r ih =>
      have hc := h c List.mem_cons_self
      have hdotted : c ≠ '\u0130' := fun heq => absurd hc (heq ▸ by decide)
      have hsigma : c ≠ '\u03A3' := fun heq => absurd hc (heq ▸ by decide)
      rw [Text.lowerAfter, if_neg hdotted, if_neg hsigma, Text.lowerChar, if_pos hc,
        ih fun d hd => h d (List.mem_cons_of_mem c hd)]
      rfl
  exact hafter []

/-- What holds of every ASCII character. -/
theorem of_ascii {P : Char → Prop} (h : ∀ n < 128, P (Char.ofNat n)) {c : Char}
    (hc : c.toNat < 128) : P c :=
  c.ofNat_toNat ▸ h c.toNat hc

theorem toLower_ascii {c : Char} (hc : c.toNat < 128) :
    c.toLower.toNat < 128 ∧ c.toLower.toLower = c.toLower ∧
      (c.isAlphanum = true ∨ c = '-' → TagText.isNameChar c.toLower = true) :=
  of_ascii (P := fun c => c.toLower.toNat < 128 ∧ c.toLower.toLower = c.toLower ∧
    (c.isAlphanum = true ∨ c = '-' → TagText.isNameChar c.toLower = true)) (by decide) hc

theorem IsAsciiName.toNat_lower_lt {name : Text} (h : IsAsciiName name) :
    ∀ c ∈ Text.lower name, c.toNat < 128 := by
  rw [lower_of_ascii h.toNat_lt]
  intro c hc
  obtain ⟨d, hd, rfl⟩ := List.mem_map.1 hc
  exact (toLower_ascii (h.toNat_lt d hd)).1

theorem IsAsciiName.lower_lower {name : Text} (h : IsAsciiName name) :
    Text.lower (Text.lower name) = Text.lower name := by
  rw [lower_of_ascii h.toNat_lower_lt, lower_of_ascii h.toNat_lt, List.map_map]
  refine List.map_congr_left fun c hc => ?_
  exact (toLower_ascii (h.toNat_lt c hc)).2.1

theorem IsAsciiName.isNameChar {name : Text} (h : IsAsciiName name) :
    ∀ c ∈ Text.lower name, TagText.isNameChar c = true := by
  intro c hc
  rw [lower_of_ascii h.toNat_lt] at hc
  obtain ⟨d, hd, rfl⟩ := List.mem_map.1 hc
  exact (toLower_ascii (h.toNat_lt d hd)).2.2 (h.2 d hd)

theorem IsAsciiName.lower_ne_nil {name : Text} (h : IsAsciiName name) : Text.lower name ≠ [] := by
  obtain ⟨c, r, hname, -⟩ := h.1
  rw [lower_of_ascii h.toNat_lt, hname]
  exact List.cons_ne_nil _ _

-- ---------------------------------------------------------------------------
-- Start tags
-- ---------------------------------------------------------------------------

/-- Whether `tag` is the start tag of `e` with an attribute set: with the text that setting yields,
with the value and all other attributes as they were, and with the same name and end. -/
structure Element.IsSetTag (e : Element) (name value : Text) (tag : StartTag) : Prop where
  source : tag.source = TagText.setAttribute (Text.lower name) value e.startTag.source
  element : tag.name = e.tag
  selfClosing : tag.selfClosing = e.startTag.selfClosing
  lookup : ∀ other, (Attributes.ofTag tag.attributes []).lookup other =
    if other = Text.lower name then some (some value) else e.attributes.lookup other

/-- A plain tag is read with the attribute set as it has been set, whatever follows. -/
theorem StartTag.IsPlain.exists_isSetTag {e : Element} (hplain : e.startTag.IsPlain)
    (hunchanged : e.IsUnchanged) {last : Bool} {back : Text}
    (hstep : Html.step last none (e.startTag.source ++ back) = .ok (.token (.start e.startTag) back))
    {name : Text} (hname : IsAsciiName name) (value : Text) :
    ∃ tag, e.IsSetTag name value tag ∧ ∀ last back,
      Html.step last none (TagText.setAttribute (Text.lower name) value e.startTag.source ++ back) =
        .ok (.token (.start tag) back) := by
  obtain ⟨t, ht⟩ := hplain
  have hsource : e.startTag.source = '<' :: t.interior := congrArg ('<' :: ·) ht
  rw [hsource] at hstep ⊢
  obtain ⟨hresolved, htag⟩ := PlainTag.of_step hstep
  obtain ⟨t', hname', hself, htext, hwritten⟩ :=
    t.exists_setAttribute hname.lower_ne_nil hname.isNameChar value
  have hset := Attributes.mapM_setWritten hname.lower_lower (CharRef.unescape_escape value) hresolved
  rw [← hwritten] at hset
  refine ⟨⟨t'.interior, Text.lower t'.name,
    Attributes.set (Text.lower name) (some value) e.startTag.attributes, t'.selfClosing⟩,
    ⟨?_, ?_, ?_, fun other => ?_⟩, fun last back => ?_⟩
  · rw [hsource, htext]
    rfl
  · rw [Element.tag, htag, hname']
  · rw [htag, hself]
  · rw [Attributes.ofTag_set rfl, Attributes.lookup_set, ← hunchanged.1]
  · rw [htext]
    exact (t'.step last back).trans (by rw [hset])

-- ---------------------------------------------------------------------------
-- Documents
-- ---------------------------------------------------------------------------

namespace Document

/-- Whether the document with an attribute of `e`, the element at `index`, set is read back as that:
as a document that follows `d`, with the start tag of `e` set. -/
def ReadsBackSet (d : Document) (index : Nat) (e : Element) (name value : Text) : Prop :=
  ∃ d' tag, parse (d.setAttribute index name value).serialize = .ok d' ∧
    d.Follows ⟨e.start, e.bodyStart, tag.source⟩ index tag d' ∧ e.IsSetTag name value tag

section SetAttribute

variable {markup : Text} {d : Document} (h : parse markup = .ok d) {index : Nat} {e : Element}
  (he : d.elements[index]? = some e) {name : Text}

include h he

/-- The edit that sets an attribute. -/
theorem serialize_setAttribute (name value : Text) :
    (d.setAttribute index name value).serialize = Edit.apply
      ⟨e.start, e.bodyStart, TagText.setAttribute (Text.lower name) value e.startTag.source⟩ markup := by
  refine serialize_modify h he ?_
  obtain ⟨-, htag, hbody⟩ := isUnchanged_of_parse h e (List.mem_of_getElem? he)
  simp only [editsOf, Element.setAttribute, Element.startText, htag, hbody]
  rfl

theorem readsBackSet_iff_exists (value : Text) : d.ReadsBackSet index e name value ↔
    ∃ tag, d.Continues (d.setAttribute index name value).serialize index tag ∧
      e.IsSetTag name value tag := by
  have hlt : e.start < e.bodyStart := e.start_lt_bodyStart
  have hstart := Nat.le_trans (Nat.le_of_lt hlt) (bodyStart_le_length h he)
  have hserialize := serialize_setAttribute h he name value
  constructor
  · rintro ⟨d', tag, hparse, hfollows, hset⟩
    exact ⟨tag, hfollows.continues h hparse he (Nat.le_refl _), hset⟩
  · rintro ⟨tag, hcontinues, hset⟩
    rw [hserialize, ← hset.source] at hcontinues
    refine ⟨_, tag, ?_, follows_relocate h hlt hstart (fits_retag h he tag), hset⟩
    rw [hserialize, ← hset.source]
    exact parse_retag h he hset.element hset.selfClosing hcontinues

/-- What is read at the place of a plain tag in which an attribute is set. -/
theorem exists_isSetTag (hplain : e.startTag.IsPlain) (hname : IsAsciiName name) (value : Text) :
    ∃ tag, e.IsSetTag name value tag ∧ ∀ last,
      step last none ((d.setAttribute index name value).serialize.drop e.start) =
        .ok (.token (.start tag) (markup.drop e.bodyStart)) := by
  obtain rfl := markup_of_parse h
  have hstart := Nat.le_trans (Nat.le_of_lt e.start_lt_bodyStart) (bodyStart_le_length h he)
  obtain ⟨front, last, tail, hplace⟩ := exists_place h he
  have hreaches := hplace.reaches
  obtain ⟨-, hcuts⟩ := step_cuts hreaches
  rw [← hcuts] at hreaches
  obtain ⟨tag, hset, hstep⟩ := hplain.exists_isSetTag
    (isUnchanged_of_parse h e (List.mem_of_getElem? he)) hreaches hname value
  refine ⟨tag, hset, fun last => ?_⟩
  have hdrop := @Edit.drop_start_apply ⟨e.start, e.bodyStart,
    TagText.setAttribute (Text.lower name) value e.startTag.source⟩ d.markup hstart
  rw [serialize_setAttribute h he, hdrop]
  exact hstep last _

theorem take_setAttribute (name value : Text) :
    (d.setAttribute index name value).serialize.take e.start = d.markup.take e.start := by
  have hstart := Nat.le_trans (Nat.le_of_lt e.start_lt_bodyStart) (bodyStart_le_length h he)
  rw [serialize_setAttribute h he, ← markup_of_parse h]
  exact @Edit.take_apply ⟨e.start, e.bodyStart,
    TagText.setAttribute (Text.lower name) value e.startTag.source⟩ d.markup hstart

/-- A document in which an attribute is set is read back as set exactly when the element's place is
come to as before and the start tag there is read as set. At a plain tag the latter is always so, and
behind plain tags both are. -/
theorem readsBackSet_iff (hname : IsAsciiName name) (value : Text) :
    (d.ReadsBackSet index e name value ↔
      ∃ tag, d.Continues (d.setAttribute index name value).serialize index tag ∧
        e.IsSetTag name value tag) ∧
    (e.startTag.IsPlain → (d.ReadsBackSet index e name value ↔
      ∃ tag, d.Continues (d.setAttribute index name value).serialize index tag)) ∧
    (d.PlainUpTo index → d.ReadsBackSet index e name value) := by
  have hexact := @readsBackSet_iff_exists markup d h index e he name value
  have htake := take_setAttribute h he name value
  refine ⟨hexact, fun hplain => hexact.trans ⟨?_, ?_⟩, fun hplain => hexact.2 ?_⟩
  · rintro ⟨tag, hcontinues, -⟩
    exact ⟨tag, hcontinues⟩
  · rintro ⟨tag, hcontinues⟩
    obtain ⟨front, last, tail, hplace⟩ := exists_place h he
    obtain ⟨tag', hset, hstep⟩ := exists_isSetTag h he hplain hname value
    obtain ⟨-, rest', hfound⟩ := hcontinues.reads hplace htake
    cases (hstep last).symm.trans hfound
    exact ⟨_, hcontinues, hset⟩
  · obtain ⟨tag, hset, hstep⟩ :=
      exists_isSetTag h he (hplain index (Nat.le_refl _) e he).1 hname value
    exact ⟨tag, hplain.continues h he htake hstep, hset⟩

end SetAttribute

theorem readsBackSet_link :
    ∃ d e, parse "<p><link  href='//a.com/x.css'   rel=stylesheet></p>".toList = .ok d ∧
      d.elements[1]? = some e ∧ IsAsciiName "HREF".toList ∧ d.PlainUpTo 1 ∧
      d.ReadsBackSet 1 e "HREF".toList "a\"b&c".toList := by
  let p : Element := ⟨⟨"p>".toList, "p".toList, [], false⟩, 0, some 48, true, [], none, none⟩
  let written : List (Text × Option Text) :=
    [("href".toList, some "//a.com/x.css".toList), ("rel".toList, some "stylesheet".toList)]
  let link : Element := ⟨⟨"link  href='//a.com/x.css'   rel=stylesheet>".toList, "link".toList, written,
    false⟩, 3, none, false, written, none, none⟩
  let d : Document := ⟨"<p><link  href='//a.com/x.css'   rel=stylesheet></p>".toList, [p, link]⟩
  have hparse : parse "<p><link  href='//a.com/x.css'   rel=stylesheet></p>".toList = .ok d :=
    eq_ok_of_toOption (by decide +kernel)
  have hletters : ∀ c ∈ "HREF".toList, c.isAlphanum = true := List.all_eq_true.1 (by decide)
  have hname : IsAsciiName "HREF".toList := ⟨⟨'H', "REF".toList, rfl, rfl⟩, fun c hc => .inl (hletters c hc)⟩
  have hp : p.startTag.IsPlain := StartTag.isPlain_of_name (c := 'p') (r := []) rfl rfl rfl rfl
  have hblanks : ∀ c ∈ ([] : Text), Text.isBlank c = true := fun c hc => nomatch hc
  have hfit : TagText.Fit 'k' '>' [.separator ' ', .separator ' ',
      .named "href".toList (.quoted [] [] '\'' "//a.com/x.css".toList), .separator ' ',
      .separator ' ', .separator ' ', .named "rel".toList (.bare [] [] "stylesheet".toList)] :=
    ⟨.inl rfl, .inl rfl, ⟨rfl, by decide, List.all_eq_true.1 (by decide), hblanks, hblanks, rfl,
      by decide⟩, .inl rfl, .inl rfl, .inl rfl, ⟨rfl, by decide, List.all_eq_true.1 (by decide),
      hblanks, hblanks, List.all_eq_true.1 (by decide), rfl, rfl, by decide⟩, trivial⟩
  have hlink : link.startTag.IsPlain :=
    ⟨⟨"link".toList, _, false, ⟨'l', "ink".toList, rfl, rfl⟩, List.all_eq_true.1 (by decide),
      List.all_eq_true.1 (by decide), by decide, hfit⟩, rfl⟩
  have hplain : d.PlainUpTo 1 := by
    refine plainUpTo_of_forall (List.forall_mem_cons.2 ⟨⟨hp, ?_⟩,
      List.forall_mem_singleton.2 ⟨hlink, ?_⟩⟩) 1
    all_goals decide +kernel
  exact ⟨d, link, hparse, rfl, hname, hplain,
    (readsBackSet_iff (e := link) hparse rfl hname "a\"b&c".toList).2.2 hplain⟩

end Document

end PageSplice.Html
