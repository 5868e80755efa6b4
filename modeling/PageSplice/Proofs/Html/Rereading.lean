-- SUMMARY: Documents that are written after changes to many elements: what they are read back as.
import PageSplice.Proofs.Html.RawText
import PageSplice.Proofs.Html.SetAttribute
import PageSplice.Proofs.Html.Spans

/-!
# Reading back

A document is written after many changes at once. Each of them moves what stands
behind it, so they are followed from the last element to the first: what has
been changed already stands behind the element that comes next, and what stands
in front of it is still as it was. Behind plain tags every change is read back
as it was made.
-/

namespace PageSplice.Html

-- ---------------------------------------------------------------------------
-- The first pass
-- ---------------------------------------------------------------------------

/-- A reading within the first pass is the beginning of what the pass finds. -/
theorem Reads.pass {c c' : Cursor} {tokens : List Token} (h : Reads c tokens c')
    (hfirst : c'.last = false) {p : Pass} (hp : Html.pass false c'.raw c'.rest = .ok p) :
    Html.pass c.last c.raw c.rest = .ok ⟨tokens ++ p.tokens, p.raw, p.rest⟩ := by
  induction h with
  | refl =>
    rw [hfirst]
    exact hp
  | token hstep _ ih =>
    rw [pass_of_token hstep, ih hfirst hp]
    rfl
  | again _ tail _ => cases hfirst.symm.trans (tail.last_eq_true rfl)

/-- A place at which the first pass finds a token lies within the first pass. -/
theorem Reads.lt_firstPass {markup s rest : Text} {tokens all : List Token} {t : Token}
    {raw : Option RawElement} (h : Reads ⟨false, none, markup⟩ tokens ⟨false, raw, s⟩)
    (hstep : step false raw s = .ok (.token t rest)) (hall : Scans ⟨false, none, markup⟩ all) :
    (sourceOf tokens).length < (firstPass markup).length := by
  obtain ⟨more, -, hmore⟩ := h.scans_rest hall
  obtain ⟨p, hp, -⟩ := hmore.passes
  have hp : Html.pass false raw s = .ok p := hp
  have hpass := h.pass rfl hp
  rw [pass_of_token hstep] at hp
  obtain ⟨q, -, rfl⟩ := exists_of_map_eq_ok hp
  have hpos := List.length_pos_iff.2 (step_cuts hstep).1
  rw [firstPass, hpass]
  simp only [sourceOf_append, sourceOf_cons, List.length_append]
  omega

namespace Document

variable {markup : Text} {d : Document}

theorem PlainUpTo.mono {i j : Nat} (h : d.PlainUpTo j) (hij : i ≤ j) : d.PlainUpTo i :=
  fun k hk => h k (Nat.le_trans hk hij)

/-- An edit behind plain tags leaves them plain, and within the first pass. -/
theorem PlainUpTo.apply {d' : Document} {edit : Edit} (h : parse markup = .ok d)
    (h' : parse (edit.apply markup) = .ok d') {index : Nat} (hplain : d.PlainUpTo index)
    (hstart : edit.start ≤ markup.length)
    (hbehind : ∀ i ≤ index, ∀ e, d.elements[i]? = some e → e.bodyStart ≤ edit.start)
    (hsame : ∀ i ≤ index, d'.elements[i]?.map Element.opening = d.elements[i]?.map Element.opening) :
    d'.PlainUpTo index := by
  obtain rfl := markup_of_parse h
  intro i hi e' he'
  have hopening := hsame i hi
  rw [he', Option.map_some] at hopening
  obtain ⟨e, he, heq⟩ := Option.map_eq_some_iff.1 hopening.symm
  obtain ⟨hplace, htag⟩ := Prod.mk.inj heq
  obtain ⟨hplainTag, hpass⟩ := hplain i hi e he
  refine ⟨htag ▸ hplainTag, ?_⟩
  obtain ⟨front, last, tail, hcomes⟩ := exists_place h he
  have hfirst : last = false := by
    refine hcomes.reads.last_eq_false ?_
    rw [hcomes.length_front]
    exact hpass
  subst hfirst
  have hle : e.start ≤ edit.start :=
    Nat.le_trans (Nat.le_of_lt e.start_lt_bodyStart) (hbehind i hi e he)
  have htake : (edit.apply d.markup).take e.start = d.markup.take e.start := by
    have htake := congrArg (List.take e.start) (Edit.take_apply hstart)
    rwa [List.take_take, List.take_take, Nat.min_eq_left hle] at htake
  have hcontinues := (hplain.mono hi).continues_apply h he (hbehind i hi e he) hstart
  obtain ⟨hreads, rest, hstep⟩ := hcontinues.reads hcomes htake
  obtain ⟨tokens, htokens, -⟩ := exists_tokens h'
  have hlt := hreads.lt_firstPass hstep (tokensOf_eq_ok_iff.1 htokens)
  rw [hcomes.length_front] at hlt
  rw [markup_of_parse h', ← hplace]
  exact hlt

-- ---------------------------------------------------------------------------
-- Edits at one element
-- ---------------------------------------------------------------------------

/-- Whether `d'` is `d` but for the element at `index`: all others have their start tags, those in
front of it have their places, and all other scripts and styles have their texts. -/
structure AlikeBut (index : Nat) (d d' : Document) : Prop where
  length : d'.elements.length = d.elements.length
  startTag : ∀ {i : Nat} {e e' : Element}, i ≠ index → d.elements[i]? = some e →
    d'.elements[i]? = some e' → e'.startTag = e.startTag
  opening : ∀ {i : Nat}, i < index →
    d'.elements[i]?.map Element.opening = d.elements[i]?.map Element.opening
  text : ∀ {i : Nat} {e e' : Element}, i ≠ index → d.elements[i]? = some e →
    d'.elements[i]? = some e' → (RawElement.ofName? e.tag).isSome = true → d'.text e' = d.text e
  plain : ∀ {i : Nat}, i < index → d.PlainUpTo i → d'.PlainUpTo i

theorem AlikeBut.refl (index : Nat) (d : Document) : AlikeBut index d d where
  length := rfl
  startTag _ he he' := by cases he.symm.trans he'; rfl
  opening _ := rfl
  text _ he he' _ := by cases he.symm.trans he'; rfl
  plain _ h := h

theorem AlikeBut.exists_element {index : Nat} {d' : Document} (h : AlikeBut index d d') {i : Nat}
    {e' : Element} (he' : d'.elements[i]? = some e') : ∃ e, d.elements[i]? = some e := by
  have hlt := (List.getElem?_eq_some_iff.1 he').1
  exact ⟨_, List.getElem?_eq_getElem (h.length ▸ hlt)⟩

theorem AlikeBut.trans {index : Nat} {d' d'' : Document} (h : AlikeBut index d d')
    (h' : AlikeBut index d' d'') : AlikeBut index d d'' where
  length := h'.length.trans h.length
  startTag hi he he'' := by
    obtain ⟨e', he'⟩ := h'.exists_element he''
    exact (h'.startTag hi he' he'').trans (h.startTag hi he he')
  opening hi := (h'.opening hi).trans (h.opening hi)
  text hi he he'' hraw := by
    obtain ⟨e', he'⟩ := h'.exists_element he''
    have hraw' := hraw
    rw [Element.tag, ← h.startTag hi he he'] at hraw'
    exact (h'.text hi he' he'' hraw').trans (h.text hi he he' hraw)
  plain hi hplain := h'.plain hi (h.plain hi hplain)

/-- A start tag ends in front of every later element. -/
theorem bodyStart_le_start (h : parse markup = .ok d) {i j : Nat} {e f : Element} (hij : i < j)
    (he : d.elements[i]? = some e) (hf : d.elements[j]? = some f) : e.bodyStart ≤ f.start := by
  obtain ⟨o, ho, helements, -⟩ := exists_outline h
  exact ho.ordered hij (helements ▸ he) (helements ▸ hf)

/-- The body of a script or style ends in front of every later element. -/
theorem bodyEnd_le_of_raw (h : parse markup = .ok d) {i j stop : Nat} {e f : Element} (hij : i < j)
    (he : d.elements[i]? = some e) (hf : d.elements[j]? = some f)
    (hraw : (RawElement.ofName? e.tag).isSome = true) (hstop : e.bodyEnd = some stop) :
    stop ≤ f.start := by
  obtain ⟨raw, hraw⟩ := Option.isSome_iff_exists.1 hraw
  obtain ⟨o, ho, helements, -⟩ := exists_outline h
  rw [← helements] at he hf
  cases hself : e.startTag.selfClosing with
  | true =>
    have hend := bodyEnd_of_selfClosing h (helements ▸ he) hself
    cases hend.symm.trans hstop
    exact ho.ordered hij he hf
  | false =>
    exact ho.leaf hij he hf hstop (hasChildren_of_raw h (helements ▸ he) hraw hself)

/-- An edit of the start tag of an element, or of its body, leaves all else alike. -/
theorem Follows.alikeBut {d' : Document} {edit : Edit} {index : Nat} {tag : StartTag} {e : Element}
    (hfollows : d.Follows edit index tag d') (h : parse markup = .ok d)
    (h' : parse (edit.apply markup) = .ok d') (he : d.elements[index]? = some e)
    (hlow : e.start ≤ edit.start) (hhigh : edit.start ≤ e.bodyStart) (hstop : e.bodyStart ≤ edit.stop) :
    AlikeBut index d d' := by
  have hopening {i : Nat} (hi : i < index) :
      d'.elements[i]?.map Element.opening = d.elements[i]?.map Element.opening := by
    rw [hfollows.opening]
    cases hf : d.elements[i]? with
    | none => rfl
    | some f =>
      have hle := Nat.le_trans (bodyStart_le_start h hi hf he) hlow
      rw [Option.map_some, Option.map_some, if_neg (Nat.ne_of_gt hi),
        Edit.shift_of_le (Nat.le_trans (Nat.le_of_lt f.start_lt_bodyStart) hle)]
      rfl
  have hopenings : d'.elements.map Element.opening = d.elements.mapIdx fun i e =>
      (edit.shift e.start, if index = i then tag else e.startTag) := by
    refine List.ext_getElem? fun i => ?_
    rw [List.getElem?_map, hfollows.opening, List.getElem?_mapIdx]
  refine ⟨?_, ?_, hopening, ?_, ?_⟩
  · rw [← List.length_map, hopenings, List.length_mapIdx]
  · intro i f f' hi hf hf'
    have hsame := hfollows.opening i
    rw [hf, hf', Option.map_some, Option.map_some, if_neg (Ne.symm hi)] at hsame
    exact (Prod.mk.inj (Option.some.inj hsame)).2
  · intro i f f' hi hf hf' hraw
    refine hfollows.text_apart hf hf' fun x hx hbounds => ?_
    rcases Nat.lt_or_gt_of_ne hi with hi | hi
    · have hle := bodyEnd_le_of_raw h hi hf he hraw hx
      have := e.start_lt_bodyStart
      omega
    · have hle := bodyStart_le_start h hi he hf
      have := f.start_lt_bodyStart
      omega
  · intro i hi hplain
    refine hplain.apply h h' ?_ (fun j hj f hf => ?_) fun j hj => hopening (Nat.lt_of_le_of_lt hj hi)
    · exact markup_of_parse h ▸ Nat.le_trans hhigh (bodyStart_le_length h he)
    · exact Nat.le_trans (bodyStart_le_start h (Nat.lt_of_le_of_lt hj hi) hf he) hlow

section Element

variable {index : Nat} {e : Element}

/-- Behind plain tags, another body in a script or style is read back as that. -/
theorem exists_rebodied (h : parse markup = .ok d) (hplain : d.PlainUpTo index)
    (he : d.elements[index]? = some e) {raw : RawElement}
    (hraw : RawElement.ofName? e.tag = some raw) (hself : e.startTag.selfClosing = false) {stop : Nat}
    (hend : e.bodyEnd = some stop) (hlt : e.bodyStart < stop) {body : Text}
    (hbody : ¬ HoldsEndTag raw.name body) :
    ∃ d' e', parse (Edit.apply ⟨e.bodyStart, stop, body⟩ markup) = .ok d' ∧
      AlikeBut index d d' ∧ d'.PlainUpTo index ∧ d'.elements[index]? = some e' ∧
      e'.opening = e.opening ∧ d'.text e' = body := by
  obtain rfl := markup_of_parse h
  have hlength := bodyStart_le_length h he
  obtain ⟨d', hparse, hfollows, htext⟩ := (readsBackWithBody_iff h he hraw hself hend hlt body).2
    ⟨hplain.continues_apply h he (Nat.le_refl _) hlength, hbody⟩
  obtain ⟨e', he', htext⟩ := Option.map_eq_some_iff.1 htext
  have halike := hfollows.alikeBut h hparse he (Nat.le_of_lt e.start_lt_bodyStart) (Nat.le_refl _)
    (Nat.le_of_lt hlt)
  have hopening := hfollows.opening index
  rw [he, he', Option.map_some, Option.map_some, if_pos rfl,
    Edit.shift_of_le (Nat.le_of_lt e.start_lt_bodyStart)] at hopening
  refine ⟨d', e', hparse, halike, ?_, he', Option.some.inj hopening, htext⟩
  refine hplain.apply h hparse hlength (fun i hi f hf => ?_) fun i hi => ?_
  · rcases Nat.lt_or_eq_of_le hi with hi | rfl
    · exact Nat.le_trans (bodyStart_le_start h hi hf he) (Nat.le_of_lt e.start_lt_bodyStart)
    · cases he.symm.trans hf
      exact Nat.le_refl _
  · rcases Nat.lt_or_eq_of_le hi with hi | rfl
    · exact halike.opening hi
    · rw [he, he']
      exact hopening

/-- Behind plain tags, a start tag in which an attribute is set is read back as that. -/
theorem exists_retagged (h : parse markup = .ok d) (hplain : d.PlainUpTo index)
    (he : d.elements[index]? = some e) {name : Text} (hname : IsAsciiName name) (value : Text) :
    ∃ d' e', parse (Edit.apply ⟨e.start, e.bodyStart,
        TagText.setAttribute (Text.lower name) value e.startTag.source⟩ markup) = .ok d' ∧
      AlikeBut index d d' ∧ d'.elements[index]? = some e' ∧ e.IsSetTag name value e'.startTag ∧
      ((RawElement.ofName? e.tag).isSome = true → d'.text e' = d.text e) := by
  obtain ⟨d', tag, hparse, hfollows, hset⟩ := (readsBackSet_iff h he hname value).2.2 hplain
  rw [serialize_setAttribute h he, ← hset.source] at hparse
  have hlt := e.start_lt_bodyStart
  have halike := hfollows.alikeBut h hparse he (Nat.le_refl _) (Nat.le_of_lt hlt) (Nat.le_refl _)
  have hopening := hfollows.opening index
  rw [he, Option.map_some, if_pos rfl] at hopening
  obtain ⟨e', he', hsame⟩ := Option.map_eq_some_iff.1 hopening
  have htag : e'.startTag = tag := (Prod.mk.inj hsame).2
  refine ⟨d', e', hset.source ▸ hparse, halike, he', htag ▸ hset, fun _ => ?_⟩
  exact hfollows.text_apart he he' fun x _ hbounds => absurd hbounds.1 (Nat.not_le_of_lt hlt)

end Element

-- ---------------------------------------------------------------------------
-- Edits at many elements
-- ---------------------------------------------------------------------------

/-- Whether `e'` is `e` with no change but these: an attribute is set, and as a closed script or style
it has another body. -/
structure ChangesElement (e e' : Element) : Prop where
  startTag : e'.startTag = e.startTag
  start : e'.start = e.start
  bodyEnd : e'.bodyEnd = e.bodyEnd
  newTag : e'.newTag = none ∧ e'.attributes = e.attributes ∨
    ∃ name value, IsAsciiName name ∧
      e'.newTag = some (TagText.setAttribute (Text.lower name) value e.startTag.source) ∧
      e'.attributes = e.attributes.set (Text.lower name) (some value)
  newBody : e'.newBody = none ∨ ∃ body raw stop, e'.newBody = some body ∧
    RawElement.ofName? e.tag = some raw ∧ e.startTag.selfClosing = false ∧ e.bodyEnd = some stop ∧
    e.bodyStart < stop

/-- Whether `d'` is `d` with changes to elements, at most one attribute set in each start tag. -/
structure Changes (d d' : Document) : Prop where
  markup : d'.markup = d.markup
  length : d'.elements.length = d.elements.length
  element : ∀ {i : Nat} {e e' : Element}, d.elements[i]? = some e → d'.elements[i]? = some e' →
    ChangesElement e e'

/-- Whether `d'` is `d` with changes behind plain tags, none of which puts an end tag of its element
into a body. -/
structure ChangesPlainly (d d' : Document) : Prop extends Changes d d' where
  plain : ∀ {i : Nat} {e' : Element}, d'.elements[i]? = some e' →
    e'.newTag ≠ none ∨ e'.newBody ≠ none → d.PlainUpTo i
  bare : ∀ {i : Nat} {e' : Element} {body : Text} {raw : RawElement}, d'.elements[i]? = some e' →
    e'.newBody = some body → RawElement.ofName? e'.tag = some raw → ¬ HoldsEndTag raw.name body

/-- Whether the elements of `d'` show those of `d` as they have been changed: they have the same
names, the attributes with the changes made to them, and as scripts and styles the texts with the
changes made to them. -/
structure IsShownBy (d d' : Document) : Prop where
  length : d'.elements.length = d.elements.length
  tag : ∀ {i : Nat} {e e' : Element}, d.elements[i]? = some e → d'.elements[i]? = some e' →
    e'.tag = e.tag
  lookup : ∀ {i : Nat} {e e' : Element}, d.elements[i]? = some e → d'.elements[i]? = some e' →
    ∀ name, e'.attributes.lookup name = e.attributes.lookup name
  text : ∀ {i : Nat} {e e' : Element}, d.elements[i]? = some e → d'.elements[i]? = some e' →
    (RawElement.ofName? e.tag).isSome = true → d'.text e' = d.text e

def editsFrom (d : Document) (index : Nat) : List Edit := (d.elements.drop index).flatMap editsOf

def writtenFrom (d : Document) (index : Nat) : Text := splice d.markup 0 (d.editsFrom index)

theorem editsFrom_eq {index : Nat} {e : Element} (he : d.elements[index]? = some e) :
    d.editsFrom index = editsOf e ++ d.editsFrom (index + 1) := by
  obtain ⟨hlt, rfl⟩ := List.getElem?_eq_some_iff.1 he
  rw [editsFrom, List.drop_eq_getElem_cons hlt, List.flatMap_cons]
  rfl

/-- The first of several edits is made in the text in which the others are made. -/
theorem splice_cons_eq_apply {edit : Edit} {edits : List Edit} (hbounds : edit.start ≤ edit.stop)
    (hlength : edit.stop ≤ markup.length) (hbehind : ∀ other ∈ edits, edit.stop ≤ other.start) :
    splice markup 0 (edit :: edits) = edit.apply (splice markup 0 edits) := by
  have hsplit : splice markup 0 edits = markup.take edit.stop ++ splice markup edit.stop edits := by
    cases edits with
    | nil => exact (List.take_append_drop _ _).symm
    | cons other rest =>
      have hslice := Edit.slice_append_slice markup (Nat.zero_le edit.stop)
        (hbehind other List.mem_cons_self)
      rw [splice, splice, ← hslice]
      simp only [Text.slice, List.drop_zero, List.append_assoc]
  have htake : (markup.take edit.stop).length = edit.stop := by
    rw [List.length_take, Nat.min_eq_left hlength]
  rw [Edit.apply, hsplit, List.take_append_of_le_length (by rw [htake]; exact hbounds),
    List.take_take, Nat.min_eq_left hbounds, List.drop_left' htake]
  rfl

/-- Whether the elements of `d'` show those of `d` in front of `index` and those of `d₁` from there
on. -/
structure ShownFrom (d d₁ : Document) (index : Nat) (d' : Document) : Prop where
  length : d'.elements.length = d.elements.length
  opening : ∀ {i : Nat}, i < index →
    d'.elements[i]?.map Element.opening = d.elements[i]?.map Element.opening
  text : ∀ {i : Nat} {e e' : Element}, i < index → d.elements[i]? = some e →
    d'.elements[i]? = some e' → (RawElement.ofName? e.tag).isSome = true → d'.text e' = d.text e
  plain : ∀ {i : Nat}, i < index → d.PlainUpTo i → d'.PlainUpTo i
  shown : ∀ {i : Nat} {e e' : Element}, index ≤ i → d₁.elements[i]? = some e →
    d'.elements[i]? = some e' → e'.tag = e.tag ∧
      (∀ name, e'.attributes.lookup name = e.attributes.lookup name) ∧
      ((RawElement.ofName? e.tag).isSome = true → d'.text e' = d₁.text e)

/-- With the element in front changed as well, the elements are shown from there on. -/
theorem ShownFrom.step {d₁ d' d'' : Document} {index : Nat} {text text' : Text} {e₁ : Element}
    (hshown : d.ShownFrom d₁ (index + 1) d') (h' : parse text = .ok d') (h'' : parse text' = .ok d'')
    (halike : AlikeBut index d' d'') (he₁ : d₁.elements[index]? = some e₁)
    (hindex : ∀ {e''}, d''.elements[index]? = some e'' → e''.tag = e₁.tag ∧
      (∀ name, e''.attributes.lookup name = e₁.attributes.lookup name) ∧
      ((RawElement.ofName? e₁.tag).isSome = true → d''.text e'' = d₁.text e₁)) :
    d.ShownFrom d₁ index d'' := by
  refine ⟨halike.length.trans hshown.length, fun hi => ?_, fun {i e e''} hi he he'' hraw => ?_,
    fun hi hplain => halike.plain hi (hshown.plain (Nat.lt_succ_of_lt hi) hplain),
    fun {i e e''} hi he he'' => ?_⟩
  · exact (halike.opening hi).trans (hshown.opening (Nat.lt_succ_of_lt hi))
  · obtain ⟨e', he'⟩ := halike.exists_element he''
    have hopening := hshown.opening (Nat.lt_succ_of_lt hi)
    rw [he, he', Option.map_some, Option.map_some] at hopening
    have hname : e'.tag = e.tag := congrArg (StartTag.name ∘ Prod.snd) (Option.some.inj hopening)
    rw [halike.text (Nat.ne_of_lt hi) he' he'' (by rw [hname]; exact hraw)]
    exact hshown.text (Nat.lt_succ_of_lt hi) he he' hraw
  · rcases Nat.lt_or_eq_of_le hi with hi | rfl
    · obtain ⟨e', he'⟩ := halike.exists_element he''
      obtain ⟨htag, hlookup, htext⟩ := hshown.shown hi he he'
      have hstart := halike.startTag (Nat.ne_of_gt hi) he' he''
      have hname : e''.tag = e'.tag := congrArg StartTag.name hstart
      have hattributes : e''.attributes = e'.attributes := by
        rw [(isUnchanged_of_parse h'' _ (List.mem_of_getElem? he'')).1, hstart,
          ← (isUnchanged_of_parse h' _ (List.mem_of_getElem? he')).1]
      refine ⟨hname.trans htag, fun name => hattributes ▸ hlookup name, fun hraw => ?_⟩
      rw [halike.text (Nat.ne_of_gt hi) he' he'' (by rw [htag]; exact hraw)]
      exact htext hraw
    · cases he₁.symm.trans he
      exact hindex he''

/-- The body of a closed element ends as many characters behind its start as its text has. -/
theorem bodyEnd_of_raw (h : parse markup = .ok d) {index : Nat} {e : Element}
    (he : d.elements[index]? = some e) {raw : RawElement} (hraw : RawElement.ofName? e.tag = some raw)
    (hself : e.startTag.selfClosing = false) :
    e.bodyEnd = some (e.bodyStart + (d.text e).length) := by
  obtain ⟨front, last, tail, hplace⟩ := exists_place h he
  obtain ⟨body, closing, _, _, _, _, hsplit, -, -, -, hend, -⟩ := hplace.rawBody h hraw hself
  rw [text_of_parse h (List.mem_of_getElem? he), Document.body, hend]
  dsimp only
  rw [Text.slice, List.drop_take, hsplit, Nat.add_sub_cancel_left, List.take_left]

section Changes

variable {d₁ : Document} {index : Nat}

theorem Changes.exists_element (hchanges : d.Changes d₁) {e₁ : Element}
    (he₁ : d₁.elements[index]? = some e₁) : ∃ e, d.elements[index]? = some e := by
  have hlt := (List.getElem?_eq_some_iff.1 he₁).1
  exact ⟨_, List.getElem?_eq_getElem (hchanges.length ▸ hlt)⟩

/-- The edits of later elements lie behind the start tag of an element. -/
theorem Changes.le_of_mem_editsFrom (hchanges : d.Changes d₁) {edit : Edit}
    (hedit : edit ∈ d₁.editsFrom (index + 1)) :
    ∃ i e, index < i ∧ d.elements[i]? = some e ∧ e.start ≤ edit.start := by
  obtain ⟨e₁, he₁, hmem⟩ := List.mem_flatMap.1 hedit
  obtain ⟨i, hi⟩ := List.mem_iff_getElem?.1 he₁
  rw [List.getElem?_drop] at hi
  obtain ⟨e, he⟩ := hchanges.exists_element hi
  refine ⟨_, e, by omega, he, ?_⟩
  rw [← (hchanges.element he hi).start]
  unfold editsOf at hmem
  rcases List.mem_append.1 hmem with hmem | hmem
  · obtain ⟨text, -, rfl⟩ := Option.map_eq_some_iff.1 (Option.mem_toList.1 hmem)
    exact Nat.le_refl _
  · obtain ⟨text, -, rfl⟩ := Option.map_eq_some_iff.1 (Option.mem_toList.1 hmem)
    exact Nat.le_of_lt e₁.start_lt_bodyStart

/-- The body of a script or style ends within the markup, and in front of the edits of later
elements. -/
theorem Changes.stop_le (hchanges : d.Changes d₁) (h : parse markup = .ok d) {e : Element}
    (he : d.elements[index]? = some e) (hraw : (RawElement.ofName? e.tag).isSome = true) {stop : Nat}
    (hend : e.bodyEnd = some stop) :
    stop ≤ d₁.markup.length ∧ ∀ edit ∈ d₁.editsFrom (index + 1), stop ≤ edit.start := by
  constructor
  · rw [hchanges.markup, markup_of_parse h]
    exact (bodyEnd_bounds_of_parse h (List.mem_of_getElem? he) hend).2
  · intro edit hedit
    obtain ⟨j, f, hj, hf, hle⟩ := hchanges.le_of_mem_editsFrom hedit
    exact Nat.le_trans (bodyEnd_le_of_raw h hj he hf hraw hend) hle

def bodyEditOf (e : Element) : List Edit :=
  (e.newBody.map fun text => ⟨e.bodyStart, e.bodyEnd.getD e.bodyStart, text⟩).toList

/-- How an element comes out of the changes behind it and in its body: where it was, and with its
new text. -/
structure Filled (d d₁ : Document) (index : Nat) (e e₁ : Element) (d' d'' : Document) (f : Element) :
    Prop where
  alike : AlikeBut index d' d''
  plain : d.PlainUpTo index → d''.PlainUpTo index
  element : d''.elements[index]? = some f
  opening : f.opening = e.opening
  text : (RawElement.ofName? e.tag).isSome = true → d''.text f = d₁.text e₁

theorem ChangesElement.bodyStart {e e' : Element} (h : ChangesElement e e') :
    e'.bodyStart = e.bodyStart := by
  rw [Element.bodyStart, h.start, h.startTag]
  rfl

/-- The change of a body is read back where all changes behind it are. -/
theorem ShownFrom.exists_filled (h : parse markup = .ok d) (hchanges : d.ChangesPlainly d₁)
    {e e₁ : Element} (he : d.elements[index]? = some e) (he₁ : d₁.elements[index]? = some e₁)
    {d' : Document} (hparse : parse (d₁.writtenFrom (index + 1)) = .ok d')
    (hshown : d.ShownFrom d₁ (index + 1) d') :
    ∃ d'' f, parse (splice d₁.markup 0 (bodyEditOf e₁ ++ d₁.editsFrom (index + 1))) = .ok d'' ∧
      Filled d d₁ index e e₁ d' d'' f := by
  have hchange := hchanges.element he he₁
  obtain ⟨e', he'⟩ : ∃ e', d'.elements[index]? = some e' := by
    have hlt := (List.getElem?_eq_some_iff.1 he).1
    exact ⟨_, List.getElem?_eq_getElem (hshown.length ▸ hlt)⟩
  have hopening := hshown.opening (Nat.lt_succ_self index)
  rw [he, he', Option.map_some, Option.map_some] at hopening
  have hopening : e'.opening = e.opening := Option.some.inj hopening
  obtain ⟨hstart, htag⟩ := Prod.mk.inj hopening
  have hname : e'.tag = e.tag := congrArg StartTag.name htag
  have hplain := hshown.plain (Nat.lt_succ_self index)
  have hsame (hraw : (RawElement.ofName? e.tag).isSome = true) : d'.text e' = d.text e :=
    hshown.text (Nat.lt_succ_self index) he he' hraw
  rcases hchange.newBody with hnone | ⟨body, raw, stop, hbody, hraw, hself, hend, hlt⟩
  · refine ⟨d', e', ?_, .refl index d', hplain, he', hopening, fun hraw => ?_⟩
    · rwa [bodyEditOf, hnone]
    · rw [hsame hraw, text_of_parse h (List.mem_of_getElem? he), Document.text, hnone,
        Option.getD_none, Document.body, Document.body, hchange.bodyEnd, hchange.bodyStart,
        hchanges.markup]
  · have hbodyStart : e'.bodyStart = e.bodyStart := by
      rw [Element.bodyStart, hstart, htag]
      rfl
    have hraw' : RawElement.ofName? e'.tag = some raw := hname ▸ hraw
    have hself' : e'.startTag.selfClosing = false := htag ▸ hself
    have hend' : e'.bodyEnd = some stop := by
      rw [bodyEnd_of_raw hparse he' hraw' hself', hsame (Option.isSome_iff_exists.2 ⟨_, hraw⟩),
        hbodyStart, ← bodyEnd_of_raw h he hraw hself, hend]
    have hp : d.PlainUpTo index :=
      hchanges.plain he₁ (.inr (by rw [hbody]; exact Option.some_ne_none _))
    have hname₁ : e₁.tag = e.tag := congrArg StartTag.name hchange.startTag
    have hbare := hchanges.bare he₁ hbody (hname₁ ▸ hraw)
    obtain ⟨d'', f, hparse'', halike, hplain'', hf, hopening'', htext⟩ :=
      exists_rebodied hparse (hplain hp) he' hraw' hself' hend' (hbodyStart ▸ hlt) hbare
    refine ⟨d'', f, ?_, halike, fun _ => hplain'', hf, hopening''.trans hopening, fun _ => ?_⟩
    · obtain ⟨hbounds, hbehind⟩ :=
        hchanges.stop_le h he (Option.isSome_iff_exists.2 ⟨_, hraw⟩) hend
      rw [hbodyStart] at hparse''
      rw [bodyEditOf, hbody, hchange.bodyStart, hchange.bodyEnd, hend, Option.map_some,
        Option.toList_some, List.singleton_append]
      rwa [splice_cons_eq_apply (Nat.le_of_lt hlt) hbounds hbehind]
    · rw [htext, Document.text, hbody, Option.getD_some]

/-- The changes of an element are read back where all changes behind it are. -/
theorem ShownFrom.exists_step (h : parse markup = .ok d) (hchanges : d.ChangesPlainly d₁)
    {e e₁ : Element} (he : d.elements[index]? = some e) (he₁ : d₁.elements[index]? = some e₁)
    {d' : Document} (hparse : parse (d₁.writtenFrom (index + 1)) = .ok d')
    (hshown : d.ShownFrom d₁ (index + 1) d') :
    ∃ d'', parse (d₁.writtenFrom index) = .ok d'' ∧ d.ShownFrom d₁ index d'' := by
  have hchange := hchanges.element he he₁
  obtain ⟨d₂, f, hparse₂, hfilled⟩ := hshown.exists_filled h hchanges he he₁ hparse
  obtain ⟨hstart, htag⟩ := Prod.mk.inj hfilled.opening
  have hunchanged := isUnchanged_of_parse hparse₂ f (List.mem_of_getElem? hfilled.element)
  have hattributes : f.attributes = e.attributes := by
    rw [hunchanged.1, htag, ← (isUnchanged_of_parse h e (List.mem_of_getElem? he)).1]
  have hname₁ : e₁.tag = e.tag := congrArg StartTag.name hchange.startTag
  have hname : f.tag = e.tag := congrArg StartTag.name htag
  rw [writtenFrom, editsFrom_eq he₁]
  rcases hchange.newTag with ⟨hnone, hsame⟩ | ⟨name, value, hascii, hset, hsame⟩
  · refine ⟨d₂, ?_, hshown.step hparse hparse₂ hfilled.alike he₁ fun he'' => ?_⟩
    · rwa [show editsOf e₁ = bodyEditOf e₁ by rw [editsOf, hnone]; rfl]
    · cases hfilled.element.symm.trans he''
      refine ⟨hname.trans hname₁.symm, fun other => ?_, fun hraw => hfilled.text (hname₁ ▸ hraw)⟩
      rw [hattributes, hsame]
  · have hp : d.PlainUpTo index :=
      hchanges.plain he₁ (.inl (by rw [hset]; exact Option.some_ne_none _))
    obtain ⟨d₃, g, hparse₃, halike, hg, hretag, htext⟩ :=
      exists_retagged hparse₂ (hfilled.plain hp) hfilled.element hascii value
    refine ⟨d₃, ?_, hshown.step hparse hparse₃ (hfilled.alike.trans halike) he₁ fun he'' => ?_⟩
    · have hedits : editsOf e₁ = ⟨e.start, e.bodyStart,
          TagText.setAttribute (Text.lower name) value e.startTag.source⟩ :: bodyEditOf e₁ := by
        rw [editsOf, bodyEditOf, hset, hchange.start, hchange.bodyStart]
        rfl
      have hbodyStart : f.bodyStart = e.bodyStart := by
        rw [Element.bodyStart, hstart, htag]
        rfl
      rw [hbodyStart, hstart, htag] at hparse₃
      rw [hedits, List.cons_append, splice_cons_eq_apply (Nat.le_of_lt e.start_lt_bodyStart)]
      · exact hparse₃
      · rw [hchanges.markup]
        exact bodyStart_le_length h he
      · intro other hother
        rcases List.mem_append.1 hother with hmem | hmem
        · obtain ⟨text, -, rfl⟩ := Option.map_eq_some_iff.1 (Option.mem_toList.1 hmem)
          exact Nat.le_of_eq hchange.bodyStart.symm
        · obtain ⟨j, k, hj, hk, hle⟩ := hchanges.le_of_mem_editsFrom hmem
          exact Nat.le_trans (bodyStart_le_start h hj he hk) hle
    · cases hg.symm.trans he''
      refine ⟨hretag.element.trans (hname.trans hname₁.symm), fun other => ?_, fun hraw => ?_⟩
      · rw [(isUnchanged_of_parse hparse₃ g (List.mem_of_getElem? hg)).1, hretag.lookup,
          hattributes, hsame, Attributes.lookup_set]
      · rw [hname₁] at hraw
        rw [htext (hname ▸ hraw), hfilled.text hraw]

/-- A document in which bodies are replaced by themselves, and nothing else is changed, is written as
it was read. -/
theorem Changes.serialize_eq (hchanges : d.Changes d₁) (h : parse markup = .ok d)
    (hkept : ∀ {i : Nat} {e e₁ : Element}, d.elements[i]? = some e → d₁.elements[i]? = some e₁ →
      e₁.newTag = none ∧ ∀ body, e₁.newBody = some body → body = d.body e) :
    d₁.serialize = markup := by
  have hall (n index : Nat) (hn : index + n = d₁.elements.length) :
      d₁.writtenFrom index = d₁.markup := by
    induction n generalizing index with
    | zero =>
      rw [writtenFrom, editsFrom, List.drop_eq_nil_of_le (show d₁.elements.length ≤ index by omega)]
      rfl
    | succ n ih =>
      obtain ⟨e₁, he₁⟩ : ∃ e₁, d₁.elements[index]? = some e₁ :=
        ⟨_, List.getElem?_eq_getElem (by omega)⟩
      obtain ⟨e, he⟩ := hchanges.exists_element he₁
      obtain ⟨hnoTag, hown⟩ := hkept he he₁
      have hlater := ih (index + 1) (by omega)
      have hedits : editsOf e₁ = bodyEditOf e₁ := by
        rw [editsOf, hnoTag]
        rfl
      rw [writtenFrom] at hlater
      rw [writtenFrom, editsFrom_eq he₁, hedits, bodyEditOf]
      have hchange := hchanges.element he he₁
      rcases hchange.newBody with hnone | ⟨body, raw, stop, hbody, hraw, -, hend, hlt⟩
      · rw [hnone]
        exact hlater
      · obtain ⟨hbounds, hbehind⟩ :=
          hchanges.stop_le h he (Option.isSome_iff_exists.2 ⟨_, hraw⟩) hend
        rw [hbody, hchange.bodyStart, hchange.bodyEnd, hend, Option.map_some, Option.toList_some,
          List.singleton_append]
        refine (splice_cons_eq_apply (Nat.le_of_lt hlt) hbounds hbehind).trans ?_
        rw [hlater, hown body hbody, Document.body, hend, Edit.apply, hchanges.markup]
        dsimp only [Option.getD_some]
        rw [List.append_assoc, slice_append_drop _ (Nat.le_of_lt hlt), List.take_append_drop]
  exact (hall d₁.elements.length 0 (Nat.zero_add _)).trans
    (hchanges.markup.trans (markup_of_parse h))

end Changes

/-- A document with changes behind plain tags is written as a text that is read back with all of
them made. -/
theorem ChangesPlainly.exists_isShownBy (h : parse markup = .ok d) {d₁ : Document}
    (hchanges : d.ChangesPlainly d₁) :
    ∃ d', parse d₁.serialize = .ok d' ∧ d₁.IsShownBy d' := by
  have hmarkup := hchanges.markup.trans (markup_of_parse h)
  -- What has been changed already are the elements from `index` on, `n` of them.
  have hall (n index : Nat) (hn : index + n = d.elements.length) :
      ∃ d', parse (d₁.writtenFrom index) = .ok d' ∧ d.ShownFrom d₁ index d' := by
    induction n generalizing index with
    | zero =>
      refine ⟨d, ?_, rfl, fun _ => rfl, fun _ he he' _ => ?_, fun _ hplain => hplain,
        fun hi he _ => ?_⟩
      · rw [writtenFrom, editsFrom, List.drop_eq_nil_of_le (hchanges.length ▸ Nat.le_of_eq hn.symm)]
        exact hmarkup.symm ▸ h
      · cases he.symm.trans he'
        rfl
      · have hlt := (List.getElem?_eq_some_iff.1 he).1
        rw [hchanges.length] at hlt
        omega
    | succ n ih =>
      obtain ⟨d', hparse, hshown⟩ := ih (index + 1) (by omega)
      have hlt : index < d.elements.length := by omega
      exact hshown.exists_step h hchanges (List.getElem?_eq_getElem hlt)
        (List.getElem?_eq_getElem (hchanges.length ▸ hlt)) hparse
  obtain ⟨d', hparse, hshown⟩ := hall d.elements.length 0 (Nat.zero_add _)
  exact ⟨d', hparse, hshown.length.trans hchanges.length.symm,
    fun he he' => (hshown.shown (Nat.zero_le _) he he').1,
    fun he he' => (hshown.shown (Nat.zero_le _) he he').2.1,
    fun he he' => (hshown.shown (Nat.zero_le _) he he').2.2⟩

end Document

end PageSplice.Html
