-- SUMMARY: Elements of a text in which one stretch has given way to another: what moves, and what stays.
import PageSplice.Proofs.Html.Editing
import PageSplice.Proofs.Html.Front

/-!
# Relocation

When a stretch of the markup gives way to another text, what stands behind it
moves. Elements move with it, and reading goes on among moved elements as it
does among those that stay: so behind the stretch it is enough to compare
places once.
-/

namespace PageSplice.Html

-- ---------------------------------------------------------------------------
-- Offsets and slices
-- ---------------------------------------------------------------------------

namespace Document.Edit

def apply (edit : Edit) (text : Text) : Text :=
  text.take edit.start ++ edit.replacement ++ text.drop edit.stop

/-- Where an offset comes to lie. -/
def shift (edit : Edit) (offset : Nat) : Nat :=
  if offset ≤ edit.start then offset
  else offset - (edit.stop - edit.start) + edit.replacement.length

theorem shift_of_le {edit : Edit} {x : Nat} (h : x ≤ edit.start) : edit.shift x = x := if_pos h

theorem shift_of_stop_le {edit : Edit} (hlt : edit.start < edit.stop) {x : Nat}
    (h : edit.stop ≤ x) :
    edit.shift x = edit.start + edit.replacement.length + (x - edit.stop) := by
  rw [shift, if_neg (Nat.not_le_of_lt (Nat.lt_of_lt_of_le hlt h))]
  omega

theorem shift_add {edit : Edit} (hlt : edit.start < edit.stop) {x : Nat} (h : edit.stop ≤ x)
    (n : Nat) : edit.shift (x + n) = edit.shift x + n := by
  rw [shift_of_stop_le hlt h, shift_of_stop_le hlt (Nat.le_trans h (Nat.le_add_right x n))]
  omega

section Slices

variable {edit : Edit} {text : Text} {i j : Nat}

theorem slice_apply_before (hstart : edit.start ≤ text.length) (h : j ≤ edit.start) :
    Text.slice (edit.apply text) i j = Text.slice text i j := by
  unfold Text.slice apply
  rw [List.append_assoc, List.take_append_of_le_length (by rw [List.length_take]; omega),
    List.take_take, Nat.min_eq_left h]

theorem take_apply (hstart : edit.start ≤ text.length) :
    (edit.apply text).take edit.start = text.take edit.start := by
  have hlength : (text.take edit.start).length = edit.start := by
    rw [List.length_take, Nat.min_eq_left hstart]
  rw [apply, List.append_assoc, List.take_left' hlength]

theorem drop_start_apply (hstart : edit.start ≤ text.length) :
    (edit.apply text).drop edit.start = edit.replacement ++ text.drop edit.stop := by
  have hlength : (text.take edit.start).length = edit.start := by
    rw [List.length_take, Nat.min_eq_left hstart]
  rw [apply, List.append_assoc, List.drop_left' hlength]

theorem drop_apply (hstart : edit.start ≤ text.length) (n : Nat) :
    (edit.apply text).drop (edit.start + edit.replacement.length + n) =
      text.drop (edit.stop + n) := by
  rw [Nat.add_assoc, ← List.drop_drop, drop_start_apply hstart, List.drop_length_add_append,
    List.drop_drop]

theorem slice_apply_behind (hlt : edit.start < edit.stop) (hstart : edit.start ≤ text.length)
    (hi : edit.stop ≤ i) (hij : i ≤ j) :
    Text.slice (edit.apply text) (edit.shift i) (edit.shift j) = Text.slice text i j := by
  have hlength : edit.shift j - edit.shift i = j - i := by
    rw [shift_of_stop_le hlt hi, shift_of_stop_le hlt (Nat.le_trans hi hij)]
    omega
  have hdrop : (edit.apply text).drop (edit.shift i) = text.drop i := by
    rw [shift_of_stop_le hlt hi, drop_apply hstart, Nat.add_sub_cancel' hi]
  unfold Text.slice
  rw [List.drop_take, List.drop_take, hlength, hdrop]

theorem slice_append_slice (text : Text) {i m j : Nat} (him : i ≤ m) (hmj : m ≤ j) :
    Text.slice text i m ++ Text.slice text m j = Text.slice text i j := by
  unfold Text.slice
  rw [List.drop_take, List.drop_take, List.drop_take]
  have hdrop : text.drop m = (text.drop i).drop (m - i) := by
    rw [List.drop_drop, Nat.add_sub_cancel' him]
  have hlength : j - i = (m - i) + (j - m) := by omega
  rw [hdrop, hlength, List.take_add]

/-- The text of a stretch around an edit has the replacement in the place of what was there. -/
theorem slice_apply_around (hlt : edit.start < edit.stop) (hstart : edit.start ≤ text.length)
    (hi : i ≤ edit.start) (hj : edit.stop ≤ j) :
    Text.slice (edit.apply text) i (edit.shift j) =
      Text.slice text i edit.start ++ edit.replacement ++ Text.slice text edit.stop j := by
  have hmiddle : Text.slice (edit.apply text) edit.start (edit.start + edit.replacement.length) =
      edit.replacement := by
    have hlength : (text.take edit.start).length = edit.start := by
      rw [List.length_take, Nat.min_eq_left hstart]
    unfold Text.slice apply
    rw [List.drop_take, List.append_assoc, List.drop_left' hlength, Nat.add_sub_cancel_left,
      List.take_left]
  have hstop : edit.shift edit.stop = edit.start + edit.replacement.length := by
    rw [shift_of_stop_le hlt (Nat.le_refl _), Nat.sub_self, Nat.add_zero]
  have hj' : edit.start + edit.replacement.length ≤ edit.shift j := by
    rw [shift_of_stop_le hlt hj]
    exact Nat.le_add_right _ _
  rw [← slice_append_slice (edit.apply text) hi (Nat.le_trans (Nat.le_add_right _ _) hj'),
    ← slice_append_slice (edit.apply text) (Nat.le_add_right _ _) hj', hmiddle,
    slice_apply_before hstart (Nat.le_refl _), ← hstop,
    slice_apply_behind hlt hstart (Nat.le_refl _) hj, List.append_assoc]

end Slices

end Document.Edit

-- ---------------------------------------------------------------------------
-- Elements
-- ---------------------------------------------------------------------------

def Element.relocate (edit : Document.Edit) (e : Element) : Element :=
  { e with start := edit.shift e.start, bodyEnd := e.bodyEnd.map edit.shift }

def Element.retag (tag : StartTag) (e : Element) : Element :=
  { e with startTag := tag, attributes := Attributes.ofTag tag.attributes [] }

/-- The elements where they come to lie, one of them with another start tag. -/
def relocated (edit : Document.Edit) (index : Nat) (tag : StartTag) (elements : List Element) :
    List Element :=
  (elements.map (Element.relocate edit)).modify index (Element.retag tag)

theorem modify_length {α : Type} (l : List α) (x : α) (f : α → α) :
    (l ++ [x]).modify l.length f = l ++ [f x] := by
  induction l with
  | nil => rfl
  | cons y rest ih => exact congrArg (y :: ·) ih

section Relocated

variable {edit : Document.Edit} {index : Nat} {tag : StartTag} {elements : List Element}

theorem length_relocated : (relocated edit index tag elements).length = elements.length := by
  rw [relocated, List.length_modify, List.length_map]

theorem getElem?_relocated (i : Nat) :
    (relocated edit index tag elements)[i]? = elements[i]?.map fun e =>
      if index = i then (e.relocate edit).retag tag else e.relocate edit := by
  rw [relocated, List.getElem?_modify, List.getElem?_map]
  cases elements[i]? <;> rfl

/-- What reading changes about an element it changes about the relocated one as well. -/
theorem relocated_modify {i : Nat} {f g : Element → Element}
    (h : ∀ e, (f e).relocate edit = g (e.relocate edit))
    (htag : ∀ e, (g e).retag tag = g (e.retag tag)) :
    relocated edit index tag (elements.modify i f) =
      (relocated edit index tag elements).modify i g := by
  refine List.ext_getElem? fun j => ?_
  rw [getElem?_relocated, List.getElem?_modify, List.getElem?_modify, getElem?_relocated]
  cases elements[j]? with
  | none => rfl
  | some e =>
    refine congrArg some ?_
    dsimp only
    split <;> split
    · rw [h, htag]
    · rfl
    · rw [h]
    · rfl

theorem relocated_append (h : index < elements.length) (more : List Element) :
    relocated edit index tag (elements ++ more) =
      relocated edit index tag elements ++ more.map (Element.relocate edit) := by
  refine List.ext_getElem? fun i => ?_
  rw [getElem?_relocated, List.getElem?_append, List.getElem?_append, length_relocated]
  by_cases hlt : i < elements.length
  · rw [if_pos hlt, if_pos hlt, getElem?_relocated]
  · have hne : index ≠ i := fun heq => hlt (heq ▸ h)
    rw [if_neg hlt, if_neg hlt, List.getElem?_map]
    simp only [if_neg hne]

end Relocated

-- ---------------------------------------------------------------------------
-- Reading among relocated elements
-- ---------------------------------------------------------------------------

namespace Outline

/-- What has been read, where it comes to lie. -/
def relocate (edit : Document.Edit) (index : Nat) (tag : StartTag) (o : Outline) : Outline :=
  ⟨relocated edit index tag o.elements, o.stack, edit.shift o.offset⟩

section Relocate

variable {edit : Document.Edit} {index : Nat} {tag : StartTag} {o : Outline}

theorem marked_relocate : (o.relocate edit index tag).marked = relocated edit index tag o.marked := by
  unfold marked relocate
  cases o.stack with
  | nil => rfl
  | cons entry outer =>
    exact (relocated_modify (f := fun e => { e with hasChildren := true })
      (g := fun e => { e with hasChildren := true }) (fun e => rfl) fun e => rfl).symm

theorem relocate_begun (hlt : edit.start < edit.stop) (h : edit.stop ≤ o.offset)
    (tag' : StartTag) :
    (o.begun tag').relocate edit = (o.relocate edit index tag).begun tag' := by
  unfold begun Element.relocate relocate
  cases tag'.selfClosing with
  | false => rfl
  | true =>
    simp only [if_true, Option.map_some, Document.Edit.shift_add hlt h]

theorem read_relocate (hlt : edit.start < edit.stop) (hstop : edit.stop ≤ o.offset)
    (hindex : index < o.elements.length) (t : Token) :
    (o.relocate edit index tag).read t = (o.read t).relocate edit index tag := by
  have hshift := Document.Edit.shift_add hlt hstop
  cases t with
  | inert source =>
    simp only [read, relocate, hshift]
  | start tag' =>
    have hmarked : index < o.marked.length := by rwa [length_marked]
    simp only [read, addElement_eq]
    rw [marked_relocate, ← relocate_begun hlt hstop]
    simp only [relocate, relocated_append hmarked, hshift, length_relocated, List.map_singleton]
  | close name source =>
    simp only [read, closeElement, relocate]
    cases o.stack.dropWhile fun entry => entry.1 ≠ name with
    | nil => simp only [hshift]
    | cons entry outer =>
      simp only [hshift]
      congr 1
      exact (relocated_modify (f := fun e => { e with bodyEnd := some o.offset })
        (g := fun e => { e with bodyEnd := some (edit.shift o.offset) }) (fun e => rfl)
        fun e => rfl).symm

theorem length_le_read (o : Outline) (t : Token) : o.elements.length ≤ (o.read t).elements.length := by
  cases t with
  | inert source => exact Nat.le_refl _
  | start tag =>
    simp only [read, addElement_eq, List.length_append, length_marked]
    exact Nat.le_add_right _ _
  | close name source =>
    rcases closeElement_cases o name source with heq | ⟨index, outer, -, heq⟩
    · simp only [read, heq]
      exact Nat.le_refl _
    · simp only [read, heq, List.length_modify]
      exact Nat.le_refl _

theorem foldl_read_relocate (hlt : edit.start < edit.stop) (hstop : edit.stop ≤ o.offset)
    (hindex : index < o.elements.length) (tokens : List Token) :
    tokens.foldl read (o.relocate edit index tag) =
      (tokens.foldl read o).relocate edit index tag := by
  induction tokens generalizing o with
  | nil => rfl
  | cons t rest ih =>
    have hoffset : (o.read t).offset = o.offset + (sourceOf [t]).length := offset_foldl_read o [t]
    rw [List.foldl_cons, read_relocate hlt hstop hindex]
    refine ih ?_ (Nat.lt_of_lt_of_le hindex (length_le_read o t))
    rw [hoffset]
    exact Nat.le_trans hstop (Nat.le_add_right _ _)

/-- Elements that have been read in front of an edit stay where they are. -/
theorem marked_relocate_of_le (ho : o.Nested) (h : o.offset ≤ edit.start) :
    o.marked.map (Element.relocate edit) = o.marked := by
  refine List.ext_getElem? fun i => ?_
  rw [List.getElem?_map]
  cases he : o.marked[i]? with
  | none => rfl
  | some e =>
    obtain ⟨e₀, he₀, hsame⟩ := getElem?_marked ho he
    obtain ⟨hstart₀, hend₀⟩ : e.start = e₀.start ∧ e.bodyEnd = e₀.bodyEnd := by
      rcases hsame with rfl | ⟨-, rfl⟩
      · exact ⟨rfl, rfl⟩
      · exact ⟨rfl, rfl⟩
    have hstart : edit.shift e.start = e.start := by
      refine Document.Edit.shift_of_le ?_
      rw [hstart₀]
      exact Nat.le_trans (Nat.le_of_lt e₀.start_lt_bodyStart)
        (Nat.le_trans (ho.bodyStart_le he₀) h)
    have hend : e.bodyEnd.map edit.shift = e.bodyEnd := by
      cases hx : e.bodyEnd with
      | none => rfl
      | some x =>
        have hle := Nat.le_trans (ho.bodyEnd_bounds he₀ (hend₀.symm.trans hx)).2 h
        exact congrArg some (Document.Edit.shift_of_le hle)
    rw [Option.map_some, Element.relocate, hstart, hend]

/-- A token closes an element that is open, or leaves its end as it is. -/
theorem bodyEnd_read (ho : o.Nested) {t : Token} {i : Nat} {e e' : Element}
    (he : o.elements[i]? = some e) (he' : (o.read t).elements[i]? = some e') :
    e'.bodyEnd = e.bodyEnd ∨ e.bodyEnd = none ∧ e'.bodyEnd = some o.offset := by
  cases t with
  | inert source =>
    cases he.symm.trans he'
    exact .inl rfl
  | start tag =>
    rcases getElem?_addElement ho he' with ⟨e₀, he₀, -, -, hend, -⟩ | ⟨hi, -⟩
    · cases he.symm.trans he₀
      exact .inl hend
    · exact absurd hi (Nat.ne_of_lt (lt_length_of_getElem? he))
  | close name source =>
    rcases closeElement_cases o name source with heq | ⟨index, outer, ⟨inner, hstack⟩, heq⟩
    · rw [show o.read (.close name source) = _ from heq] at he'
      cases he.symm.trans he'
      exact .inl rfl
    · rw [show o.read (.close name source) = _ from heq] at he'
      obtain ⟨e₀, he₀, -, -, -, -, ⟨rfl, hend⟩ | ⟨-, hend⟩⟩ := getElem?_modify_bodyEnd he'
      · cases he.symm.trans he₀
        have hmem : (name, i) ∈ o.stack := by
          rw [hstack]
          exact List.mem_append_right _ List.mem_cons_self
        obtain ⟨top, htop, -, hopen, -⟩ := ho.of_mem_stack hmem
        cases he.symm.trans htop
        exact .inr ⟨hopen, hend⟩
      · cases he.symm.trans he₀
        exact .inl hend

/-- An element that is closed stays as it is; one that is open is closed no earlier than here. -/
theorem bodyEnd_foldl_read (ho : o.Nested) {tokens : List Token} {i : Nat}
    {e e' : Element} (he : o.elements[i]? = some e)
    (he' : (tokens.foldl read o).elements[i]? = some e') :
    e'.bodyEnd = e.bodyEnd ∨ e.bodyEnd = none ∧ ∃ x, e'.bodyEnd = some x ∧ o.offset ≤ x := by
  induction tokens generalizing o e with
  | nil =>
    cases he.symm.trans he'
    exact .inl rfl
  | cons t rest ih =>
    have hoffset : (o.read t).offset = o.offset + (sourceOf [t]).length := offset_foldl_read o [t]
    have hlt := Nat.lt_of_lt_of_le (lt_length_of_getElem? he) (length_le_read o t)
    obtain ⟨e₁, he₁⟩ : ∃ e₁, (o.read t).elements[i]? = some e₁ :=
      ⟨_, List.getElem?_eq_getElem hlt⟩
    have hlater := ih (ho.read t) he₁ he'
    rcases bodyEnd_read ho he he₁ with hsame | ⟨hopen, hclosed⟩
    · rw [hsame] at hlater
      rcases hlater with hsame' | ⟨hopen, x, hx, hle⟩
      · exact .inl hsame'
      · exact .inr ⟨hopen, x, hx, by omega⟩
    · rcases hlater with hsame' | ⟨hopen', -⟩
      · exact .inr ⟨hopen, o.offset, hsame'.trans hclosed, Nat.le_refl _⟩
      · rw [hclosed] at hopen'
        cases hopen'

/-- The last element gets no child once its body has ended. -/
theorem hasChildren_foldl_read {tokens : List Token} (h : (tokens.foldl read o).Nested) {i x : Nat}
    {e : Element} (he : (tokens.foldl read o).elements[i]? = some e) (hend : e.bodyEnd = some x)
    (hlast : o.elements.length = i + 1) (hle : x ≤ o.offset) : e.hasChildren = false := by
  refine Bool.eq_false_iff.2 fun hchildren => ?_
  obtain ⟨j, f, hj, hf, hlt⟩ := h.parent he hend hchildren
  have hopening := congrArg (·[j]?) (openings_foldl_read o tokens)
  have hbehind : (o.elements.map Element.opening).length ≤ j := by
    rw [List.length_map, hlast]
    exact hj
  simp only [List.getElem?_map, hf, Option.map_some, List.getElem?_append_right hbehind] at hopening
  have hstart := le_of_mem_starts (List.mem_of_getElem? hopening.symm)
  exact absurd (Nat.le_trans hle hstart) (Nat.not_le_of_lt hlt)

end Relocate

end Outline

-- ---------------------------------------------------------------------------
-- The place of an element
-- ---------------------------------------------------------------------------

namespace Document

/-- How a scan comes to the element at `index`: what it reads in front of the start tag and behind
it, and whether it is in its last pass there. -/
structure Place (d : Document) (index : Nat) (e : Element) (front : List Token) (last : Bool)
    (tail : List Token) : Prop where
  element : d.elements[index]? = some e
  reads : Reads ⟨false, none, d.markup⟩ front ⟨last, none, d.markup.drop e.start⟩
  reaches : step last none (d.markup.drop e.start) =
    .ok (.token (.start e.startTag) (d.markup.drop e.bodyStart))
  scans : Scans ⟨last, (Token.start e.startTag).rawAfter none, d.markup.drop e.bodyStart⟩ tail
  starts_front : starts 0 front = (d.elements.take index).map Element.opening
  length_front : (sourceOf front).length = e.start
  elements : d.elements =
    (tail.foldl Outline.read ((front.foldl Outline.read .empty).addElement e.startTag)).elements

/-- A scan comes to each element of a document. -/
theorem exists_place {markup : Text} {d : Document} (h : parse markup = .ok d) {index : Nat}
    {e : Element} (he : d.elements[index]? = some e) :
    ∃ front last tail, d.Place index e front last tail := by
  obtain ⟨tokens, htokens, helements⟩ := exists_tokens h
  have hopenings := Outline.openings_foldl_read .empty tokens
  rw [← helements] at hopenings
  have hsplit : d.elements.map Element.opening =
      (d.elements.take index).map Element.opening ++
        (e.start, e.startTag) :: (d.elements.drop (index + 1)).map Element.opening := by
    have hdrop : d.elements.drop index = e :: d.elements.drop (index + 1) := by
      obtain ⟨hlt, rfl⟩ := List.getElem?_eq_some_iff.1 he
      exact List.drop_eq_getElem_cons hlt
    have hall := congrArg (List.map Element.opening) (List.take_append_drop index d.elements).symm
    rw [hdrop, List.map_append] at hall
    exact hall
  obtain ⟨front, tail, rfl, hfront, hstart⟩ :=
    exists_split_of_starts (hopenings.symm.trans hsplit)
  rw [← markup_of_parse h] at htokens
  obtain ⟨last, raw, s, rest, hreads, hstep, hscans⟩ := (tokensOf_eq_ok_iff.1 htokens).split
  obtain ⟨rfl, -⟩ := beginsTag_of_step hstep
  have hlength : (sourceOf front).length = e.start := by
    rw [hstart]
    exact (Nat.zero_add _).symm
  have hs : s = d.markup.drop e.start := by
    have hsource : sourceOf front ++ s = d.markup := hreads.source
    rw [← hsource, ← hlength, List.drop_left]
  have hrest : rest = d.markup.drop e.bodyStart := by
    obtain ⟨-, hcuts⟩ := step_cuts hstep
    have hcuts : e.startTag.source ++ rest = s := hcuts
    rw [Element.bodyStart, ← List.drop_drop, ← hs, ← hcuts, List.drop_left]
  subst hs hrest
  rw [List.foldl_append] at helements
  exact ⟨front, last, tail, he, hreads, hstep, hscans, hfront, hlength, helements⟩

/-- What has been read in front of an element. -/
theorem Place.outline {d : Document} {index : Nat} {e : Element} {front tail : List Token}
    {last : Bool} (h : d.Place index e front last tail) :
    (front.foldl Outline.read .empty).Nested ∧
      (front.foldl Outline.read .empty).elements.length = index ∧
      (front.foldl Outline.read .empty).offset = e.start := by
  refine ⟨Outline.nested_empty.foldl_read front, ?_, ?_⟩
  · have hopenings := Outline.openings_foldl_read .empty front
    have hcount := congrArg List.length (hopenings.trans h.starts_front)
    have hlt := (List.getElem?_eq_some_iff.1 h.element).1
    rwa [List.length_map, List.length_map, List.length_take,
      Nat.min_eq_left (Nat.le_of_lt hlt)] at hcount
  · rw [Outline.offset_foldl_read, h.length_front]
    exact Nat.zero_add _

/-- An element whose tag ends in `/>` has an empty body. -/
theorem bodyEnd_of_selfClosing {markup : Text} {d : Document} (h : parse markup = .ok d)
    {index : Nat} {e : Element} (he : d.elements[index]? = some e)
    (hself : e.startTag.selfClosing = true) : e.bodyEnd = some e.bodyStart := by
  obtain ⟨front, last, tail, hplace⟩ := exists_place h he
  obtain ⟨hnested, hindex, hoffset⟩ := hplace.outline
  have helements := hplace.elements
  generalize front.foldl Outline.read .empty = o at hnested hindex hoffset helements
  have hbegun : (o.addElement e.startTag).elements[index]? = some (o.begun e.startTag) := by
    rw [Outline.addElement_eq, ← hindex, ← Outline.length_marked, List.getElem?_concat_length]
  have hbodyEnd : (o.begun e.startTag).bodyEnd = some e.bodyStart := by
    rw [Outline.begun, hself, if_pos rfl, hoffset]
    rfl
  rw [helements] at he
  rcases Outline.bodyEnd_foldl_read (hnested.addElement e.startTag) hbegun he with hsame | ⟨hopen, -⟩
  · exact hsame.trans hbodyEnd
  · cases hbodyEnd.symm.trans hopen

-- ---------------------------------------------------------------------------
-- Texts with the same front
-- ---------------------------------------------------------------------------

/-- Whether a scan of `text` comes to the place of the element at `index`, with the same start tags
in front of it as in `d`, and finds the start tag `tag` there. -/
def Continues (d : Document) (text : Text) (index : Nat) (tag : StartTag) : Prop :=
  ∃ e front last rest, d.elements[index]? = some e ∧
    Reads ⟨false, none, text⟩ front ⟨last, none, text.drop e.start⟩ ∧
    starts 0 front = (d.elements.take index).map Element.opening ∧
    step last none (text.drop e.start) = .ok (.token (.start tag) rest)

/-- A text that continues a document is read as the document's own text up to the tag. -/
theorem Continues.reads {d : Document} {text : Text} {index : Nat} {tag : StartTag} {e : Element}
    {front tail : List Token} {last : Bool} (h : d.Continues text index tag)
    (hplace : d.Place index e front last tail) (htake : text.take e.start = d.markup.take e.start) :
    Reads ⟨false, none, text⟩ front ⟨last, none, text.drop e.start⟩ ∧
      ∃ rest, step last none (text.drop e.start) = .ok (.token (.start tag) rest) := by
  obtain ⟨e', front', last', rest, he', hreads', hfront', hstep'⟩ := h
  cases hplace.element.symm.trans he'
  obtain ⟨-, x, hx, hbegins⟩ := beginsTag_of_step hplace.reaches
  obtain ⟨-, y, hy, hbegins'⟩ := beginsTag_of_step hstep'
  have hmarkup : d.markup = d.markup.take e.start ++ '<' :: x := by
    rw [← hx, List.take_append_drop]
  have htext : text = d.markup.take e.start ++ '<' :: y := by
    rw [← hy, ← htake, List.take_append_drop]
  have hreads₁ : Reads ⟨false, none, d.markup.take e.start ++ '<' :: x⟩ front
      ⟨last, none, '<' :: x⟩ := by
    rw [← hmarkup, ← hx]
    exact hplace.reads
  have hreads₂ : Reads ⟨false, none, d.markup.take e.start ++ '<' :: y⟩ front'
      ⟨last', none, '<' :: y⟩ := by
    rw [← htext, ← hy]
    exact hreads'
  obtain ⟨rfl, rfl⟩ := Reads.front_unique hbegins hbegins' hreads₁ hreads₂
    (hplace.starts_front.trans hfront'.symm)
  exact ⟨hreads', rest, hstep'⟩

/-- A document that begins with the same start tags, and has an element at the place of the one at
`index`, continues the other one. -/
theorem continues_of_parse {d d' : Document} {text : Text} {index : Nat} {e e' : Element}
    (h : parse text = .ok d') (he : d.elements[index]? = some e)
    (he' : d'.elements[index]? = some e') (hstart : e'.start = e.start)
    (hfront : (d'.elements.take index).map Element.opening =
      (d.elements.take index).map Element.opening) : d.Continues text index e'.startTag := by
  obtain ⟨front, last, tail, hplace⟩ := exists_place h he'
  have hreads := hplace.reads
  have hreaches := hplace.reaches
  rw [markup_of_parse h, hstart] at hreads hreaches
  exact ⟨e, front, last, _, he, hreads, hplace.starts_front.trans hfront, hreaches⟩

-- ---------------------------------------------------------------------------
-- Relocated documents
-- ---------------------------------------------------------------------------

/-- The document in which an edit has been made, with the start tag `tag` at `index`. -/
def relocate (d : Document) (edit : Edit) (index : Nat) (tag : StartTag) : Document :=
  ⟨edit.apply d.markup, relocated edit index tag d.elements⟩

theorem bodyStart_le_length {markup : Text} {d : Document} (h : parse markup = .ok d) {i : Nat}
    {e : Element} (he : d.elements[i]? = some e) : e.bodyStart ≤ d.markup.length := by
  obtain ⟨o, ho, helements, hoffset⟩ := exists_outline h
  exact hoffset ▸ ho.bodyStart_le (helements ▸ he)

theorem unterminated?_of_parse {markup : Text} {d : Document} (h : parse markup = .ok d) :
    unterminated? d.elements = none := by
  unfold parse at h
  split at h
  · cases h
  · unfold ofElements at h
    split at h
    · cases h
    · rename_i hnone
      exact Except.ok.inj h ▸ hnone

/-- An edit takes no end tag away, so no script or style is left open by it. -/
theorem unterminated?_relocated {edit : Edit} {index : Nat} {tag : StartTag}
    {elements : List Element} (htag : ∀ e, elements[index]? = some e → tag.name = e.tag)
    (h : unterminated? elements = none) :
    unterminated? (relocated edit index tag elements) = none := by
  refine List.find?_eq_none.2 fun e he => ?_
  obtain ⟨i, hi⟩ := List.mem_iff_getElem?.1 he
  rw [getElem?_relocated] at hi
  obtain ⟨e₀, he₀, rfl⟩ := Option.map_eq_some_iff.1 hi
  have hterminated := List.find?_eq_none.1 h e₀ (List.mem_of_getElem? he₀)
  have hclosed : (e₀.relocate edit).isClosed = e₀.isClosed := Option.isSome_map
  split
  · rename_i hindex
    have hname : ((e₀.relocate edit).retag tag).tag = e₀.tag := htag e₀ (hindex ▸ he₀)
    rw [hname]
    exact hclosed ▸ hterminated
  · exact hclosed ▸ hterminated

/-- Where the elements of the tokens of a text are those of a document, relocated, the text is the
relocated document's. -/
theorem parse_relocate {markup : Text} {d : Document} (h : parse markup = .ok d) {edit : Edit}
    {index : Nat} {tag : StartTag} (htag : ∀ e, d.elements[index]? = some e → tag.name = e.tag)
    {tokens : List Token} (hscans : Scans ⟨false, none, edit.apply markup⟩ tokens)
    (htokens : (tokens.foldl Outline.read .empty).elements = relocated edit index tag d.elements) :
    parse (edit.apply markup) = .ok (d.relocate edit index tag) := by
  have helements : Outline.elementsOf tokens = relocated edit index tag d.elements := htokens
  rw [relocate, markup_of_parse h, parse_eq (tokensOf_eq_ok_iff.2 hscans)]
  simp only [helements, ofElements, unterminated?_relocated htag (unterminated?_of_parse h)]

theorem flatMap_modify {α β : Type} {l : List α} {g : α → List β} (hg : ∀ x ∈ l, g x = [])
    {index : Nat} {x : α} (hx : l[index]? = some x) (f : α → α) :
    (l.modify index f).flatMap g = g (f x) := by
  induction l generalizing index with
  | nil => cases hx
  | cons y rest ih =>
    have hrest : ∀ x ∈ rest, g x = [] := fun x hx => hg x (List.mem_cons_of_mem y hx)
    cases index with
    | zero =>
      cases hx
      rw [List.modify_zero_cons, List.flatMap_cons, List.flatMap_eq_nil_iff.2 hrest, List.append_nil]
    | succ index =>
      rw [List.modify_succ_cons, List.flatMap_cons, hg y List.mem_cons_self, List.nil_append]
      exact ih hrest hx

/-- Where one element has one edit, that edit is what writing makes. -/
theorem serialize_modify {markup : Text} {d : Document} (h : parse markup = .ok d) {index : Nat}
    {e : Element} (he : d.elements[index]? = some e) {f : Element → Element} {edit : Edit}
    (hedit : editsOf (f e) = [edit]) :
    serialize { d with elements := d.elements.modify index f } = edit.apply markup := by
  have hnone : ∀ e ∈ d.elements, editsOf e = [] := by
    intro e he
    obtain ⟨-, htag, hbody⟩ := isUnchanged_of_parse h e he
    simp only [editsOf, htag, hbody]
    rfl
  have hedits : edits { d with elements := d.elements.modify index f } = [edit] :=
    (flatMap_modify hnone he f).trans hedit
  rw [serialize, hedits, ← markup_of_parse h]
  rfl

-- ---------------------------------------------------------------------------
-- Texts of relocated documents
-- ---------------------------------------------------------------------------

/-- Whether `d'` has the elements of `d` as an edit leaves them. They have their tags and attributes,
but for the one at `index`, whose start tag is `tag`; each lies where it comes to lie; and they have
their texts, with the edit made in those that it lies in. -/
structure Follows (d : Document) (edit : Edit) (index : Nat) (tag : StartTag) (d' : Document) :
    Prop where
  opening : ∀ i, d'.elements[i]?.map Element.opening = d.elements[i]?.map fun e =>
    (edit.shift e.start, if index = i then tag else e.startTag)
  attributes : ∀ i, d'.elements[i]?.map Element.attributes = d.elements[i]?.map fun e =>
    if index = i then Attributes.ofTag tag.attributes [] else e.attributes
  text_apart : ∀ {i : Nat} {e e' : Element}, d.elements[i]? = some e → d'.elements[i]? = some e' →
    (∀ x, e.bodyEnd = some x → ¬ (e.bodyStart ≤ edit.start ∧ edit.stop ≤ x)) → d'.text e' = d.text e
  text_around : ∀ {i x : Nat} {e e' : Element}, d.elements[i]? = some e →
    d'.elements[i]? = some e' → e.bodyEnd = some x → e.bodyStart ≤ edit.start → edit.stop ≤ x →
    d'.text e' = Text.slice d.markup e.bodyStart edit.start ++ edit.replacement ++
      Text.slice d.markup edit.stop x

/-- A document whose elements are those of another one, as an edit behind the place of the element
at `index` leaves them, continues the other one. -/
theorem Follows.continues {markup text : Text} {d d' : Document} {edit : Edit} {index : Nat}
    {tag : StartTag} {e : Element} (hfollows : d.Follows edit index tag d')
    (h : parse markup = .ok d) (h' : parse text = .ok d') (he : d.elements[index]? = some e)
    (hstart : e.start ≤ edit.start) : d.Continues text index tag := by
  obtain ⟨o, ho, helements, -⟩ := exists_outline h
  have hopening := hfollows.opening index
  rw [he, Option.map_some, if_pos rfl, Edit.shift_of_le hstart] at hopening
  obtain ⟨e', he', heq⟩ := Option.map_eq_some_iff.1 hopening
  obtain ⟨hstart', rfl⟩ := Prod.mk.inj heq
  refine continues_of_parse h' he he' hstart' (List.ext_getElem? fun i => ?_)
  rw [List.getElem?_map, List.getElem?_map, List.getElem?_take, List.getElem?_take]
  by_cases hi : i < index
  · rw [if_pos hi, if_pos hi, hfollows.opening]
    cases hf : d.elements[i]? with
    | none => rfl
    | some f =>
      rw [← helements] at hf he
      have hle := Nat.le_trans (Nat.le_of_lt f.start_lt_bodyStart) (ho.ordered hi hf he)
      rw [Option.map_some, Option.map_some, if_neg (Nat.ne_of_gt hi),
        Edit.shift_of_le (Nat.le_trans hle hstart)]
      rfl
  · rw [if_neg hi, if_neg hi]

/-- Whether an edit cuts through no start tag and no end of a body, but for the start tag at `index`
in the place of which `tag` comes. -/
def Fits (d : Document) (edit : Edit) (index : Nat) (tag : StartTag) : Prop :=
  ∀ {i : Nat} {e : Element}, d.elements[i]? = some e →
    (if index = i then (e.relocate edit).retag tag else e.relocate edit).bodyStart =
      edit.shift e.bodyStart ∧
    ∀ x, e.bodyEnd = some x → e.bodyStart ≤ x ∧
      (x ≤ edit.start ∨ edit.stop ≤ e.bodyStart ∨ e.bodyStart ≤ edit.start ∧ edit.stop ≤ x)

theorem bodyStart_relocate_of_le {e : Element} {edit : Edit} (h : e.bodyStart ≤ edit.start) :
    (e.relocate edit).bodyStart = edit.shift e.bodyStart := by
  rw [Edit.shift_of_le h]
  exact congrArg (· + e.startTag.source.length)
    (Edit.shift_of_le (Nat.le_trans (Nat.le_of_lt e.start_lt_bodyStart) h))

theorem bodyStart_relocate_of_stop_le {e : Element} {edit : Edit} (hlt : edit.start < edit.stop)
    (h : edit.stop ≤ e.start) : (e.relocate edit).bodyStart = edit.shift e.bodyStart :=
  (Edit.shift_add hlt h _).symm

theorem text_of_parse {markup : Text} {d : Document} (h : parse markup = .ok d) {e : Element}
    (he : e ∈ d.elements) : d.text e = d.body e := by
  obtain ⟨-, -, hbody⟩ := isUnchanged_of_parse h e he
  rw [text, hbody, Option.getD_none]

/-- The text of a relocated element is what lies between the places of its ends. -/
theorem text_relocate {markup : Text} {d : Document} (h : parse markup = .ok d) {edit : Edit}
    {index : Nat} {tag : StartTag} (hfits : d.Fits edit index tag) {i : Nat} {e e' : Element}
    (he : d.elements[i]? = some e) (he' : (d.relocate edit index tag).elements[i]? = some e') :
    (d.relocate edit index tag).text e' = e.bodyEnd.elim [] fun x =>
      Text.slice (edit.apply d.markup) (edit.shift e.bodyStart) (edit.shift x) := by
  obtain ⟨-, -, hbody⟩ := isUnchanged_of_parse h e (List.mem_of_getElem? he)
  obtain ⟨hbodyStart, -⟩ := hfits he
  have hsome := (@getElem?_relocated edit index tag d.elements i).symm.trans he'
  rw [he, Option.map_some] at hsome
  rw [Option.some.inj hsome] at hbodyStart
  have hsame : e'.newBody = e.newBody ∧ e'.bodyEnd = e.bodyEnd.map edit.shift := by
    rw [← Option.some.inj hsome]
    split <;> exact ⟨rfl, rfl⟩
  rw [text, hsame.1, hbody, Option.getD_none, body, hsame.2, hbodyStart]
  cases e.bodyEnd <;> rfl

theorem follows_relocate {markup : Text} {d : Document} (h : parse markup = .ok d) {edit : Edit}
    (hlt : edit.start < edit.stop) (hstart : edit.start ≤ d.markup.length) {index : Nat}
    {tag : StartTag} (hfits : d.Fits edit index tag) :
    d.Follows edit index tag (d.relocate edit index tag) := by
  have hget (i : Nat) := @getElem?_relocated edit index tag d.elements i
  refine ⟨fun i => ?_, fun i => ?_, ?_, ?_⟩
  · rw [show (d.relocate edit index tag).elements[i]? = _ from hget i]
    cases d.elements[i]? with
    | none => rfl
    | some e =>
      simp only [Option.map_some]
      split <;> rfl
  · rw [show (d.relocate edit index tag).elements[i]? = _ from hget i]
    cases d.elements[i]? with
    | none => rfl
    | some e =>
      simp only [Option.map_some]
      split <;> rfl
  · intro i e e' he he' hapart
    obtain ⟨-, hbounds⟩ := hfits he
    rw [text_relocate h hfits he he', text_of_parse h (List.mem_of_getElem? he), body]
    cases hx : e.bodyEnd with
    | none => rfl
    | some x =>
      obtain ⟨hle, hbefore | hbehind | haround⟩ := hbounds x hx
      · rw [Option.elim_some, Edit.shift_of_le (Nat.le_trans hle hbefore), Edit.shift_of_le hbefore,
          Edit.slice_apply_before hstart hbefore]
      · exact Edit.slice_apply_behind hlt hstart hbehind hle
      · exact absurd haround (hapart x hx)
  · intro i x e e' he he' hx hbefore hbehind
    rw [text_relocate h hfits he he', hx, Option.elim_some, Edit.shift_of_le hbefore]
    exact Edit.slice_apply_around hlt hstart hbefore hbehind

-- ---------------------------------------------------------------------------
-- Another start tag
-- ---------------------------------------------------------------------------

theorem addElement_relocate {o : Outline} (ho : o.Nested) {tag tag' : StartTag}
    (hname : tag'.name = tag.name) (hself : tag'.selfClosing = tag.selfClosing) :
    o.addElement tag' = (o.addElement tag).relocate
      ⟨o.offset, o.offset + tag.source.length, tag'.source⟩ o.elements.length tag' := by
  have hpos : 0 < tag.source.length := Nat.succ_pos _
  have hshift : Edit.shift ⟨o.offset, o.offset + tag.source.length, tag'.source⟩
      (o.offset + tag.source.length) = o.offset + tag'.source.length := by
    rw [Edit.shift_of_stop_le (Nat.lt_add_of_pos_right hpos) (Nat.le_refl _), Nat.sub_self]
    rfl
  have hbegun : (Element.relocate ⟨o.offset, o.offset + tag.source.length, tag'.source⟩
      (o.begun tag)).retag tag' = o.begun tag' := by
    unfold Outline.begun Element.relocate Element.retag
    rw [hself]
    cases tag.selfClosing with
    | false => simp only [Edit.shift_of_le (Nat.le_refl _)]; rfl
    | true => simp only [Edit.shift_of_le (Nat.le_refl _), if_true, Option.map_some, hshift]
  have helements : relocated ⟨o.offset, o.offset + tag.source.length, tag'.source⟩ o.elements.length tag'
      (o.marked ++ [o.begun tag]) = o.marked ++ [o.begun tag'] := by
    rw [relocated, List.map_append, Outline.marked_relocate_of_le ho (Nat.le_refl _),
      ← Outline.length_marked, List.map_singleton, modify_length, hbegun]
  have hopens : Outline.opens tag' = Outline.opens tag := by
    unfold Outline.opens
    rw [hname, hself]
  rw [Outline.addElement_eq, Outline.addElement_eq, Outline.relocate, helements, hopens, hname, hshift]

/-- A text in which another start tag is read at the place of an element's own one is the document
with that tag. -/
theorem parse_retag {markup : Text} {d : Document} (h : parse markup = .ok d) {index : Nat}
    {e : Element} (he : d.elements[index]? = some e) {tag : StartTag} (hname : tag.name = e.tag)
    (hself : tag.selfClosing = e.startTag.selfClosing)
    (hcontinues : d.Continues (Edit.apply ⟨e.start, e.bodyStart, tag.source⟩ markup) index tag) :
    parse (Edit.apply ⟨e.start, e.bodyStart, tag.source⟩ markup) =
      .ok (d.relocate ⟨e.start, e.bodyStart, tag.source⟩ index tag) := by
  obtain ⟨front, last, tail, hplace⟩ := exists_place h he
  have hmarkup := markup_of_parse h
  have hstart := Nat.le_trans (Nat.le_of_lt e.start_lt_bodyStart) (bodyStart_le_length h he)
  have htake := @Edit.take_apply ⟨e.start, e.bodyStart, tag.source⟩ d.markup hstart
  have hdrop := @Edit.drop_start_apply ⟨e.start, e.bodyStart, tag.source⟩ d.markup hstart
  rw [← hmarkup] at hcontinues
  obtain ⟨hreads, rest, hstep⟩ := hcontinues.reads hplace htake
  have hrest : rest = d.markup.drop e.bodyStart := by
    obtain ⟨-, hcuts⟩ := step_cuts hstep
    exact List.append_cancel_left (hcuts.trans hdrop)
  have hraw : (Token.start tag).rawAfter none = (Token.start e.startTag).rawAfter none := by
    simp only [Token.rawAfter, hself, hname]
    rfl
  subst hrest
  refine parse_relocate h (fun e' he' => by cases he.symm.trans he'; exact hname)
    (hmarkup ▸ hreads.scans (.token hstep (hraw ▸ hplace.scans))) ?_
  obtain ⟨hnested, hindex, hoffset⟩ := hplace.outline
  rw [hplace.elements, List.foldl_append, List.foldl_cons]
  generalize front.foldl Outline.read .empty = o at hnested hindex hoffset
  have hadd := addElement_relocate hnested hname hself
  rw [hindex, hoffset] at hadd
  have hlt : e.start < e.bodyStart := e.start_lt_bodyStart
  have hread : Outline.read o (.start tag) = (o.addElement e.startTag).relocate
    ⟨e.start, e.bodyStart, tag.source⟩ index tag := hadd
  rw [hread, Outline.foldl_read_relocate hlt]
  · rfl
  · exact Nat.le_of_eq (congrArg (· + e.startTag.source.length) hoffset.symm)
  · simp only [Outline.addElement_eq, List.length_append, Outline.length_marked, hindex]
    exact Nat.lt_succ_self index

/-- No body ends within a start tag. -/
theorem bodyEnd_apart {markup : Text} {d : Document} (h : parse markup = .ok d) {i j x : Nat}
    {e f : Element} (hij : i < j) (hf : d.elements[i]? = some f) (he : d.elements[j]? = some e)
    (hx : f.bodyEnd = some x) : x ≤ e.start ∨ e.bodyStart ≤ x := by
  obtain ⟨front, last, tail, hplace⟩ := exists_place h he
  obtain ⟨hnested, hindex, hoffset⟩ := hplace.outline
  have helements := hplace.elements
  generalize front.foldl Outline.read .empty = o at hnested hindex hoffset helements
  have hlt : i < (o.addElement e.startTag).elements.length := by
    simp only [Outline.addElement_eq, List.length_append, Outline.length_marked, hindex]
    exact Nat.lt_succ_of_lt hij
  have hf₁ := List.getElem?_eq_getElem hlt
  generalize (o.addElement e.startTag).elements[i] = f₁ at hf₁
  rw [helements] at hf
  rcases Outline.bodyEnd_foldl_read (hnested.addElement e.startTag) hf₁ hf with
    hsame | ⟨-, y, hy, hle⟩
  · rcases Outline.getElem?_addElement hnested hf₁ with ⟨f₀, hf₀, -, -, hend, -⟩ | ⟨hi, -⟩
    · refine .inl (hoffset ▸ (hnested.bodyEnd_bounds hf₀ ?_).2)
      rw [← hend, ← hsame, hx]
    · exact absurd (hi.trans hindex) (Nat.ne_of_lt hij)
  · cases hx.symm.trans hy
    refine .inr (Nat.le_trans (Nat.le_of_eq ?_) hle)
    exact congrArg (· + e.startTag.source.length) hoffset.symm

theorem fits_retag {markup : Text} {d : Document} (h : parse markup = .ok d) {index : Nat}
    {e : Element} (he : d.elements[index]? = some e) (tag : StartTag) :
    d.Fits ⟨e.start, e.bodyStart, tag.source⟩ index tag := by
  intro i f hf
  obtain ⟨o, ho, helements, -⟩ := exists_outline h
  rw [← helements] at he hf
  have hlt : e.start < e.bodyStart := e.start_lt_bodyStart
  have hbounds {x : Nat} (hx : f.bodyEnd = some x) := (ho.bodyEnd_bounds hf hx).1
  rcases Nat.lt_trichotomy i index with hi | rfl | hi
  · have hle := ho.ordered hi hf he
    refine ⟨?_, fun x hx => ⟨hbounds hx, ?_⟩⟩
    · rw [if_neg (Nat.ne_of_gt hi)]
      exact bodyStart_relocate_of_le hle
    · rw [helements] at he hf
      rcases bodyEnd_apart h hi hf he hx with hbefore | hbehind
      · exact .inl hbefore
      · exact .inr (.inr ⟨hle, hbehind⟩)
  · cases he.symm.trans hf
    refine ⟨?_, fun x hx => ⟨hbounds hx, .inr (.inl (Nat.le_refl _))⟩⟩
    rw [if_pos rfl, Edit.shift_of_stop_le hlt (Nat.le_refl _), Nat.sub_self]
    exact congrArg (· + tag.source.length) (Edit.shift_of_le (Nat.le_refl _))
  · have hle := ho.ordered hi he hf
    have hle' := Nat.le_trans hle (Nat.le_of_lt f.start_lt_bodyStart)
    refine ⟨?_, fun x hx => ⟨hbounds hx, .inr (.inl hle')⟩⟩
    rw [if_neg (Nat.ne_of_lt hi)]
    exact bodyStart_relocate_of_stop_le hlt hle

end Document

end PageSplice.Html
