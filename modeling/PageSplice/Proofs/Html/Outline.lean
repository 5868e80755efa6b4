-- SUMMARY: Outlines: reading tokens with an offset that is summed up, and that it is the offset worked out from lines and columns.
import PageSplice.Html.Document
import PageSplice.Proofs.Text

/-!
# Outlines

A reader works out the offset of a token from its line and column and from the
offsets at which the lines of the markup start. Whatever the markup, that is the
length of the tokens read so far: line feeds are counted alike when the lines are
found and when the reader moves on, and the column is what stands behind the last
one. So a reader does what an outline does, which sums up the lengths.
-/

namespace PageSplice.Html

-- ---------------------------------------------------------------------------
-- Lines and columns
-- ---------------------------------------------------------------------------

theorem length_lineStartsFrom (n : Nat) (s : Text) :
    (lineStartsFrom n s).length = s.count '\n' := by
  induction s generalizing n with
  | nil => rfl
  | cons c r ih =>
    rw [lineStartsFrom, List.count_cons]
    by_cases hc : c = '\n'
    · rw [if_pos hc, List.length_cons, ih, if_pos (beq_iff_eq.2 hc)]
    · rw [if_neg hc, ih, if_neg fun h => hc (beq_iff_eq.1 h), Nat.add_zero]

theorem lineStartsFrom_append (n : Nat) (s t : Text) :
    lineStartsFrom n (s ++ t) = lineStartsFrom n s ++ lineStartsFrom (n + s.length) t := by
  induction s generalizing n with
  | nil => rfl
  | cons c r ih =>
    have hlength : n + (c :: r).length = n + 1 + r.length := by
      rw [List.length_cons]
      omega
    rw [List.cons_append, lineStartsFrom, lineStartsFrom, ih, hlength]
    split <;> rfl

/-- The last line that starts in `front` starts as far in front of its end as its length says. -/
theorem getElem_lineStarts_add (front back : Text) :
    (lineStarts (front ++ back)).getD (front.count '\n') 0 + (Text.afterLast '\n' front).length =
      front.length := by
  by_cases hmem : '\n' ∈ front
  · obtain ⟨above, line, rfl, hline⟩ := exists_append_last hmem
    have hcount : (above ++ '\n' :: line).count '\n' = (lineStarts above).length := by
      rw [lineStarts, List.length_cons, length_lineStartsFrom, List.count_append,
        List.count_cons_self, List.count_eq_zero_of_not_mem hline]
    have hstarts : lineStarts ((above ++ '\n' :: line) ++ back) = lineStarts above ++
        (above.length + 1) :: lineStartsFrom (above.length + 1) (line ++ back) := by
      rw [lineStarts, List.append_assoc, lineStartsFrom_append, Nat.zero_add]
      rfl
    rw [hcount, hstarts, afterLast_append hline, List.getD_eq_getElem?_getD,
      List.getElem?_append_right (Nat.le_refl _), Nat.sub_self, List.getElem?_cons_zero,
      Option.getD_some, List.length_append, List.length_cons]
    omega
  · rw [List.count_eq_zero_of_not_mem hmem, afterLast_of_not_mem hmem]
    exact Nat.zero_add _

namespace Position

theorem advance_append (p : Position) (s t : Text) :
    p.advance (s ++ t) = (p.advance s).advance t := by
  by_cases ht : '\n' ∈ t
  · have hne : t.count '\n' ≠ 0 := fun h => List.count_eq_zero.1 h ht
    have hlast : Text.afterLast '\n' (s ++ t) = Text.afterLast '\n' t := by
      obtain ⟨above, line, rfl, hline⟩ := exists_append_last ht
      rw [← List.append_assoc, afterLast_append hline, afterLast_append hline]
    simp only [advance, List.count_append, if_neg hne, hlast,
      if_neg fun h => hne (Nat.add_eq_zero_iff.1 h).2]
    split <;> rename_i hs
    · rw [hs, Nat.zero_add]
    · rw [Nat.add_assoc]
  · have hzero : t.count '\n' = 0 := List.count_eq_zero_of_not_mem ht
    simp only [advance, List.count_append, hzero, Nat.add_zero, if_true,
      afterLast_append_of_not_mem ht, List.length_append]
    split
    · rw [Nat.add_assoc]
    · rfl

/-- A position that has moved on from the start by a text stands for the length of the text. -/
theorem offset_advance_start (front back : Text) :
    (start.advance front).offset (lineStarts (front ++ back)) = front.length := by
  have hadvance : start.advance front = ⟨1 + front.count '\n', (Text.afterLast '\n' front).length⟩ := by
    simp only [advance]
    split <;> rename_i hcount
    · rw [hcount, afterLast_of_not_mem (List.count_eq_zero.1 hcount)]
      exact congrArg (Position.mk 1) (Nat.zero_add _)
    · rfl
  rw [hadvance, offset, Nat.add_sub_cancel_left]
  exact getElem_lineStarts_add front back

end Position

-- ---------------------------------------------------------------------------
-- Outlines
-- ---------------------------------------------------------------------------

/-- The elements of the tokens read so far. -/
structure Outline where
  elements : List Element
  /-- The open elements with their names and indices, the innermost first. -/
  stack : List (Text × Nat)
  /-- The length of the tokens. -/
  offset : Nat

namespace Outline

def empty : Outline := ⟨[], [], 0⟩

/-- Reads a start tag. -/
def addElement (o : Outline) (tag : StartTag) : Outline :=
  let bodyEnd := if tag.selfClosing then some (o.offset + tag.source.length) else none
  let element : Element :=
    ⟨tag, o.offset, bodyEnd, false, Attributes.ofTag tag.attributes [], none, none⟩
  let marked := match o.stack with
    | [] => o.elements
    | (_, parent) :: _ => o.elements.modify parent fun e => { e with hasChildren := true }
  { elements := marked ++ [element]
    stack :=
      if tag.selfClosing || voidElements.contains tag.name then o.stack
      else (tag.name, o.elements.length) :: o.stack
    offset := o.offset + tag.source.length }

def closeElement (o : Outline) (name source : Text) : Outline :=
  match o.stack.dropWhile fun entry => entry.1 ≠ name with
  | [] => { o with offset := o.offset + source.length }
  | (_, index) :: outer =>
    { elements := o.elements.modify index fun e => { e with bodyEnd := some o.offset }
      stack := outer
      offset := o.offset + source.length }

def read (o : Outline) : Token → Outline
  | .inert source => { o with offset := o.offset + source.length }
  | .start tag => o.addElement tag
  | .close name source => o.closeElement name source

/-- The elements of tokens, wherever these stand. -/
def elementsOf (tokens : List Token) : List Element := (tokens.foldl read empty).elements

end Outline

-- ---------------------------------------------------------------------------
-- Readers
-- ---------------------------------------------------------------------------

namespace Reader

def outline (r : Reader) : Outline := ⟨r.elements, r.stack, r.offset⟩

/-- Whether a reader of `front ++ back` has come to `back`. -/
structure IsAt (r : Reader) (front back : Text) : Prop where
  lineStarts : r.lineStarts = Html.lineStarts (front ++ back)
  position : r.position = Position.start.advance front

theorem isAt_ofMarkup (markup : Text) : (ofMarkup markup).IsAt [] markup := ⟨rfl, rfl⟩

/-- The offset of a reader is the length of what it has read. -/
theorem IsAt.offset_eq {r : Reader} {front back : Text} (h : r.IsAt front back) :
    r.offset = front.length := by
  rw [offset, h.lineStarts, h.position]
  exact Position.offset_advance_start front back

theorem lineStarts_handle (r : Reader) (t : Token) : (r.handle t).lineStarts = r.lineStarts := by
  cases t with
  | inert source => rfl
  | start tag => rfl
  | close name source =>
    rw [handle, closeElement]
    split <;> rfl

theorem IsAt.read {r : Reader} {front back : Text} {t : Token}
    (h : r.IsAt front (t.source ++ back)) : (r.read t).IsAt (front ++ t.source) back where
  lineStarts := by
    rw [List.append_assoc, ← h.lineStarts]
    exact r.lineStarts_handle t
  position := by
    rw [Position.advance_append, ← h.position]
    rfl

/-- A reader that is where it should be reads a token as its outline does. -/
theorem IsAt.outline_read {r : Reader} {front back : Text} {t : Token}
    (h : r.IsAt front (t.source ++ back)) : (r.read t).outline = r.outline.read t := by
  have hoffset : (r.read t).offset = r.offset + t.source.length := by
    rw [h.read.offset_eq, h.offset_eq, List.length_append]
  rw [outline, hoffset]
  cases t with
  | inert source => rfl
  | start tag => rfl
  | close name source =>
    simp only [Outline.read, Outline.closeElement, Reader.read, handle, closeElement, outline]
    cases r.stack.dropWhile fun entry => entry.1 ≠ name <;> rfl

theorem IsAt.outline_foldl_read {r : Reader} {front back : Text} {tokens : List Token}
    (h : r.IsAt front (Html.sourceOf tokens ++ back)) :
    (tokens.foldl Reader.read r).outline = tokens.foldl Outline.read r.outline := by
  induction tokens generalizing r front with
  | nil => rfl
  | cons t rest ih =>
    have hsource : Html.sourceOf (t :: rest) = t.source ++ Html.sourceOf rest := List.flatMap_cons
    rw [hsource, List.append_assoc] at h
    rw [List.foldl_cons, List.foldl_cons, ← h.outline_read, ih h.read]

end Reader

namespace Document

/-- The elements that a reader finds are those of an outline: the offsets that it works out from lines
and columns are the lengths of the tokens summed up. -/
theorem elementsOf_eq {markup back : Text} {tokens : List Token}
    (h : sourceOf tokens ++ back = markup) :
    elementsOf markup tokens = Outline.elementsOf tokens := by
  subst h
  exact congrArg Outline.elements (Reader.isAt_ofMarkup _).outline_foldl_read

theorem parse_eq {markup : Text} {tokens : List Token} (h : tokensOf markup = .ok tokens) :
    parse markup = ofElements markup (Outline.elementsOf tokens) := by
  rw [parse, h]
  dsimp only
  rw [elementsOf_eq ((List.append_nil _).trans (sourceOf_tokensOf h))]

end Document

end PageSplice.Html
