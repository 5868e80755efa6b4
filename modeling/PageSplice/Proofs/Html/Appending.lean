-- SUMMARY: Data behind markup: documents to whose markup it is put, and markup that takes it.
import PageSplice.Proofs.Html.CharacterData
import PageSplice.Proofs.Html.Rereading

/-!
# Data behind markup

A text that is put behind markup belongs to what was left open there, if
anything was: a comment, a tag, a reference. Markup that leaves nothing open
takes data: none of its elements changes, whatever data comes behind. Then the
changes made to a document are read back in front of the data as well.
-/

namespace PageSplice.Html

namespace Document

variable {markup t : Text} {d d₁ : Document}

def followedBy (d : Document) (t : Text) : Document := { d with markup := d.markup ++ t }

/-- Whether data that is put behind markup changes no element. -/
def TakesData (markup : Text) : Prop :=
  ∀ d t, parse markup = .ok d → '<' ∉ t → parse (markup ++ t) = .ok (d.followedBy t)

-- ---------------------------------------------------------------------------
-- Changes in front of data
-- ---------------------------------------------------------------------------

theorem slice_append {i j : Nat} {s : Text} (hj : j ≤ s.length) (t : Text) :
    Text.slice (s ++ t) i j = Text.slice s i j := by
  rw [Text.slice, Text.slice, List.take_append_of_le_length hj]

/-- Edits within markup are made in front of a text as they are made without it. -/
theorem splice_append {edits : List Edit} {cursor : Nat} (hcursor : cursor ≤ markup.length)
    (hbounds : ∀ edit ∈ edits, edit.start ≤ markup.length ∧ edit.stop ≤ markup.length) (t : Text) :
    splice (markup ++ t) cursor edits = splice markup cursor edits ++ t := by
  induction edits generalizing cursor with
  | nil => exact List.drop_append_of_le_length hcursor
  | cons edit edits ih =>
    obtain ⟨⟨hstart, hstop⟩, hlater⟩ := List.forall_mem_cons.1 hbounds
    rw [splice, splice, slice_append hstart, ih hstop hlater, List.append_assoc _ _ t]

/-- The edits of a changed document lie within its markup. -/
theorem Changes.bounds (hchanges : d.Changes d₁) (h : parse markup = .ok d) :
    ∀ edit ∈ d₁.edits, edit.start ≤ d₁.markup.length ∧ edit.stop ≤ d₁.markup.length := by
  intro edit hedit
  obtain ⟨e₁, hmem, hedit⟩ := List.mem_flatMap.1 hedit
  obtain ⟨i, he₁⟩ := List.getElem?_of_mem hmem
  obtain ⟨e, he⟩ := hchanges.exists_element he₁
  have hchange := hchanges.element he he₁
  have hbody := bodyStart_le_length h he
  have htag := e.start_lt_bodyStart
  rw [hchanges.markup]
  unfold editsOf at hedit
  rw [hchange.start, hchange.bodyStart, hchange.bodyEnd] at hedit
  rcases List.mem_append.1 hedit with hedit | hedit
  · obtain ⟨text, -, rfl⟩ := Option.map_eq_some_iff.1 (Option.mem_toList.1 hedit)
    exact ⟨Nat.le_trans (Nat.le_of_lt htag) hbody, hbody⟩
  · obtain ⟨text, -, rfl⟩ := Option.map_eq_some_iff.1 (Option.mem_toList.1 hedit)
    refine ⟨hbody, ?_⟩
    cases hend : e.bodyEnd with
    | none => exact hbody
    | some stop =>
      rw [markup_of_parse h]
      exact (bodyEnd_bounds_of_parse h (List.mem_of_getElem? he) hend).2

/-- In front of a text, the elements have the texts that they have without it. -/
theorem text_followedBy {e : Element} (hend : ∀ stop, e.bodyEnd = some stop → stop ≤ d.markup.length)
    (t : Text) : (d.followedBy t).text e = d.text e := by
  rw [text, text, body, body]
  cases hstop : e.bodyEnd with
  | none => rfl
  | some stop =>
    dsimp only [followedBy]
    rw [slice_append (hend stop hstop)]

theorem apply_end (s t : Text) : Edit.apply ⟨s.length, s.length, t⟩ s = s ++ t := by
  simp [Edit.apply]

/-- Changes behind plain tags are made in front of data as they are made without it. -/
theorem ChangesPlainly.followedBy (hchanges : d.ChangesPlainly d₁) (h : parse markup = .ok d)
    (ht : parse (markup ++ t) = .ok (d.followedBy t)) :
    (d.followedBy t).ChangesPlainly (d₁.followedBy t) := by
  obtain rfl := markup_of_parse h
  refine ⟨⟨congrArg (· ++ t) hchanges.markup, hchanges.length, hchanges.element⟩, ?_, hchanges.bare⟩
  intro i e₁ he₁ hchanged
  refine PlainUpTo.apply h ((apply_end d.markup t).symm ▸ ht) (hchanges.plain he₁ hchanged)
    (Nat.le_refl _) (fun j _ e he => bodyStart_le_length h he) fun _ _ => rfl

/-- A document with changes behind plain tags is read back with all of them made in front of data
that its markup takes. -/
theorem ChangesPlainly.exists_isShownBy_followedBy (hchanges : d.ChangesPlainly d₁)
    (h : parse markup = .ok d) (ht : parse (markup ++ t) = .ok (d.followedBy t)) :
    ∃ d₂, parse (d₁.serialize ++ t) = .ok d₂ ∧ d₁.IsShownBy d₂ := by
  obtain ⟨d₂, hread, hshown⟩ := (hchanges.followedBy h ht).exists_isShownBy ht
  have hserialize : (d₁.followedBy t).serialize = d₁.serialize ++ t :=
    splice_append (Nat.zero_le _) (hchanges.bounds h) t
  refine ⟨d₂, hserialize ▸ hread, hshown.length, hshown.tag, hshown.lookup,
    fun {i e₁ e₂} he₁ he₂ hraw => ?_⟩
  rw [hshown.text he₁ he₂ hraw, text_followedBy]
  intro stop hstop
  obtain ⟨e, he⟩ := hchanges.exists_element he₁
  rw [(hchanges.element he he₁).bodyEnd] at hstop
  rw [hchanges.markup, markup_of_parse h]
  exact (bodyEnd_bounds_of_parse h (List.mem_of_getElem? he) hstop).2

-- ---------------------------------------------------------------------------
-- Markup that takes data
-- ---------------------------------------------------------------------------

/-- Markup that ends in a plain start tag takes data, where the tag is not that of a script or
style. -/
theorem takesData_of_plain (h : parse markup = .ok d) {index : Nat} (hplain : d.PlainUpTo index)
    {e : Element} (he : d.elements[index]? = some e) (hend : e.bodyStart = markup.length)
    (hraw : RawElement.ofName? e.tag = none) : TakesData markup := by
  obtain rfl := markup_of_parse h
  intro d' t hparse hdata
  cases h.symm.trans hparse
  obtain ⟨front, last, tail, hplace⟩ := exists_place h he
  have hfirst : last = false := by
    refine hplace.reads.last_eq_false ?_
    rw [hplace.length_front]
    exact (hplain index (Nat.le_refl _) e he).2
  subst hfirst
  have hcontinues := @PlainUpTo.continues_apply _ d h index hplain e he
    ⟨d.markup.length, d.markup.length, t⟩ (Nat.le_of_eq hend) (Nat.le_refl _)
  rw [apply_end] at hcontinues
  have hle : e.start ≤ d.markup.length := hend ▸ Nat.le_of_lt e.start_lt_bodyStart
  obtain ⟨hreads, rest, hstep⟩ := hcontinues.reads hplace (List.take_append_of_le_length hle)
  have hrest : rest = t := by
    obtain ⟨-, hcuts⟩ := step_cuts hstep
    obtain ⟨-, hcuts'⟩ := step_cuts hplace.reaches
    rw [List.drop_append_of_le_length hle, ← hcuts', hend, List.drop_length, List.append_nil] at hcuts
    exact List.append_cancel_left hcuts
  subst hrest
  -- What is read behind the tag, with the data or without it, is inert.
  have hafter : (Token.start e.startTag).rawAfter none = none := by
    rw [Token.rawAfter]
    split
    · rfl
    · exact hraw
  have htail := hplace.scans
  rw [hafter, hend, List.drop_length] at htail
  obtain ⟨nothing, hnothing, hscans⟩ := exists_scans_data_end false (List.not_mem_nil (a := '<'))
  cases (tokensOf_eq_ok_iff.2 htail).symm.trans (tokensOf_eq_ok_iff.2 hscans)
  obtain ⟨tokens, hinert, hscans⟩ := exists_scans_data_end false hdata
  have hall := hreads.scans (.token hstep (hafter.symm ▸ hscans))
  have helements : Outline.elementsOf (front ++ Token.start e.startTag :: tokens) = d.elements := by
    rw [hplace.elements, foldl_read_allInert hnothing, Outline.elementsOf, List.foldl_append, List.foldl_cons,
      foldl_read_allInert hinert]
    rfl
  rw [parse_eq (tokensOf_eq_ok_iff.2 hall), ofElements, helements, unterminated?_of_parse h]
  rfl

end Document

end PageSplice.Html
