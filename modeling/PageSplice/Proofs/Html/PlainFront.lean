-- SUMMARY: Plain tags in front of an element: what is read there does not depend on what follows.
import PageSplice.Proofs.Html.PlainTag
import PageSplice.Proofs.Html.Relocation

/-!
# Behind plain tags

What the first pass finds in front of an element is finished there, but for a
start tag with an open quote. Where all start tags are plain, no change from
the element on can change how the text in front of it is read.
-/

namespace PageSplice.Html

theorem Reads.last_eq_true {c c' : Cursor} {tokens : List Token} (h : Reads c tokens c')
    (hlast : c.last = true) : c'.last = true := by
  induction h with
  | refl => exact hlast
  | token _ _ ih => exact ih hlast
  | again _ _ ih => exact ih rfl

/-- A plain start tag is read whatever follows. -/
theorem StartTag.IsPlain.step {tag : StartTag} (h : tag.IsPlain) {last : Bool}
    {raw : Option RawElement} {rest : Text}
    (hstep : Html.step last raw (tag.source ++ rest) = .ok (.token (.start tag) rest))
    (last' : Bool) (back : Text) :
    Html.step last' raw (tag.source ++ back) = .ok (.token (.start tag) back) := by
  obtain ⟨t, ht⟩ := h
  obtain ⟨rfl, -⟩ := beginsTag_of_step hstep
  have hsource (back : Text) : tag.source ++ back = '<' :: (t.interior ++ back) := by
    rw [StartTag.source, ht]
    rfl
  rw [hsource] at hstep ⊢
  obtain ⟨hattributes, htag⟩ := PlainTag.of_step hstep
  rw [t.step, hattributes]
  simp only [← htag]

/-- Tokens that the first pass reads in front of a tag are read in front of every tag, if the start
tags among them are plain. -/
theorem Reads.of_plain {x y : Text} (hx : BeginsTag x) (hy : BeginsTag y) {raw : Option RawElement}
    {s : Text} {tokens : List Token} {n : Nat}
    (h : Reads ⟨false, raw, s ++ '<' :: x⟩ tokens ⟨false, none, '<' :: x⟩)
    (hplain : ∀ m tag, (m, tag) ∈ starts n tokens → tag.IsPlain) :
    Reads ⟨false, raw, s ++ '<' :: y⟩ tokens ⟨false, none, '<' :: y⟩ := by
  generalize hc : (⟨false, raw, s ++ '<' :: x⟩ : Cursor) = c at h
  generalize hd : (⟨false, none, '<' :: x⟩ : Cursor) = d at h
  induction h generalizing raw s n with
  | refl c =>
    obtain ⟨-, hraw, hrest⟩ := Cursor.mk.inj (hc.trans hd.symm)
    subst hraw
    by_cases hs : s = []
    · subst hs
      exact .refl _
    · exact absurd hrest (append_tag_ne hs x)
  | again hstep tail =>
    subst hd
    cases tail.last_eq_true rfl
  | @token last' raw' text rest t tokens d hstep tail ih =>
    cases hc
    subst hd
    have hs : s ≠ [] := by
      rintro rfl
      exact absurd tail.length_le (Nat.not_le_of_lt (length_lt_of_step hstep))
    obtain ⟨found, hfound⟩ := exists_settlesStep false raw' hs
    rcases hfound.settles x hx with hsame | hlost | ⟨tag, left, r, -, -, hunread⟩
    · cases found with
      | stop skipped left => cases hsame.symm.trans hstep
      | token tok left =>
        cases hsame.symm.trans hstep
        have htail := ih (n := n + t.source.length) (fun m tag hmem => hplain m tag ?_) rfl rfl
        · refine .token ?_ htail
          rcases hfound.firm rfl t left rfl with ⟨tag, rfl⟩ | hfirm
          · have hsource : tag.source ++ (left ++ '<' :: x) = s ++ '<' :: x := (step_cuts hstep).2
            rw [← List.append_assoc] at hsource
            have hs := List.append_cancel_right hsource
            rw [← hs, List.append_assoc] at hstep ⊢
            exact (hplain n tag List.mem_cons_self).step hstep false _
          · exact hfirm y hy
        · rw [starts_cons]
          exact List.mem_append_right _ hmem
    · exact absurd hlost (not_lost (.token hstep tail))
    · cases hunread.symm.trans hstep

-- ---------------------------------------------------------------------------
-- The first pass
-- ---------------------------------------------------------------------------

def firstPass (markup : Text) : Text :=
  match pass false none markup with
  | .ok p => sourceOf p.tokens
  | .error _ => []

/-- Where a scan is in its last pass, the first one has stopped before. -/
theorem Reads.exists_pass {c c' : Cursor} {tokens : List Token} (h : Reads c tokens c')
    (hfirst : c.last = false) (hlast : c'.last = true) :
    ∃ p, pass false c.raw c.rest = .ok p ∧
      (sourceOf p.tokens).length ≤ (sourceOf tokens).length := by
  induction h with
  | refl => cases hfirst.symm.trans hlast
  | @token last raw s rest t tokens c' hstep _ ih =>
    cases hfirst
    obtain ⟨p, hp, hle⟩ := ih rfl hlast
    refine ⟨_, by rw [pass_of_token hstep, hp]; rfl, ?_⟩
    rw [sourceOf_cons, sourceOf_cons, List.length_append, List.length_append]
    exact Nat.add_le_add_left hle _
  | again hstep _ _ =>
    refine ⟨_, pass_of_stop hstep, ?_⟩
    rw [sourceOf_append, List.length_append]
    exact Nat.le_add_right _ _

theorem Reads.last_eq_false {markup : Text} {tokens : List Token} {c : Cursor}
    (h : Reads ⟨false, none, markup⟩ tokens c)
    (hlt : (sourceOf tokens).length < (firstPass markup).length) : c.last = false := by
  cases hlast : c.last with
  | false => rfl
  | true =>
    obtain ⟨p, hp, hle⟩ := h.exists_pass rfl hlast
    have hp : pass false none markup = .ok p := hp
    rw [firstPass, hp] at hlt
    exact absurd hlt (Nat.not_lt_of_le hle)

-- ---------------------------------------------------------------------------
-- Plain documents
-- ---------------------------------------------------------------------------

namespace Document

/-- Whether the first pass comes to the start tag of the element at `index`, and that tag and those
in front of it are plain. -/
def PlainUpTo (d : Document) (index : Nat) : Prop :=
  ∀ i ≤ index, ∀ e, d.elements[i]? = some e →
    e.startTag.IsPlain ∧ e.start < (firstPass d.markup).length

/-- Where all start tags are plain and the first pass comes to each, so they are up to every index. -/
theorem plainUpTo_of_forall {d : Document}
    (h : ∀ e ∈ d.elements, e.startTag.IsPlain ∧ e.start < (firstPass d.markup).length)
    (index : Nat) : d.PlainUpTo index :=
  fun _ _ e he => h e (List.mem_of_getElem? he)

/-- Behind plain tags a text continues a document as soon as the element's place holds a tag. -/
theorem PlainUpTo.continues {markup : Text} {d : Document} (h : parse markup = .ok d) {index : Nat}
    (hplain : d.PlainUpTo index) {e : Element} (he : d.elements[index]? = some e)
    {text rest : Text} {tag : StartTag} (htake : text.take e.start = d.markup.take e.start)
    (hstep : ∀ last, step last none (text.drop e.start) = .ok (.token (.start tag) rest)) :
    d.Continues text index tag := by
  obtain ⟨front, last, tail, hplace⟩ := exists_place h he
  have hreads := hplace.reads
  have hlast : last = false := by
    refine hreads.last_eq_false ?_
    rw [hplace.length_front]
    exact (hplain index (Nat.le_refl _) e he).2
  subst hlast
  obtain ⟨-, x, hx, hbegins⟩ := beginsTag_of_step hplace.reaches
  obtain ⟨-, y, hy, hbegins'⟩ := beginsTag_of_step (hstep false)
  have hmarkup : d.markup = d.markup.take e.start ++ '<' :: x := by
    rw [← hx, List.take_append_drop]
  have htext : text = d.markup.take e.start ++ '<' :: y := by
    rw [← hy, ← htake, List.take_append_drop]
  have hreads : Reads ⟨false, none, d.markup.take e.start ++ '<' :: x⟩ front
      ⟨false, none, '<' :: x⟩ := by
    rw [← hmarkup, ← hx]
    exact hreads
  have hfront : ∀ m tag, (m, tag) ∈ starts 0 front → tag.IsPlain := by
    intro m tag hmem
    rw [hplace.starts_front] at hmem
    obtain ⟨f, hf, heq⟩ := List.mem_map.1 hmem
    obtain ⟨i, hi⟩ := List.mem_iff_getElem?.1 hf
    rw [List.getElem?_take] at hi
    split at hi
    · rename_i hlt
      cases heq
      exact (hplain i (Nat.le_of_lt hlt) f hi).1
    · cases hi
  refine ⟨e, front, false, rest, he, ?_, hplace.starts_front, hstep false⟩
  rw [hy, htext]
  exact hreads.of_plain hbegins hbegins' hfront

/-- No edit behind the start tag of an element changes what is read up to there. -/
theorem PlainUpTo.continues_apply {markup : Text} {d : Document} (h : parse markup = .ok d)
    {index : Nat} (hplain : d.PlainUpTo index) {e : Element} (he : d.elements[index]? = some e)
    {edit : Edit} (hle : e.bodyStart ≤ edit.start) (hstart : edit.start ≤ d.markup.length) :
    d.Continues (edit.apply d.markup) index e.startTag := by
  have hbody := congrArg (List.take e.bodyStart) (Edit.take_apply hstart)
  rw [List.take_take, List.take_take, Nat.min_eq_left hle] at hbody
  have hfront := congrArg (List.take e.start) hbody
  rw [List.take_take, List.take_take, Nat.min_eq_left (Nat.le_of_lt e.start_lt_bodyStart)] at hfront
  obtain ⟨front, last, tail, hplace⟩ := exists_place h he
  have hreaches := hplace.reaches
  obtain ⟨-, hcuts⟩ := step_cuts hreaches
  have hcuts : e.startTag.source ++ d.markup.drop e.bodyStart = d.markup.drop e.start := hcuts
  have htag : ((edit.apply d.markup).drop e.start).take e.startTag.source.length =
      e.startTag.source := by
    rw [List.take_drop]
    refine (congrArg (List.drop e.start) hbody).trans ?_
    rw [Element.bodyStart, ← List.take_drop, ← hcuts, List.take_left]
  have hsplit := List.take_append_drop e.startTag.source.length ((edit.apply d.markup).drop e.start)
  rw [htag] at hsplit
  rw [← hcuts] at hreaches
  have hstep (last' : Bool) := (hplain index (Nat.le_refl _) e he).1.step hreaches last'
    (((edit.apply d.markup).drop e.start).drop e.startTag.source.length)
  rw [hsplit] at hstep
  exact hplain.continues h he hfront hstep

end Document

end PageSplice.Html
