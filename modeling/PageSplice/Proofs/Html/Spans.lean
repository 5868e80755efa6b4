-- SUMMARY: Where the start tags and bodies of a parsed document stand, and how they lie to one another.
import PageSplice.Proofs.Html.Relocation

/-!
# Spans

Whoever edits a document trusts the places of its elements: that a start tag
stands where the element says, and that two spans never cross. The places come
from reading alone, token by token, with a stack of open elements.
-/

namespace PageSplice.Html.Document

variable {markup : Text} {d : Document}

/-- The start tag of an element stands at its place in the markup. -/
theorem slice_startTag (h : parse markup = .ok d) {i : Nat} {e : Element}
    (he : d.elements[i]? = some e) :
    Text.slice markup e.start e.bodyStart = e.startTag.source := by
  obtain ⟨front, last, tail, hplace⟩ := exists_place h he
  have hcuts : e.startTag.source ++ d.markup.drop e.bodyStart = d.markup.drop e.start :=
    (step_cuts hplace.reaches).2
  rw [markup_of_parse h] at hcuts
  rw [Text.slice, List.drop_take, ← hcuts, Element.bodyStart, Nat.add_sub_cancel_left,
    List.take_left]

/-- The places of the start tags: one behind the other, each behind the start tags before it. -/
theorem pairwise_starts (h : parse markup = .ok d) :
    d.elements.Pairwise fun e f => e.bodyStart ≤ f.start := by
  obtain ⟨o, ho, helements, -⟩ := exists_outline h
  rw [← helements]
  refine List.pairwise_iff_getElem.2 fun i j hi hj hij => ?_
  exact ho.ordered hij (List.getElem?_eq_getElem hi) (List.getElem?_eq_getElem hj)

/-- Two bodies are nested or disjoint. -/
theorem pairwise_bodies (h : parse markup = .ok d) :
    d.elements.Pairwise fun e f => ∀ x y, e.bodyEnd = some x → f.bodyEnd = some y →
      x ≤ f.start ∨ y ≤ x := by
  obtain ⟨o, ho, helements, -⟩ := exists_outline h
  rw [← helements]
  refine List.pairwise_iff_getElem.2 fun i j hi hj hij x y hx hy => ?_
  exact ho.nested_or_disjoint hij (List.getElem?_eq_getElem hi) (List.getElem?_eq_getElem hj) hx hy

/-- The body of a closed element lies behind its start tag and within the markup. -/
theorem bodyEnd_bounds_of_parse (h : parse markup = .ok d) {e : Element} (he : e ∈ d.elements)
    {stop : Nat} (hstop : e.bodyEnd = some stop) : e.bodyStart ≤ stop ∧ stop ≤ markup.length := by
  obtain ⟨o, ho, helements, hoffset⟩ := exists_outline h
  obtain ⟨i, hi⟩ := List.getElem?_of_mem he
  obtain ⟨hlow, hhigh⟩ := ho.bodyEnd_bounds (helements ▸ hi) hstop
  rw [hoffset, markup_of_parse h] at hhigh
  exact ⟨hlow, hhigh⟩

/-- A closed element has children just where an element begins in its body. -/
theorem hasChildren_iff_of_parse (h : parse markup = .ok d) {e : Element} (he : e ∈ d.elements)
    {stop : Nat} (hstop : e.bodyEnd = some stop) :
    e.hasChildren = true ↔ ∃ f ∈ d.elements, e.bodyStart ≤ f.start ∧ f.start < stop := by
  obtain ⟨o, ho, helements, -⟩ := exists_outline h
  rw [← helements] at he ⊢
  obtain ⟨i, hi⟩ := List.getElem?_of_mem he
  constructor
  · intro hchildren
    obtain ⟨j, f, hij, hj, hlt⟩ := ho.parent hi hstop hchildren
    exact ⟨f, List.mem_of_getElem? hj, ho.ordered hij hi hj, hlt⟩
  · rintro ⟨f, hf, hlow, hhigh⟩
    obtain ⟨j, hj⟩ := List.getElem?_of_mem hf
    -- An element whose start tag is not behind that of `e` does not begin in its body.
    have hij : i < j := by
      rcases Nat.lt_trichotomy i j with hij | rfl | hji
      · exact hij
      · cases hi.symm.trans hj
        exact absurd e.start_lt_bodyStart (Nat.not_lt.2 hlow)
      · have hbefore := ho.ordered hji hj hi
        have := f.start_lt_bodyStart
        have := e.start_lt_bodyStart
        omega
    cases hchildren : e.hasChildren with
    | true => rfl
    | false =>
      have hbehind := ho.leaf hij hi hj hstop hchildren
      exact absurd hhigh (Nat.not_lt.2 hbehind)

/-- In a document that was parsed, the elements stand in the order of their start tags; the start
tag of each is what stands at its place; each begins no earlier than where the start tags before it
end; each body lies behind its start tag and within the markup; two bodies are nested or disjoint;
and a closed element has children just where an element begins in its body. -/
theorem spans_of_parse (h : parse markup = .ok d) :
    (d.elements.Pairwise fun e f => e.start < f.start) ∧
    (∀ e ∈ d.elements, Text.slice markup e.start e.bodyStart = e.startText) ∧
    (∀ e ∈ d.elements, ∀ stop, e.bodyEnd = some stop →
      e.bodyStart ≤ stop ∧ stop ≤ markup.length) ∧
    (d.elements.Pairwise fun e f => e.bodyStart ≤ f.start) ∧
    (d.elements.Pairwise fun e f => ∀ x y, e.bodyEnd = some x → f.bodyEnd = some y →
      x ≤ f.start ∨ y ≤ x) ∧
    ∀ e ∈ d.elements, ∀ stop, e.bodyEnd = some stop →
      (e.hasChildren = true ↔ ∃ f ∈ d.elements, e.bodyStart ≤ f.start ∧ f.start < stop) := by
  have hstarts := pairwise_starts h
  refine ⟨?_, ?_, fun e he stop hstop => bodyEnd_bounds_of_parse h he hstop, hstarts,
    pairwise_bodies h, fun e he stop hstop => hasChildren_iff_of_parse h he hstop⟩
  · exact hstarts.imp fun hle => Nat.lt_of_lt_of_le (Element.start_lt_bodyStart _) hle
  · intro e he
    obtain ⟨i, hi⟩ := List.getElem?_of_mem he
    obtain ⟨-, hnew, -⟩ := isUnchanged_of_parse h e he
    rw [Element.startText, hnew, Option.getD_none]
    exact slice_startTag h hi

theorem spans_of_parse_mixed :
    let markup := "<p>a<br><b>c</p>\n<i/></b><s>d</s>".toList
    ∃ d, parse markup = .ok d ∧
      d.elements.map (fun e => (e.start, e.bodyStart, e.bodyEnd, e.hasChildren)) =
        [(0, 3, some 12, true), (4, 8, none, false), (8, 11, none, false),
          (17, 21, some 21, false), (25, 28, some 29, false)] ∧
      (d.elements.Pairwise fun e f => e.bodyStart ≤ f.start) := by
  intro markup
  have hparse : (parse markup).toOption.map (fun d => d.elements.map
      (fun e => (e.start, e.bodyStart, e.bodyEnd, e.hasChildren))) =
        some [(0, 3, some 12, true), (4, 8, none, false), (8, 11, none, false),
          (17, 21, some 21, false), (25, 28, some 29, false)] := by
    decide +kernel
  obtain ⟨d, hd, helements⟩ := Option.map_eq_some_iff.1 hparse
  have hd := eq_ok_of_toOption hd
  exact ⟨d, hd, helements, (spans_of_parse hd).2.2.2.1⟩

end PageSplice.Html.Document
