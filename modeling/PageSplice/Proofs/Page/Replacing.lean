-- SUMMARY: Replacing bodies: scripts and styles are closed, hold no element and no end tag, and take every new body.
import PageSplice.Proofs.Html.Spans
import PageSplice.Proofs.Page.Dispatch

/-!
# Replacing bodies

The body of an element can be replaced where the element is closed and no other
one is inside of it. In every document that is read this holds of all scripts and
styles, however their tags are written, and the text in them holds no end tag of
theirs. Code regions are such elements. What a compilation does to a page changes
no element but for its tag and its body, so at every point of it each region takes
every body.
-/

namespace PageSplice

-- ---------------------------------------------------------------------------
-- Scripts and styles
-- ---------------------------------------------------------------------------

namespace Html.Document

theorem not_holdsEndTag_nil (name : Text) : ¬ HoldsEndTag name [] := by
  rintro ⟨gap, tag, ⟨word, trail, rfl, -⟩, hinfix⟩
  cases List.eq_nil_of_infix_nil hinfix

/-- Every script and style of a document is closed, has no element inside and holds no end tag of its
own. -/
theorem closed_of_raw {markup : Text} {d : Document} (h : parse markup = .ok d) {e : Element}
    (he : e ∈ d.elements) {raw : RawElement} (hraw : RawElement.ofName? e.tag = some raw) :
    e.isClosed = true ∧ e.hasChildren = false ∧ ¬ HoldsEndTag raw.name (d.text e) := by
  obtain ⟨index, hindex⟩ := List.getElem?_of_mem he
  have hclosed := List.find?_eq_none.1 (unterminated?_of_parse h) e he
  refine ⟨by simpa [hraw] using hclosed, ?_⟩
  cases hself : e.startTag.selfClosing with
  | false => exact ⟨hasChildren_of_raw h hindex hraw hself, not_holdsEndTag_text h hindex hraw hself⟩
  | true =>
    have hend := bodyEnd_of_selfClosing h hindex hself
    have htext : d.text e = [] := by
      rw [text_of_parse h he, body, hend]
      exact List.length_eq_zero_iff.1 (by rw [Text.length_slice]; omega)
    constructor
    · refine Bool.eq_false_iff.2 fun hchildren => ?_
      obtain ⟨f, -, hle, hlt⟩ := (hasChildren_iff_of_parse h he hend).1 hchildren
      exact Nat.not_lt.2 hle hlt
    · rw [htext]
      exact not_holdsEndTag_nil raw.name

end Html.Document

-- ---------------------------------------------------------------------------
-- Regions
-- ---------------------------------------------------------------------------

namespace Page

open Html.Document

variable {workingDirectory : Path} {rules : RegionRules} {markup path : Text}
  {page : Prepared markup}

/-- The documents that a prepared page becomes when bodies of its code regions are replaced, one after
the other. -/
inductive Replaced (page : Prepared markup) : Html.Document → Prop
  | prepared : Replaced page page.document
  | replace {d d' : Html.Document} {r : CodeRegion} {body : Text} (hd : Replaced page d)
      (hr : r ∈ page.regions) (hset : d.setBody r.element body = .ok d') : Replaced page d'

theorem isLeaf_of_prepare (hprepare : prepare workingDirectory rules markup path = .ok page)
    {r : CodeRegion} (hr : r ∈ page.regions) {e : Html.Element}
    (he : page.document.elements[r.element]? = some e) : isLeaf e = true := by
  obtain ⟨d, regions, calls, hparse, hregions, hcode, hdocument, -⟩ := exists_calls_of_prepare hprepare
  rw [hdocument, getElem?_performAll] at he
  obtain ⟨e₀, he₀, rfl⟩ := Option.map_eq_some_iff.1 he
  rw [isLeaf_actAll]
  exact isLeaf_of_code hparse hregions (mem_codeRegions.1 (hcode ▸ hr)) he₀

/-- Replacing a body leaves every element a leaf that is one. -/
theorem isLeaf_of_setBody {d d' : Html.Document} {index : Nat} {body : Text}
    (hset : d.setBody index body = .ok d') {i : Nat} {e' : Html.Element}
    (he' : d'.elements[i]? = some e') :
    ∃ e, d.elements[i]? = some e ∧ isLeaf e' = isLeaf e := by
  rcases setBody_cases d index body with ⟨-, -, -, error, herror⟩ | ⟨-, hok⟩
  · cases herror.symm.trans hset
  · cases hok.symm.trans hset
    rw [List.getElem?_modify] at he'
    obtain ⟨e, he, rfl⟩ := Option.map_eq_some_iff.1 he'
    refine ⟨e, he, ?_⟩
    split <;> rfl

/-- The code regions of a page stay leaves. -/
theorem Replaced.isLeaf (hprepare : prepare workingDirectory rules markup path = .ok page)
    {d : Html.Document} (h : Replaced page d) {r : CodeRegion} (hr : r ∈ page.regions)
    {e : Html.Element} (he : d.elements[r.element]? = some e) : isLeaf e = true := by
  induction h generalizing e with
  | prepared => exact isLeaf_of_prepare hprepare hr he
  | replace hd hr' hset ih =>
    obtain ⟨e₀, he₀, heq⟩ := isLeaf_of_setBody hset he
    rw [heq]
    exact ih he₀

/-- Whatever bodies were replaced before, each code region takes every body. -/
theorem Replaced.exists_setBody (hprepare : prepare workingDirectory rules markup path = .ok page)
    {d : Html.Document} (h : Replaced page d) {r : CodeRegion} (hr : r ∈ page.regions) (body : Text) :
    ∃ d', d.setBody r.element body = .ok d' ∧ Replaced page d' := by
  obtain ⟨d', hset⟩ := Page.exists_setBody (fun e he => h.isLeaf hprepare hr he) body
  exact ⟨d', hset, .replace h hr hset⟩

end Page

end PageSplice
