-- SUMMARY: Attributes after one is set: its own value is the new one, and all others are as before.
import PageSplice.Proofs.Html.Editing

/-!
# Set attributes

Setting an attribute is seen by a look-up of its name and by no other look-up.
So calls that set other attributes of an element, or attributes of other
elements, cannot change what is found.
-/

namespace PageSplice.Html

namespace Attributes

theorem lookup_set (attributes : Attributes) (name other : Text) (value : Option Text) :
    (attributes.set name value).lookup other =
      if other = name then some value else attributes.lookup other := by
  induction attributes with
  | nil =>
    by_cases h : other = name
    · simp [set, h]
    · simp [set, h, List.lookup_cons, beq_false_of_ne h]
  | cons entry rest ih =>
    obtain ⟨n, v⟩ := entry
    by_cases hn : n = name
    · subst hn
      by_cases h : other = n
      · simp [set, h]
      · simp [set, h, List.lookup_cons, beq_false_of_ne h]
    · simp only [set, hn, if_false, List.lookup_cons, ih]
      by_cases h : other = name
      · subst h
        simp [beq_false_of_ne (Ne.symm hn)]
      · simp [h]

theorem value?_set_self (attributes : Attributes) (name : Text) (value : Option Text) :
    (attributes.set name value).value? name = value := by
  unfold value?
  rw [lookup_set, if_pos rfl]
  rfl

theorem value?_set_ne (attributes : Attributes) {name other : Text} (h : other ≠ name)
    (value : Option Text) : (attributes.set name value).value? other = attributes.value? other := by
  unfold value?
  rw [lookup_set, if_neg h]

end Attributes

namespace Element

theorem value?_setAttribute_self (e : Element) {name other : Text}
    (h : Text.lower other = Text.lower name) (value : Text) :
    (e.setAttribute name value).value? other = some value := by
  unfold value?
  rw [h]
  exact Attributes.value?_set_self _ _ _

theorem value?_setAttribute_ne (e : Element) {name other : Text}
    (h : Text.lower other ≠ Text.lower name) (value : Text) :
    (e.setAttribute name value).value? other = e.value? other :=
  Attributes.value?_set_ne _ h _

end Element

namespace Document

theorem tag_actAll (calls : List Call) (i : Nat) (e : Element) : (actAll calls i e).tag = e.tag :=
  congrArg StartTag.name (actAll_eq calls i e).1

/-- Calls that set other attributes do not change the value of an attribute. -/
theorem value?_actAll {calls : List Call} {other : Text}
    (h : ∀ call ∈ calls, ∀ i name value, call = .setAttribute i name value →
      Text.lower other ≠ Text.lower name) (i : Nat) (e : Element) :
    (actAll calls i e).value? other = e.value? other := by
  induction calls generalizing e with
  | nil => rfl
  | cons call calls ih =>
    refine (ih (fun c hc => h c (List.mem_cons_of_mem _ hc)) (call.act i e)).trans ?_
    cases call with
    | setAttribute index name value =>
      by_cases hi : index = i
      · rw [Call.act, if_pos hi]
        exact e.value?_setAttribute_ne (h _ List.mem_cons_self index name value rfl) value
      · rw [Call.act, if_neg hi]
    | setBody index body =>
      by_cases hi : index = i ∧ isLeaf e
      · rw [Call.act, if_pos hi]
        rfl
      · rw [Call.act, if_neg hi]

/-- Calls that set attributes of other elements, and no body, leave an element as it is. -/
theorem actAll_eq_self {calls : List Call} {i : Nat}
    (htag : calls.any (Call.setsTag i) = false) (hbody : ∀ call ∈ calls, call.body? i = none)
    (e : Element) : actAll calls i e = e := by
  induction calls generalizing e with
  | nil => rfl
  | cons call calls ih =>
    rw [List.any_cons, Bool.or_eq_false_iff] at htag
    have hcall : call.act i e = e := by
      cases call with
      | setAttribute index name value =>
        exact if_neg (by simpa [Call.setsTag] using htag.1)
      | setBody index body =>
        have hnone := hbody _ List.mem_cons_self
        refine if_neg fun hcond => ?_
        rw [Call.body?, if_pos hcond.1] at hnone
        cases hnone
    rw [actAll, List.foldl_cons, hcall]
    exact ih htag.2 (fun c hc => hbody c (List.mem_cons_of_mem _ hc)) e

theorem mem_query {d : Document} {tag : Text} {i : Nat} :
    i ∈ d.query tag ↔ ∃ e, d.elements[i]? = some e ∧ e.tag = Text.lower tag := by
  simp only [query, List.mem_map, List.mem_filter, List.mem_zipIdx_iff_getElem?,
    decide_eq_true_eq, Prod.exists]
  constructor
  · rintro ⟨e, index, ⟨he, htag⟩, rfl⟩
    exact ⟨e, he, htag⟩
  · rintro ⟨e, he, htag⟩
    exact ⟨e, i, ⟨he, htag⟩, rfl⟩

end Document

end PageSplice.Html
