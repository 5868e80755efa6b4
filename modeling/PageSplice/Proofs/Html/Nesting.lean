-- SUMMARY: Nesting: how the start tags and bodies of the elements of a document lie to one another.
import PageSplice.Proofs.Html.Outline

/-!
# Nesting

Elements are found in the order of their start tags, and an end tag closes an
element that is still open, together with all that are open inside of it. So
start tags follow one another, a body lies behind its start tag, and two bodies
are nested or disjoint. Reading keeps all of this token by token; nothing in a
document checks it later.
-/

namespace PageSplice.Html

-- ---------------------------------------------------------------------------
-- The invariant of reading
-- ---------------------------------------------------------------------------

namespace Outline

/-- How the elements that have been read lie to one another, and which of them are open. -/
structure Nested (o : Outline) : Prop where
  bodyStart_le : ∀ {i : Nat} {e : Element}, o.elements[i]? = some e → e.bodyStart ≤ o.offset
  ordered : ∀ {i j : Nat} {e f : Element}, i < j → o.elements[i]? = some e →
    o.elements[j]? = some f → e.bodyStart ≤ f.start
  bodyEnd_bounds : ∀ {i x : Nat} {e : Element}, o.elements[i]? = some e → e.bodyEnd = some x →
    e.bodyStart ≤ x ∧ x ≤ o.offset
  nested_or_disjoint : ∀ {i j x y : Nat} {e f : Element}, i < j → o.elements[i]? = some e →
    o.elements[j]? = some f → e.bodyEnd = some x → f.bodyEnd = some y → x ≤ f.start ∨ y ≤ x
  leaf : ∀ {i j x : Nat} {e f : Element}, i < j → o.elements[i]? = some e →
    o.elements[j]? = some f → e.bodyEnd = some x → e.hasChildren = false → x ≤ f.start
  parent : ∀ {i x : Nat} {e : Element}, o.elements[i]? = some e → e.bodyEnd = some x →
    e.hasChildren = true → ∃ (j : Nat) (f : Element), i < j ∧ o.elements[j]? = some f ∧ f.start < x
  /-- An open element has a child as soon as another element follows. -/
  of_mem_stack : ∀ {entry : Text × Nat}, entry ∈ o.stack → ∃ e : Element,
    o.elements[entry.2]? = some e ∧ e.tag = entry.1 ∧ e.bodyEnd = none ∧
      (e.hasChildren = true ↔ entry.2 + 1 < o.elements.length)
  stack_sorted : o.stack.Pairwise fun inner outer => outer.2 < inner.2
  /-- What was closed before an element that is still open was closed in front of it. -/
  closed_before_open : ∀ {i x : Nat} {e f : Element} {entry : Text × Nat},
    o.elements[i]? = some e → e.bodyEnd = some x → entry ∈ o.stack → i < entry.2 →
    o.elements[entry.2]? = some f → x ≤ f.start

theorem nested_empty : empty.Nested := by
  constructor <;> simp [empty]

/-- The elements, where the innermost open one has got a child. -/
def marked (o : Outline) : List Element :=
  match o.stack with
  | [] => o.elements
  | (_, parent) :: _ => o.elements.modify parent fun e => { e with hasChildren := true }

def begun (o : Outline) (tag : StartTag) : Element :=
  ⟨tag, o.offset, if tag.selfClosing then some (o.offset + tag.source.length) else none, false,
    Attributes.ofTag tag.attributes [], none, none⟩

def opens (tag : StartTag) : Bool := !(tag.selfClosing || voidElements.contains tag.name)

theorem addElement_eq (o : Outline) (tag : StartTag) :
    o.addElement tag = {
      elements := o.marked ++ [o.begun tag]
      stack := if opens tag then (tag.name, o.elements.length) :: o.stack else o.stack
      offset := o.offset + tag.source.length } := by
  unfold addElement opens
  cases h : tag.selfClosing || voidElements.contains tag.name <;> rfl

theorem length_marked (o : Outline) : o.marked.length = o.elements.length := by
  unfold marked
  split <;> simp

/-- Marking touches nothing but the innermost open element, and there nothing but its children. -/
theorem getElem?_marked {o : Outline} (h : o.Nested) {i : Nat} {e : Element}
    (he : o.marked[i]? = some e) :
    ∃ e₀, o.elements[i]? = some e₀ ∧
      (e = e₀ ∨ e₀.bodyEnd = none ∧ e = { e₀ with hasChildren := true }) := by
  unfold marked at he
  split at he
  · exact ⟨e, he, .inl rfl⟩
  · rename_i name parent outer hstack
    rw [List.getElem?_modify] at he
    obtain ⟨e₀, he₀, rfl⟩ := Option.map_eq_some_iff.1 he
    refine ⟨e₀, he₀, ?_⟩
    split
    · rename_i hp
      subst hp
      obtain ⟨top, htop, -, hopen, -⟩ := h.of_mem_stack (hstack ▸ List.mem_cons_self)
      rw [htop] at he₀
      cases he₀
      exact .inr ⟨hopen, rfl⟩
    · exact .inl rfl

/-- Every open element has a child once the innermost one is marked. -/
theorem marked_of_mem_stack {o : Outline} (h : o.Nested) {entry : Text × Nat}
    (hentry : entry ∈ o.stack) :
    ∃ e, o.marked[entry.2]? = some e ∧ e.tag = entry.1 ∧ e.bodyEnd = none ∧
      e.hasChildren = true := by
  obtain ⟨e, he, htag, hopen, hchildren⟩ := h.of_mem_stack hentry
  have hsorted := h.stack_sorted
  unfold marked
  split
  · rename_i hstack
    rw [hstack] at hentry
    cases hentry
  · rename_i name parent outer hstack
    rw [hstack] at hentry hsorted
    by_cases hp : parent = entry.2
    · refine ⟨{ e with hasChildren := true }, ?_, htag, hopen, rfl⟩
      simp [hp, he]
    · have hlt : entry.2 < parent := by
        rcases List.mem_cons.1 hentry with rfl | hmem
        · exact absurd rfl hp
        · exact (List.pairwise_cons.1 hsorted).1 entry hmem
      have hmem : (name, parent) ∈ o.stack := hstack ▸ List.mem_cons_self
      obtain ⟨top, htop, -⟩ := h.of_mem_stack hmem
      have hlen := (List.getElem?_eq_some_iff.1 htop).1
      refine ⟨e, ?_, htag, hopen, hchildren.2 (by simp only at hlen; omega)⟩
      simp [hp, he]

/-- An element of the outline behind a start tag was there before, or is the one that the tag
begins. -/
theorem getElem?_addElement {o : Outline} (h : o.Nested) {tag : StartTag} {i : Nat} {e : Element}
    (he : (o.addElement tag).elements[i]? = some e) :
    (∃ e₀, o.elements[i]? = some e₀ ∧ e.start = e₀.start ∧ e.bodyStart = e₀.bodyStart ∧
      e.bodyEnd = e₀.bodyEnd ∧ (e.bodyEnd ≠ none → e.hasChildren = e₀.hasChildren)) ∨
    (i = o.elements.length ∧ e = o.begun tag) := by
  rw [addElement_eq] at he
  rcases Nat.lt_trichotomy i o.marked.length with hi | hi | hi
  · rw [List.getElem?_append_left hi] at he
    obtain ⟨e₀, he₀, rfl | ⟨hopen, rfl⟩⟩ := getElem?_marked h he
    · exact .inl ⟨e, he₀, rfl, rfl, rfl, fun _ => rfl⟩
    · exact .inl ⟨e₀, he₀, rfl, rfl, rfl, fun hclosed => absurd hopen hclosed⟩
  · subst hi
    simp only [List.getElem?_concat_length, Option.some.injEq] at he
    exact .inr ⟨length_marked o, he.symm⟩
  · rw [List.getElem?_eq_none (by simpa using Nat.succ_le_of_lt hi)] at he
    cases he

theorem begun_bodyStart (o : Outline) (tag : StartTag) :
    (o.begun tag).bodyStart = o.offset + tag.source.length := rfl

theorem begun_bodyEnd {o : Outline} {tag : StartTag} {x : Nat}
    (h : (o.begun tag).bodyEnd = some x) : x = o.offset + tag.source.length := by
  unfold begun at h
  simp only at h
  split at h
  · exact (Option.some.inj h).symm
  · cases h

theorem lt_length_of_getElem? {o : Outline} {i : Nat} {e : Element}
    (h : o.elements[i]? = some e) : i < o.elements.length :=
  (List.getElem?_eq_some_iff.1 h).1

theorem length_addElement (o : Outline) (tag : StartTag) :
    (o.addElement tag).elements.length = o.elements.length + 1 := by
  rw [addElement_eq, List.length_append, length_marked]
  rfl

theorem mem_stack_addElement {o : Outline} {tag : StartTag} {entry : Text × Nat}
    (h : entry ∈ (o.addElement tag).stack) :
    entry ∈ o.stack ∨ opens tag = true ∧ entry = (tag.name, o.elements.length) := by
  rw [addElement_eq] at h
  simp only at h
  split at h
  · rename_i hopens
    rcases List.mem_cons.1 h with rfl | hmem
    · exact .inr ⟨hopens, rfl⟩
    · exact .inl hmem
  · exact .inl h

/-- An element that is open behind a start tag has a child unless the tag begins it. -/
theorem exists_open_addElement {o : Outline} (h : o.Nested) {tag : StartTag} {entry : Text × Nat}
    (hentry : entry ∈ (o.addElement tag).stack) :
    ∃ e, (o.addElement tag).elements[entry.2]? = some e ∧ e.tag = entry.1 ∧ e.bodyEnd = none ∧
      (e.hasChildren = true ↔ entry.2 + 1 < (o.addElement tag).elements.length) := by
  have helements : (o.addElement tag).elements = o.marked ++ [o.begun tag] := by
    rw [addElement_eq]
  rw [length_addElement, helements]
  rcases mem_stack_addElement hentry with hmem | ⟨hopens, rfl⟩
  · obtain ⟨e, he, htag, hopen, hchildren⟩ := marked_of_mem_stack h hmem
    have hlt := (List.getElem?_eq_some_iff.1 he).1
    refine ⟨e, by rw [List.getElem?_append_left hlt, he], htag, hopen, ?_⟩
    rw [length_marked] at hlt
    simpa [hchildren] using hlt
  · refine ⟨o.begun tag, ?_, rfl, ?_, ?_⟩
    · simp [← length_marked]
    · simp only [opens, Bool.not_eq_true', Bool.or_eq_false_iff] at hopens
      simp [begun, hopens.1]
    · simp [begun]

theorem Nested.addElement {o : Outline} (h : o.Nested) (tag : StartTag) :
    (o.addElement tag).Nested := by
  have hoffset : (o.addElement tag).offset = o.offset + tag.source.length := rfl
  have hlength := o.length_addElement tag
  constructor
  case bodyStart_le =>
    intro i e he
    rcases getElem?_addElement h he with ⟨e₀, he₀, -, hbody, -⟩ | ⟨-, rfl⟩
    · have := h.bodyStart_le he₀
      omega
    · exact Nat.le_refl _
  case ordered =>
    intro i j e f hij he hf
    rcases getElem?_addElement h hf with ⟨f₀, hf₀, hstart, -⟩ | ⟨hj, rfl⟩
    · rcases getElem?_addElement h he with ⟨e₀, he₀, -, hbody, -⟩ | ⟨hi, -⟩
      · rw [hbody, hstart]
        exact h.ordered hij he₀ hf₀
      · have := lt_length_of_getElem? hf₀
        omega
    · rcases getElem?_addElement h he with ⟨e₀, he₀, -, hbody, -⟩ | ⟨hi, -⟩
      · rw [hbody]
        exact h.bodyStart_le he₀
      · omega
  case bodyEnd_bounds =>
    intro i x e he hx
    rcases getElem?_addElement h he with ⟨e₀, he₀, -, hbody, hend, -⟩ | ⟨-, rfl⟩
    · have := h.bodyEnd_bounds he₀ (hend ▸ hx)
      omega
    · have := begun_bodyEnd hx
      have := begun_bodyStart o tag
      omega
  case nested_or_disjoint =>
    intro i j x y e f hij he hf hx hy
    rcases getElem?_addElement h he with ⟨e₀, he₀, -, -, hend, -⟩ | ⟨hi, -⟩
    · rcases getElem?_addElement h hf with ⟨f₀, hf₀, hstart, -, hend', -⟩ | ⟨-, rfl⟩
      · rw [hstart]
        exact h.nested_or_disjoint hij he₀ hf₀ (hend ▸ hx) (hend' ▸ hy)
      · exact .inl (h.bodyEnd_bounds he₀ (hend ▸ hx)).2
    · have := lt_length_of_getElem? hf
      omega
  case leaf =>
    intro i j x e f hij he hf hx hleaf
    rcases getElem?_addElement h he with ⟨e₀, he₀, -, -, hend, hchildren⟩ | ⟨hi, -⟩
    · rcases getElem?_addElement h hf with ⟨f₀, hf₀, hstart, -⟩ | ⟨-, rfl⟩
      · rw [hstart]
        exact h.leaf hij he₀ hf₀ (hend ▸ hx) (hchildren (by simp [hx]) ▸ hleaf)
      · exact (h.bodyEnd_bounds he₀ (hend ▸ hx)).2
    · have := lt_length_of_getElem? hf
      omega
  case parent =>
    intro i x e he hx hchildren
    rcases getElem?_addElement h he with ⟨e₀, he₀, -, -, hend, hsame⟩ | ⟨-, rfl⟩
    · obtain ⟨j, f, hij, hf, hlt⟩ := h.parent he₀ (hend ▸ hx) (hsame (by simp [hx]) ▸ hchildren)
      have hj := lt_length_of_getElem? hf
      obtain ⟨f', hf'⟩ : ∃ f', (o.addElement tag).elements[j]? = some f' :=
        ⟨_, List.getElem?_eq_getElem (by omega)⟩
      rcases getElem?_addElement h hf' with ⟨f₀, hf₀, hstart, -⟩ | ⟨hj', -⟩
      · rw [hf] at hf₀
        cases hf₀
        exact ⟨j, f', hij, hf', hstart ▸ hlt⟩
      · omega
    · cases hchildren
  case of_mem_stack =>
    intro entry hentry
    exact exists_open_addElement h hentry
  case stack_sorted =>
    rw [addElement_eq]
    simp only
    split
    · refine List.pairwise_cons.2 ⟨fun entry hentry => ?_, h.stack_sorted⟩
      obtain ⟨e, he, -⟩ := h.of_mem_stack hentry
      exact lt_length_of_getElem? he
    · exact h.stack_sorted
  case closed_before_open =>
    intro i x e f entry he hx hentry hlt hf
    rcases getElem?_addElement h hf with ⟨f₀, hf₀, hstart, -⟩ | ⟨-, rfl⟩
    · rcases getElem?_addElement h he with ⟨e₀, he₀, -, -, hend, -⟩ | ⟨hi, -⟩
      · rw [hstart]
        rcases mem_stack_addElement hentry with hmem | ⟨-, rfl⟩
        · exact h.closed_before_open he₀ (hend ▸ hx) hmem hlt hf₀
        · exact absurd (lt_length_of_getElem? hf₀) (Nat.lt_irrefl _)
      · have := lt_length_of_getElem? hf₀
        omega
    · rcases getElem?_addElement h he with ⟨e₀, he₀, -, -, hend, -⟩ | ⟨hi, rfl⟩
      · exact (h.bodyEnd_bounds he₀ (hend ▸ hx)).2
      · have := lt_length_of_getElem? hf
        omega

/-- What an end tag does: nothing, where no open element has its name; else it closes one, and
those inside of it are open no more. -/
theorem closeElement_cases (o : Outline) (name source : Text) :
    o.closeElement name source = { o with offset := o.offset + source.length } ∨
    ∃ index outer, (∃ inner, o.stack = inner ++ (name, index) :: outer) ∧
      o.closeElement name source =
        { elements := o.elements.modify index fun e => { e with bodyEnd := some o.offset }
          stack := outer
          offset := o.offset + source.length } := by
  unfold closeElement
  split
  · exact .inl rfl
  · rename_i found index outer hdrop
    have hname : found = name := by
      have := List.head?_dropWhile_not (fun entry : Text × Nat => decide (entry.1 ≠ name)) o.stack
      rw [hdrop] at this
      simpa using this
    subst hname
    refine .inr ⟨index, outer, ⟨o.stack.takeWhile fun entry => entry.1 ≠ found, ?_⟩, rfl⟩
    rw [← hdrop, List.takeWhile_append_dropWhile]

/-- An element of the outline behind an end tag was there before, and is the one that the tag
closes or has not changed. -/
theorem getElem?_modify_bodyEnd {elements : List Element} {index i x : Nat} {e : Element}
    (he : (elements.modify index fun e => { e with bodyEnd := some x })[i]? = some e) :
    ∃ e₀, elements[i]? = some e₀ ∧ e.start = e₀.start ∧ e.bodyStart = e₀.bodyStart ∧
      e.tag = e₀.tag ∧ e.hasChildren = e₀.hasChildren ∧
      (i = index ∧ e.bodyEnd = some x ∨ i ≠ index ∧ e.bodyEnd = e₀.bodyEnd) := by
  rw [List.getElem?_modify] at he
  obtain ⟨e₀, he₀, rfl⟩ := Option.map_eq_some_iff.1 he
  refine ⟨e₀, he₀, ?_⟩
  split
  · rename_i h
    exact ⟨rfl, rfl, rfl, rfl, .inl ⟨h.symm, rfl⟩⟩
  · rename_i h
    exact ⟨rfl, rfl, rfl, rfl, .inr ⟨fun heq => h heq.symm, rfl⟩⟩

theorem Nested.advance {o : Outline} (h : o.Nested) (n : Nat) :
    Nested { o with offset := o.offset + n } where
  bodyStart_le he := Nat.le_add_right_of_le (h.bodyStart_le he)
  ordered := h.ordered
  bodyEnd_bounds he hx :=
    ⟨(h.bodyEnd_bounds he hx).1, Nat.le_add_right_of_le (h.bodyEnd_bounds he hx).2⟩
  nested_or_disjoint := h.nested_or_disjoint
  leaf := h.leaf
  parent := h.parent
  of_mem_stack := h.of_mem_stack
  stack_sorted := h.stack_sorted
  closed_before_open := h.closed_before_open

/-- An open element that has no child is the last one. -/
theorem Nested.last_of_mem_stack {o : Outline} (h : o.Nested) {entry : Text × Nat}
    (hentry : entry ∈ o.stack) {e : Element} (he : o.elements[entry.2]? = some e)
    (hleaf : e.hasChildren = false) : o.elements.length ≤ entry.2 + 1 := by
  obtain ⟨found, hfound, -, -, hchildren⟩ := h.of_mem_stack hentry
  cases he.symm.trans hfound
  refine Nat.le_of_not_lt fun hlt => ?_
  rw [hchildren.2 hlt] at hleaf
  cases hleaf

/-- An open element that has a child has the next one inside of it. -/
theorem Nested.exists_child_of_mem_stack {o : Outline} (h : o.Nested) {entry : Text × Nat}
    (hentry : entry ∈ o.stack) {e : Element} (he : o.elements[entry.2]? = some e)
    (hparent : e.hasChildren = true) :
    ∃ f, o.elements[entry.2 + 1]? = some f ∧ f.start < o.offset := by
  obtain ⟨found, hfound, -, -, hchildren⟩ := h.of_mem_stack hentry
  cases he.symm.trans hfound
  have hf := List.getElem?_eq_getElem (hchildren.1 hparent)
  exact ⟨_, hf, Nat.lt_of_lt_of_le (Element.start_lt_bodyStart _) (h.bodyStart_le hf)⟩

/-- The elements around an open one were begun before it. -/
theorem Nested.mem_outer {o : Outline} (h : o.Nested) {inner outer : List (Text × Nat)}
    {closed : Text × Nat} (hstack : o.stack = inner ++ closed :: outer) {entry : Text × Nat}
    (hentry : entry ∈ outer) : entry ∈ o.stack ∧ entry.2 < closed.2 := by
  have hsorted := h.stack_sorted
  rw [hstack, List.pairwise_append] at hsorted
  refine ⟨?_, (List.pairwise_cons.1 hsorted.2.1).1 entry hentry⟩
  rw [hstack]
  exact List.mem_append_right _ (List.mem_cons_of_mem _ hentry)

theorem Nested.closeElement {o : Outline} (h : o.Nested) (name source : Text) :
    (o.closeElement name source).Nested := by
  rcases closeElement_cases o name source with heq | ⟨index, outer, ⟨inner, hstack⟩, heq⟩
  · rw [heq]
    exact h.advance _
  rw [heq]
  have hmem : (name, index) ∈ o.stack := by simp [hstack]
  constructor
  case bodyStart_le =>
    intro i e he
    obtain ⟨e₀, he₀, -, hbody, -⟩ := getElem?_modify_bodyEnd he
    rw [hbody]
    exact Nat.le_add_right_of_le (h.bodyStart_le he₀)
  case ordered =>
    intro i j e f hij he hf
    obtain ⟨e₀, he₀, -, hbody, -⟩ := getElem?_modify_bodyEnd he
    obtain ⟨f₀, hf₀, hstart, -⟩ := getElem?_modify_bodyEnd hf
    rw [hbody, hstart]
    exact h.ordered hij he₀ hf₀
  case bodyEnd_bounds =>
    intro i x e he hx
    obtain ⟨e₀, he₀, -, hbody, -, -, ⟨-, hend⟩ | ⟨-, hend⟩⟩ := getElem?_modify_bodyEnd he
    · rw [hx] at hend
      cases hend
      exact ⟨hbody ▸ h.bodyStart_le he₀, Nat.le_add_right _ _⟩
    · have := h.bodyEnd_bounds he₀ (hend ▸ hx)
      exact ⟨hbody ▸ this.1, Nat.le_add_right_of_le this.2⟩
  case nested_or_disjoint =>
    intro i j x y e f hij he hf hx hy
    obtain ⟨e₀, he₀, -, -, -, -, hi⟩ := getElem?_modify_bodyEnd he
    obtain ⟨f₀, hf₀, hstart, -, -, -, hj⟩ := getElem?_modify_bodyEnd hf
    rw [hstart]
    rcases hi with ⟨rfl, hend⟩ | ⟨-, hend⟩
    · rcases hj with ⟨rfl, -⟩ | ⟨-, hend'⟩
      · exact absurd hij (Nat.lt_irrefl _)
      · rw [hx] at hend
        cases hend
        exact .inr (h.bodyEnd_bounds hf₀ (hend' ▸ hy)).2
    · rcases hj with ⟨rfl, -⟩ | ⟨-, hend'⟩
      · exact .inl (h.closed_before_open he₀ (hend ▸ hx) hmem hij hf₀)
      · exact h.nested_or_disjoint hij he₀ hf₀ (hend ▸ hx) (hend' ▸ hy)
  case leaf =>
    intro i j x e f hij he hf hx hleaf
    obtain ⟨e₀, he₀, -, -, -, hsame, hi⟩ := getElem?_modify_bodyEnd he
    obtain ⟨f₀, hf₀, hstart, -⟩ := getElem?_modify_bodyEnd hf
    rcases hi with ⟨rfl, -⟩ | ⟨-, hend⟩
    · -- A childless element that is closed now is the last one.
      have hlast := h.last_of_mem_stack hmem he₀ (hsame ▸ hleaf)
      have := lt_length_of_getElem? hf₀
      dsimp only at hlast
      omega
    · rw [hstart]
      exact h.leaf hij he₀ hf₀ (hend ▸ hx) (hsame ▸ hleaf)
  case parent =>
    intro i x e he hx hparent
    obtain ⟨e₀, he₀, -, -, -, hsame, hi⟩ := getElem?_modify_bodyEnd he
    obtain ⟨j, f, hij, hf, hlt⟩ : ∃ (j : Nat) (f : Element), i < j ∧ o.elements[j]? = some f ∧
        f.start < x := by
      rcases hi with ⟨rfl, hend⟩ | ⟨-, hend⟩
      · cases hx.symm.trans hend
        obtain ⟨f, hf, hlt⟩ := h.exists_child_of_mem_stack hmem he₀ (hsame ▸ hparent)
        exact ⟨i + 1, f, Nat.lt_succ_self i, hf, hlt⟩
      · exact h.parent he₀ (hend ▸ hx) (hsame ▸ hparent)
    refine ⟨j, if index = j then { f with bodyEnd := some o.offset } else f, hij, ?_, ?_⟩
    · simp only [List.getElem?_modify, hf, Option.map_eq_map, Option.map_some]
    · split <;> exact hlt
  case of_mem_stack =>
    intro entry hentry
    obtain ⟨hold, hlt⟩ := h.mem_outer hstack hentry
    obtain ⟨e, he, htag, hopen', hchildren'⟩ := h.of_mem_stack hold
    refine ⟨e, ?_, htag, hopen', ?_⟩
    · simp only [List.getElem?_modify, Nat.ne_of_gt hlt, if_false, he, Option.map_eq_map,
        Option.map_some]
    · simpa using hchildren'
  case stack_sorted =>
    have hsorted := h.stack_sorted
    rw [hstack, List.pairwise_append] at hsorted
    exact (List.pairwise_cons.1 hsorted.2.1).2
  case closed_before_open =>
    intro i x e f entry he hx hentry hij hf
    obtain ⟨hold, hlt⟩ := h.mem_outer hstack hentry
    obtain ⟨e₀, he₀, -, -, -, -, hi⟩ := getElem?_modify_bodyEnd he
    obtain ⟨f₀, hf₀, hstart, -⟩ := getElem?_modify_bodyEnd hf
    rw [hstart]
    rcases hi with ⟨rfl, -⟩ | ⟨-, hend⟩
    · exact absurd hij (Nat.lt_asymm hlt)
    · exact h.closed_before_open he₀ (hend ▸ hx) hold hij hf₀

theorem Nested.read {o : Outline} (h : o.Nested) (t : Token) : (o.read t).Nested := by
  cases t with
  | inert source => exact h.advance _
  | start tag => exact h.addElement tag
  | close name source => exact h.closeElement name source

theorem Nested.foldl_read {o : Outline} (h : o.Nested) (tokens : List Token) :
    (tokens.foldl Outline.read o).Nested := by
  induction tokens generalizing o with
  | nil => exact h
  | cons t rest ih => exact ih (h.read t)

/-- An outline is as long as the tokens that have been read. -/
theorem offset_foldl_read (o : Outline) (tokens : List Token) :
    (tokens.foldl Outline.read o).offset = o.offset + (sourceOf tokens).length := by
  induction tokens generalizing o with
  | nil => rfl
  | cons t rest ih =>
    have hread : (o.read t).offset = o.offset + t.source.length := by
      cases t with
      | inert source => rfl
      | start tag => rfl
      | close name source =>
        rcases closeElement_cases o name source with heq | ⟨index, outer, -, heq⟩ <;>
          (simp only [Outline.read, heq]; rfl)
    have hsource : sourceOf (t :: rest) = t.source ++ sourceOf rest := List.flatMap_cons
    rw [List.foldl_cons, ih, hread, hsource, List.length_append, Nat.add_assoc]

end Outline

-- ---------------------------------------------------------------------------
-- Documents
-- ---------------------------------------------------------------------------

theorem eq_ok_of_toOption {ε α : Type} {x : Except ε α} {a : α} (h : x.toOption = some a) :
    x = .ok a := by
  cases x with
  | error e => cases h
  | ok b => exact congrArg Except.ok (Option.some.inj h)

/-- Whether an element is as reading has found it: its attributes are those of its tag, and nothing
takes the place of its tag or body. -/
def Element.IsUnchanged (e : Element) : Prop :=
  e.attributes = Attributes.ofTag e.startTag.attributes [] ∧ e.newTag = none ∧ e.newBody = none

theorem Outline.isUnchanged_foldl_read (tokens : List Token) (o : Outline)
    (h : ∀ e ∈ o.elements, e.IsUnchanged) :
    ∀ e ∈ (tokens.foldl Outline.read o).elements, e.IsUnchanged := by
  have hmodify (elements : List Element) (index : Nat) (f : Element → Element)
      (hf : ∀ e, e.IsUnchanged → (f e).IsUnchanged) (h : ∀ e ∈ elements, e.IsUnchanged) :
      ∀ e ∈ elements.modify index f, e.IsUnchanged := by
    intro e he
    obtain ⟨i, hi⟩ := List.mem_iff_getElem?.1 he
    rw [List.getElem?_modify] at hi
    obtain ⟨e₀, he₀, rfl⟩ := Option.map_eq_some_iff.1 hi
    have hmem := h e₀ (List.mem_of_getElem? he₀)
    split
    · exact hf e₀ hmem
    · exact hmem
  induction tokens generalizing o with
  | nil => exact h
  | cons t rest ih =>
    refine ih (o.read t) ?_
    cases t with
    | inert source => exact h
    | start tag =>
      simp only [Outline.read, Outline.addElement_eq, List.mem_append, List.mem_singleton]
      intro e he
      rcases he with he | rfl
      · unfold Outline.marked at he
        split at he
        · exact h e he
        · exact hmodify _ _ (fun e => { e with hasChildren := true }) (fun _ h => h) h e he
      · exact ⟨rfl, rfl, rfl⟩
    | close name source =>
      rcases Outline.closeElement_cases o name source with heq | ⟨index, outer, -, heq⟩
      · simpa only [Outline.read, heq] using h
      · simp only [Outline.read, heq]
        exact hmodify _ _ _ (fun _ h => h) h

/-- The elements of a document are those of its tokens. -/
theorem Document.exists_tokens {markup : Text} {d : Document} (h : parse markup = .ok d) :
    ∃ tokens, tokensOf markup = .ok tokens ∧
      d.elements = (tokens.foldl Outline.read .empty).elements := by
  cases htokens : tokensOf markup with
  | error e =>
    rw [parse, htokens] at h
    cases h
  | ok tokens =>
    refine ⟨tokens, rfl, ?_⟩
    rw [parse_eq htokens] at h
    unfold ofElements at h
    split at h
    · cases h
    · exact Except.ok.inj h ▸ rfl

/-- The elements of a document lie as reading leaves them, within the markup. -/
theorem Document.exists_outline {markup : Text} {d : Document} (h : parse markup = .ok d) :
    ∃ o : Outline, o.Nested ∧ o.elements = d.elements ∧ o.offset = d.markup.length := by
  obtain ⟨tokens, htokens, helements⟩ := exists_tokens h
  refine ⟨tokens.foldl Outline.read .empty, Outline.nested_empty.foldl_read tokens,
    helements.symm, ?_⟩
  rw [Outline.offset_foldl_read, sourceOf_tokensOf htokens, markup_of_parse h]
  exact Nat.zero_add _

theorem Document.isUnchanged_of_parse {markup : Text} {d : Document} (h : parse markup = .ok d) :
    ∀ e ∈ d.elements, e.IsUnchanged := by
  obtain ⟨tokens, -, helements⟩ := exists_tokens h
  rw [helements]
  exact Outline.isUnchanged_foldl_read tokens .empty (fun e he => nomatch he)

end PageSplice.Html
