-- SUMMARY: Editing: calls on the elements of a document, and the markup that is written after them.
import PageSplice.Proofs.Html.Nesting

/-!
# Editing

Attributes and bodies are set one call at a time, in any order, and some of the
calls fail. What is written in the end is the markup with the start tags and
bodies that were set in their places, and nothing else changed. That the places
never overlap is checked nowhere: it follows from how elements nest and from
the two conditions under which a body can be set.
-/

namespace PageSplice.Html

namespace Document

-- ---------------------------------------------------------------------------
-- Rewritten markup
-- ---------------------------------------------------------------------------

theorem slice_append_drop (s : Text) {i j : Nat} (h : i ≤ j) :
    Text.slice s i j ++ s.drop j = s.drop i := by
  have hdrop : s.drop j = (s.drop i).drop (j - i) := by
    rw [List.drop_drop, Nat.add_sub_cancel' h]
  rw [Text.slice, List.drop_take, hdrop, List.take_append_drop]

/-- `Rewrites i s edits t`: `t` is `s`, a text that begins at offset `i` of the markup, with the
stretches of `edits` replaced one after the other and all that lies between them kept. -/
inductive Rewrites : Nat → Text → List Edit → Text → Prop
  | rest (i : Nat) (s : Text) : Rewrites i s [] s
  | edit {i : Nat} {kept old replacement s t : Text} {edits : List Edit}
      (tail : Rewrites (i + kept.length + old.length) s edits t) :
      Rewrites i (kept ++ old ++ s)
        (⟨i + kept.length, i + kept.length + old.length, replacement⟩ :: edits)
        (kept ++ replacement ++ t)

theorem rewrites_splice {markup : Text} {edits : List Edit} {i : Nat}
    (hbounds : ∀ edit ∈ edits, i ≤ edit.start ∧ edit.start ≤ edit.stop ∧
      edit.stop ≤ markup.length)
    (hdisjoint : edits.Pairwise fun a b => a.stop ≤ b.start) :
    Rewrites i (markup.drop i) edits (splice markup i edits) := by
  induction edits generalizing i with
  | nil => exact .rest i _
  | cons edit edits ih =>
    obtain ⟨hstart, hstop, hlength⟩ := hbounds edit List.mem_cons_self
    obtain ⟨hnext, hrest⟩ := List.pairwise_cons.1 hdisjoint
    have hkept : i + (Text.slice markup i edit.start).length = edit.start := by
      rw [Text.length_slice]
      omega
    have hold : edit.start + (Text.slice markup edit.start edit.stop).length = edit.stop := by
      rw [Text.length_slice]
      omega
    have hsource : markup.drop i = Text.slice markup i edit.start ++
        Text.slice markup edit.start edit.stop ++ markup.drop edit.stop := by
      rw [List.append_assoc, slice_append_drop _ hstop, slice_append_drop _ hstart]
    have htail : Rewrites (i + (Text.slice markup i edit.start).length +
        (Text.slice markup edit.start edit.stop).length) (markup.drop edit.stop) edits
        (splice markup edit.stop edits) := by
      rw [hkept, hold]
      exact ih (fun later hlater =>
        ⟨hnext later hlater, (hbounds later (List.mem_cons_of_mem _ hlater)).2⟩) hrest
    have hrewrites := @Rewrites.edit _ _ _ edit.replacement _ _ _ htail
    rwa [hkept, hold, ← hsource] at hrewrites

-- ---------------------------------------------------------------------------
-- Calls
-- ---------------------------------------------------------------------------

inductive Call
  | setAttribute (index : Nat) (name value : Text)
  | setBody (index : Nat) (body : Text)
  deriving DecidableEq, Repr

def Call.index : Call → Nat
  | setAttribute index _ _ => index
  | setBody index _ => index

def perform (d : Document) : Call → Except BodyError Document
  | .setAttribute index name value => .ok (d.setAttribute index name value)
  | .setBody index body => d.setBody index body

/-- The document after calls one after the other, those that fail included. -/
def performAll (d : Document) (calls : List Call) : Document :=
  calls.foldl (fun d call => (d.perform call).toOption.getD d) d

/-- Whether the body of an element can be replaced: the element is closed and has no child. -/
def isLeaf (e : Element) : Bool := e.isClosed && !e.hasChildren

/-- What a call makes of the element at `index`. -/
def Call.act (call : Call) (index : Nat) (e : Element) : Element :=
  match call with
  | setAttribute i name value => if i = index then e.setAttribute name value else e
  | setBody i body => if i = index ∧ isLeaf e then { e with newBody := some body } else e

theorem mapIdx_congr {α β : Type} {l : List α} {f g : Nat → α → β}
    (h : ∀ i a, l[i]? = some a → f i a = g i a) : l.mapIdx f = l.mapIdx g := by
  refine List.mapIdx_eq_iff.2 fun i => ?_
  rw [List.getElem?_mapIdx]
  cases ha : l[i]? with
  | none => rfl
  | some a => exact congrArg some (h i a ha).symm

theorem mapIdx_eq_self {α : Type} {l : List α} {f : Nat → α → α}
    (h : ∀ i a, l[i]? = some a → f i a = a) : l.mapIdx f = l := by
  rw [mapIdx_congr h]
  exact List.mapIdx_eq_iff.2 fun i => (Option.map_id_apply).symm

theorem modify_eq_mapIdx {α : Type} (l : List α) (index : Nat) (f : α → α) :
    l.modify index f = l.mapIdx fun i a => if index = i then f a else a := by
  refine (List.mapIdx_eq_iff.2 fun i => ?_).symm
  rw [List.getElem?_modify]
  rfl

/-- Setting a body fails on an element that is no leaf, and only there. -/
theorem setBody_cases (d : Document) (index : Nat) (body : Text) :
    (∃ e, d.elements[index]? = some e ∧ isLeaf e = false ∧
      ∃ error, d.setBody index body = .error error) ∨
    (∀ e, d.elements[index]? = some e → isLeaf e = true) ∧
      d.setBody index body =
        .ok { d with elements := d.elements.modify index fun e => { e with newBody := some body } } := by
  unfold setBody
  cases he : d.elements[index]? with
  | none =>
    refine .inr ⟨fun e h => (nomatch h), ?_⟩
    rw [List.modify_eq_self (List.getElem?_eq_none_iff.1 he)]
  | some e =>
    cases hclosed : e.isClosed with
    | false => exact .inl ⟨e, rfl, by simp [isLeaf, hclosed], _, by simp [hclosed]; rfl⟩
    | true =>
      cases hchildren : e.hasChildren with
      | true => exact .inl ⟨e, rfl, by simp [isLeaf, hchildren], _, by simp [hclosed, hchildren]; rfl⟩
      | false =>
        refine .inr ⟨fun f hf => ?_, by simp [hclosed, hchildren]⟩
        cases hf
        simp [isLeaf, hclosed, hchildren]

/-- A call acts on the elements one by one; one that fails acts on none. -/
theorem perform_getD (d : Document) (call : Call) :
    (d.perform call).toOption.getD d = { d with elements := d.elements.mapIdx call.act } := by
  cases call with
  | setAttribute index name value =>
    simp only [perform, Except.toOption, Option.getD_some, setAttribute, modify_eq_mapIdx]
    rfl
  | setBody index body =>
    rcases setBody_cases d index body with ⟨e, he, hleaf, error, herror⟩ | ⟨hleaf, hok⟩
    · have hidle : d.elements.mapIdx (Call.setBody index body).act = d.elements := by
        refine mapIdx_eq_self fun i f hf => if_neg fun ⟨hi, hleaf'⟩ => ?_
        rw [← hi, he] at hf
        cases hf
        simp [hleaf] at hleaf'
      simp only [perform, herror, Except.toOption, Option.getD_none, hidle]
    · simp only [perform, hok, Except.toOption, Option.getD_some, modify_eq_mapIdx]
      refine congrArg (Document.mk d.markup) (mapIdx_congr fun i f hf => ?_)
      unfold Call.act
      by_cases hi : index = i
      · simp [hi, hleaf f (hi ▸ hf)]
      · simp [hi]

/-- What calls, one after the other, make of the element at `index`. -/
def actAll (calls : List Call) (index : Nat) (e : Element) : Element :=
  calls.foldl (fun e call => call.act index e) e

theorem performAll_eq (d : Document) (calls : List Call) :
    d.performAll calls = { d with elements := d.elements.mapIdx (actAll calls) } := by
  induction calls generalizing d with
  | nil =>
    have hself : d.elements.mapIdx (actAll []) = d.elements := mapIdx_eq_self fun _ _ _ => rfl
    rw [hself]
    rfl
  | cons call calls ih =>
    have hstep : d.performAll (call :: calls) =
        performAll { d with elements := d.elements.mapIdx call.act } calls := by
      rw [← perform_getD]
      rfl
    rw [hstep, ih]
    exact congrArg (Document.mk d.markup) List.mapIdx_mapIdx

theorem getElem?_performAll (d : Document) (calls : List Call) (i : Nat) :
    (d.performAll calls).elements[i]? = (d.elements[i]?).map (actAll calls i) := by
  rw [performAll_eq, List.getElem?_mapIdx]

-- ---------------------------------------------------------------------------
-- What is left of calls
-- ---------------------------------------------------------------------------

def Call.setsTag (index : Nat) : Call → Bool
  | setAttribute i _ _ => i = index
  | setBody _ _ => false

/-- The text `tag` of the start tag of the element at `index` after a call. -/
def Call.tagText (index : Nat) (tag : Text) : Call → Text
  | setAttribute i name value =>
    if i = index then TagText.setAttribute (Text.lower name) value tag else tag
  | setBody _ _ => tag

/-- The body that a call asks for, where it is on the element at `index`. -/
def Call.body? (index : Nat) : Call → Option Text
  | setAttribute _ _ _ => none
  | setBody i body => if i = index then some body else none

/-- The text `tag` of the start tag of the element at `index` after calls. -/
def tagAfter (calls : List Call) (index : Nat) (tag : Text) : Text :=
  calls.foldl (Call.tagText index) tag

/-- The body that calls ask for last, of those that are on the element at `index`. -/
def lastBody? (calls : List Call) (index : Nat) : Option Text :=
  (calls.filterMap (Call.body? index)).getLast?

/-- The edit of the start tag of an element after calls: none where no call sets an attribute. -/
def tagEdits (calls : List Call) (index : Nat) (e : Element) : List Edit :=
  if calls.any (Call.setsTag index)
  then [⟨e.start, e.bodyStart, tagAfter calls index e.startTag.source⟩]
  else []

/-- The edit of the body of an element after calls: none where none can be set or is asked for. -/
def bodyEdits (calls : List Call) (index : Nat) (e : Element) : List Edit :=
  if isLeaf e
  then ((lastBody? calls index).map fun body =>
    ⟨e.bodyStart, e.bodyEnd.getD e.bodyStart, body⟩).toList
  else []

/-- What is to be replaced for an element after calls. -/
def editsAt (calls : List Call) (index : Nat) (e : Element) : List Edit :=
  tagEdits calls index e ++ bodyEdits calls index e

/-- What is to be replaced in a document after calls, in the order of the markup. -/
def editsAfter (d : Document) (calls : List Call) : List Edit :=
  (d.elements.mapIdx (editsAt calls)).flatten

theorem tagAfter_of_not_any {calls : List Call} {index : Nat}
    (h : calls.any (Call.setsTag index) = false) (tag : Text) : tagAfter calls index tag = tag := by
  induction calls with
  | nil => rfl
  | cons call calls ih =>
    rw [List.any_cons, Bool.or_eq_false_iff] at h
    have hcall : call.tagText index tag = tag := by
      cases call with
      | setAttribute i name value => exact if_neg (by simpa [Call.setsTag] using h.1)
      | setBody i body => rfl
    rw [tagAfter, List.foldl_cons, hcall]
    exact ih h.2

theorem lastBody?_cons (call : Call) (calls : List Call) (index : Nat) :
    lastBody? (call :: calls) index = (lastBody? calls index).or (call.body? index) := by
  unfold lastBody?
  rw [List.filterMap_cons]
  cases call.body? index with
  | none => simp
  | some body => cases h : (calls.filterMap (Call.body? index)).getLast? <;> simp [List.getLast?_cons, h]

theorem startText_eq {e e' : Element} (htag : e'.startTag = e.startTag) {set : Bool} {text : Text}
    (h : e'.newTag = if set then some text else e.newTag) (hsame : set = false → text = e.startText) :
    e'.startText = text := by
  unfold Element.startText
  cases set with
  | true => simp [h]
  | false => simp [h, htag, hsame rfl, Element.startText]

/-- What a call leaves of an element: its places, and on these the text that it asks for. -/
theorem act_eq (call : Call) (index : Nat) (e : Element) :
    let e' := call.act index e
    e'.startTag = e.startTag ∧ e'.start = e.start ∧ e'.bodyEnd = e.bodyEnd ∧
    e'.hasChildren = e.hasChildren ∧
    e'.newTag = (if call.setsTag index then some (call.tagText index e.startText) else e.newTag) ∧
    e'.newBody = (if isLeaf e then (call.body? index).or e.newBody else e.newBody) := by
  cases call with
  | setAttribute i name value =>
    by_cases hi : i = index <;>
      simp [Call.act, Call.setsTag, Call.tagText, Call.body?, Element.setAttribute, hi]
  | setBody i body =>
    cases hleaf : isLeaf e <;> by_cases hi : i = index <;>
      simp [Call.act, Call.setsTag, Call.body?, hi, hleaf]

/-- What calls leave of an element: its places, and on these the texts that they ask for. -/
theorem actAll_eq (calls : List Call) (index : Nat) (e : Element) :
    let e' := actAll calls index e
    e'.startTag = e.startTag ∧ e'.start = e.start ∧ e'.bodyEnd = e.bodyEnd ∧
    e'.hasChildren = e.hasChildren ∧
    e'.newTag = (if calls.any (Call.setsTag index)
      then some (tagAfter calls index e.startText) else e.newTag) ∧
    e'.newBody = (if isLeaf e then (lastBody? calls index).or e.newBody else e.newBody) := by
  induction calls generalizing e with
  | nil => simp [actAll, lastBody?]
  | cons call calls ih =>
    obtain ⟨htag, hstart, hend, hchildren, hnewTag, hnewBody⟩ := act_eq call index e
    obtain ⟨htag', hstart', hend', hchildren', hnewTag', hnewBody'⟩ := ih (call.act index e)
    have hleaf : isLeaf (call.act index e) = isLeaf e := by
      simp only [isLeaf, Element.isClosed, hend, hchildren]
    have hstartText : (call.act index e).startText = call.tagText index e.startText :=
      startText_eq htag hnewTag fun h => @tagAfter_of_not_any [call] index (by simp [h]) _
    refine ⟨htag'.trans htag, hstart'.trans hstart, hend'.trans hend, hchildren'.trans hchildren,
      ?_, ?_⟩
    · refine hnewTag'.trans ?_
      rw [hstartText, hnewTag, List.any_cons]
      cases hany : calls.any (Call.setsTag index) with
      | true => simp [tagAfter]
      | false =>
        have hkeep := tagAfter_of_not_any hany (call.tagText index e.startText)
        cases hset : call.setsTag index with
        | true => simpa [tagAfter] using hkeep.symm
        | false => simp
    · refine hnewBody'.trans ?_
      rw [hleaf, hnewBody, lastBody?_cons]
      cases isLeaf e <;> simp [Option.or_assoc]

theorem editsOf_actAll (calls : List Call) (index : Nat) {e : Element} (h : e.IsUnchanged) :
    editsOf (actAll calls index e) = editsAt calls index e := by
  obtain ⟨htag, hstart, hend, -, hnewTag, hnewBody⟩ := actAll_eq calls index e
  obtain ⟨-, hnoTag, hnoBody⟩ := h
  have htext : e.startText = e.startTag.source := by simp [Element.startText, hnoTag]
  have hbodyStart : (actAll calls index e).bodyStart = e.bodyStart := by
    rw [Element.bodyStart, hstart, htag]
    rfl
  unfold editsOf editsAt tagEdits bodyEdits
  rw [hnewTag, hnewBody, hstart, hend, hbodyStart, hnoTag, hnoBody, htext]
  congr 1
  · split <;> rfl
  · split <;> simp

theorem edits_performAll {markup : Text} {d : Document} (h : parse markup = .ok d)
    (calls : List Call) : (d.performAll calls).edits = d.editsAfter calls := by
  unfold edits editsAfter
  rw [performAll_eq, List.flatMap_def]
  refine congrArg List.flatten (List.ext_getElem? fun i => ?_)
  simp only [List.getElem?_map, List.getElem?_mapIdx, Option.map_map]
  cases he : d.elements[i]? with
  | none => rfl
  | some e =>
    exact congrArg some (editsOf_actAll calls i (isUnchanged_of_parse h e (List.mem_of_getElem? he)))

-- ---------------------------------------------------------------------------
-- Edits do not overlap
-- ---------------------------------------------------------------------------

theorem mem_tagEdits {calls : List Call} {index : Nat} {e : Element} {edit : Edit}
    (h : edit ∈ tagEdits calls index e) : edit.start = e.start ∧ edit.stop = e.bodyStart := by
  unfold tagEdits at h
  split at h
  · rw [List.mem_singleton] at h
    exact h ▸ ⟨rfl, rfl⟩
  · cases h

theorem mem_bodyEdits {calls : List Call} {index : Nat} {e : Element} {edit : Edit}
    (h : edit ∈ bodyEdits calls index e) :
    e.hasChildren = false ∧ e.bodyEnd = some edit.stop ∧ edit.start = e.bodyStart := by
  unfold bodyEdits at h
  split at h
  · rename_i hleaf
    simp only [isLeaf, Bool.and_eq_true, Bool.not_eq_true', Element.isClosed] at hleaf
    obtain ⟨x, hx⟩ := Option.isSome_iff_exists.1 hleaf.1
    rw [Option.mem_toList, Option.map_eq_some_iff] at h
    obtain ⟨body, -, rfl⟩ := h
    exact ⟨hleaf.2, by simp [hx], rfl⟩
  · cases h

/-- Whether `a` lies in front of `b`. Of two stretches without a length, at one place, neither lies
in front of the other. -/
def Edit.Precedes (a b : Edit) : Prop := a.stop ≤ b.start ∧ a.start < b.stop

theorem bounds_of_mem_editsAt {o : Outline} (ho : o.Nested) {calls : List Call} {i : Nat}
    {e : Element} (he : o.elements[i]? = some e) {edit : Edit} (h : edit ∈ editsAt calls i e) :
    e.start ≤ edit.start ∧ edit.start ≤ edit.stop ∧ edit.start ≤ e.bodyStart ∧
      e.bodyStart ≤ edit.stop ∧ edit.stop ≤ o.offset := by
  have hbody := ho.bodyStart_le he
  have htag := e.start_lt_bodyStart
  rcases List.mem_append.1 h with h | h
  · obtain ⟨hstart, hstop⟩ := mem_tagEdits h
    omega
  · obtain ⟨-, hend, hstart⟩ := mem_bodyEdits h
    have := ho.bodyEnd_bounds he hend
    omega

theorem precedes_of_lt {o : Outline} (ho : o.Nested) {calls : List Call} {i j : Nat}
    {e f : Element} (hij : i < j) (he : o.elements[i]? = some e) (hf : o.elements[j]? = some f)
    {a b : Edit} (ha : a ∈ editsAt calls i e) (hb : b ∈ editsAt calls j f) : a.Precedes b := by
  have hstop : a.stop ≤ f.start := by
    rcases List.mem_append.1 ha with ha | ha
    · exact (mem_tagEdits ha).2 ▸ ho.ordered hij he hf
    · obtain ⟨hleaf, hend, -⟩ := mem_bodyEdits ha
      exact ho.leaf hij he hf hend hleaf
  have hf' := f.start_lt_bodyStart
  obtain ⟨-, hab, -⟩ := bounds_of_mem_editsAt ho he ha
  obtain ⟨hb₁, -, -, hb₂, -⟩ := bounds_of_mem_editsAt ho hf hb
  exact ⟨by omega, by omega⟩

theorem pairwise_editsAt {o : Outline} (ho : o.Nested) (calls : List Call) {i : Nat} {e : Element}
    (he : o.elements[i]? = some e) : (editsAt calls i e).Pairwise Edit.Precedes := by
  refine List.pairwise_append.2 ⟨?_, ?_, fun a ha b hb => ?_⟩
  · unfold tagEdits
    split <;> simp
  · unfold bodyEdits
    split
    · cases lastBody? calls i <;> simp
    · exact .nil
  · obtain ⟨ha₁, ha₂⟩ := mem_tagEdits ha
    obtain ⟨-, -, hb₁⟩ := mem_bodyEdits hb
    have hb₂ := bounds_of_mem_editsAt ho he (List.mem_append_right (tagEdits calls i e) hb)
    have := e.start_lt_bodyStart
    exact ⟨by omega, by omega⟩

theorem mem_editsAfter {d : Document} {calls : List Call} {edit : Edit} :
    edit ∈ d.editsAfter calls ↔ ∃ i e, d.elements[i]? = some e ∧ edit ∈ editsAt calls i e := by
  unfold editsAfter
  rw [List.mem_flatten]
  constructor
  · rintro ⟨edits, hedits, hmem⟩
    obtain ⟨i, hi⟩ := List.mem_iff_getElem?.1 hedits
    rw [List.getElem?_mapIdx] at hi
    obtain ⟨e, he, rfl⟩ := Option.map_eq_some_iff.1 hi
    exact ⟨i, e, he, hmem⟩
  · rintro ⟨i, e, he, hmem⟩
    refine ⟨editsAt calls i e, List.mem_iff_getElem?.2 ⟨i, ?_⟩, hmem⟩
    rw [List.getElem?_mapIdx, he]
    rfl

theorem exists_mem_tagEdits {calls : List Call} {i start stop : Nat} {e : Element} :
    (∃ text, ⟨start, stop, text⟩ ∈ tagEdits calls i e) ↔
      calls.any (Call.setsTag i) = true ∧ start = e.start ∧ stop = e.bodyStart := by
  unfold tagEdits
  split
  · rename_i hany
    simp [hany]
  · rename_i hany
    simp [hany]

theorem exists_mem_bodyEdits {calls : List Call} {i start stop : Nat} {e : Element} :
    (∃ text, ⟨start, stop, text⟩ ∈ bodyEdits calls i e) ↔
      (isLeaf e = true ∧ ∃ body, lastBody? calls i = some body) ∧ start = e.bodyStart ∧
        e.bodyEnd = some stop := by
  constructor
  · rintro ⟨text, hmem⟩
    obtain ⟨-, hend, hstart⟩ := mem_bodyEdits hmem
    refine ⟨?_, hstart, hend⟩
    unfold bodyEdits at hmem
    split at hmem
    · rename_i hleaf
      obtain ⟨body, hbody, -⟩ := Option.map_eq_some_iff.1 (Option.mem_toList.1 hmem)
      exact ⟨hleaf, body, hbody⟩
    · cases hmem
  · rintro ⟨⟨hleaf, body, hbody⟩, rfl, hend⟩
    refine ⟨body, ?_⟩
    rw [bodyEdits, if_pos hleaf, hbody, hend]
    exact List.mem_singleton.2 rfl

/-- Where the edits of a document after calls lie. -/
theorem exists_mem_editsAfter {d : Document} {calls : List Call} {start stop : Nat} :
    (∃ text, ⟨start, stop, text⟩ ∈ d.editsAfter calls) ↔ ∃ i e, d.elements[i]? = some e ∧
      (calls.any (Call.setsTag i) = true ∧ start = e.start ∧ stop = e.bodyStart ∨
        (isLeaf e = true ∧ ∃ body, lastBody? calls i = some body) ∧ start = e.bodyStart ∧
          e.bodyEnd = some stop) := by
  constructor
  · rintro ⟨text, hmem⟩
    obtain ⟨i, e, he, hmem⟩ := mem_editsAfter.1 hmem
    refine ⟨i, e, he, ?_⟩
    rcases List.mem_append.1 hmem with hmem | hmem
    · exact .inl (exists_mem_tagEdits.1 ⟨text, hmem⟩)
    · exact .inr (exists_mem_bodyEdits.1 ⟨text, hmem⟩)
  · rintro ⟨i, e, he, h | h⟩
    · obtain ⟨text, hmem⟩ := exists_mem_tagEdits.2 h
      exact ⟨text, mem_editsAfter.2 ⟨i, e, he, List.mem_append_left _ hmem⟩⟩
    · obtain ⟨text, hmem⟩ := exists_mem_bodyEdits.2 h
      exact ⟨text, mem_editsAfter.2 ⟨i, e, he, List.mem_append_right _ hmem⟩⟩

/-- The edits of a document follow one another without overlap. -/
theorem pairwise_editsAfter {markup : Text} {d : Document} (h : parse markup = .ok d)
    (calls : List Call) : (d.editsAfter calls).Pairwise Edit.Precedes := by
  obtain ⟨o, ho, helements, -⟩ := exists_outline h
  unfold editsAfter
  rw [← helements]
  refine List.pairwise_flatten.2 ⟨fun edits hedits => ?_, ?_⟩
  · obtain ⟨i, hi⟩ := List.mem_iff_getElem?.1 hedits
    rw [List.getElem?_mapIdx] at hi
    obtain ⟨e, he, rfl⟩ := Option.map_eq_some_iff.1 hi
    exact pairwise_editsAt ho calls he
  · refine List.pairwise_iff_getElem.2 fun i j hi hj hij a ha b hb => ?_
    rw [List.getElem_mapIdx] at ha hb
    exact precedes_of_lt ho hij (List.getElem?_eq_getElem _) (List.getElem?_eq_getElem _) ha hb

theorem bounds_editsAfter {markup : Text} {d : Document} (h : parse markup = .ok d)
    (calls : List Call) :
    ∀ edit ∈ d.editsAfter calls, edit.start ≤ edit.stop ∧ edit.stop ≤ markup.length := by
  intro edit hedit
  obtain ⟨o, ho, helements, hoffset⟩ := exists_outline h
  obtain ⟨i, e, he, hmem⟩ := mem_editsAfter.1 hedit
  obtain ⟨-, hle, -, -, hstop⟩ := bounds_of_mem_editsAt ho (helements ▸ he) hmem
  rw [hoffset, markup_of_parse h] at hstop
  exact ⟨hle, hstop⟩

-- ---------------------------------------------------------------------------
-- Main statements
-- ---------------------------------------------------------------------------

/-- What is written after calls is the markup with the edits that the calls ask for. -/
theorem rewrites_serialize {markup : Text} {d : Document} (h : parse markup = .ok d)
    (calls : List Call) :
    Rewrites 0 markup (d.editsAfter calls) (d.performAll calls).serialize := by
  have hserialize : (d.performAll calls).serialize = splice markup 0 (d.editsAfter calls) := by
    rw [serialize, edits_performAll h, performAll_eq, markup_of_parse h]
  have hbounds := bounds_editsAfter h calls
  rw [hserialize]
  exact rewrites_splice (i := 0) (fun edit hedit => ⟨Nat.zero_le _, hbounds edit hedit⟩)
    ((pairwise_editsAfter h calls).imp And.left)

-- ---------------------------------------------------------------------------
-- The order of edits
-- ---------------------------------------------------------------------------

/-- The order in which edits are made: by where they begin, then by where they end. -/
def Edit.IsBefore (a b : Edit) : Prop := a.start < b.start ∨ a.start = b.start ∧ a.stop < b.stop

theorem Edit.Precedes.isBefore {a b : Edit} (h : a.Precedes b) (hle : a.start ≤ a.stop) :
    a.IsBefore b := by
  obtain ⟨hnext, hlt⟩ := h
  unfold Edit.IsBefore
  omega

/-- The edits are recorded under their places. No two places are equal, and the edits are in order. -/
theorem pairwise_isBefore {markup : Text} {d : Document} (h : parse markup = .ok d)
    (calls : List Call) : (d.performAll calls).edits.Pairwise Edit.IsBefore := by
  rw [edits_performAll h]
  exact (pairwise_editsAfter h calls).imp_of_mem fun ha _ hab =>
    hab.isBefore (bounds_editsAfter h calls _ ha).1

theorem eq_of_not_isBefore {edits : List Edit} (h : edits.Pairwise Edit.IsBefore) {a b : Edit}
    (ha : a ∈ edits) (hb : b ∈ edits) (hab : ¬ a.IsBefore b) (hba : ¬ b.IsBefore a) : a = b := by
  obtain ⟨i, hi, rfl⟩ := List.getElem_of_mem ha
  obtain ⟨j, hj, rfl⟩ := List.getElem_of_mem hb
  rcases Nat.lt_trichotomy i j with hlt | rfl | hgt
  · exact absurd (List.pairwise_iff_getElem.1 h i j hi hj hlt) hab
  · rfl
  · exact absurd (List.pairwise_iff_getElem.1 h j i hj hi hgt) hba

/-- In whatever order the edits are recorded, sorting them by their places gives what is written. -/
theorem serialize_eq_of_perm {markup : Text} {d : Document} (h : parse markup = .ok d)
    (calls : List Call) {recorded : List Edit} (hperm : recorded.Perm (d.performAll calls).edits)
    (hsorted : recorded.Pairwise fun a b => ¬ b.IsBefore a) :
    (d.performAll calls).serialize = splice markup 0 recorded := by
  have hbefore := pairwise_isBefore h calls
  have heq : recorded = (d.performAll calls).edits := by
    refine List.Perm.eq_of_pairwise (fun a b ha hb hba hab => ?_) hsorted ?_ hperm
    · exact eq_of_not_isBefore hbefore (hperm.mem_iff.1 ha) hb hab hba
    · refine hbefore.imp fun {a b} hab hba => ?_
      unfold Edit.IsBefore at hab hba
      omega
  rw [heq, serialize, performAll_eq, markup_of_parse h]

theorem performAll_append (d : Document) (calls more : List Call) :
    d.performAll (calls ++ more) = (d.performAll calls).performAll more :=
  List.foldl_append

/-- Calls on different elements can be made in either order. -/
theorem performAll_swap (d : Document) {a b : Call} (h : a.index ≠ b.index) (calls : List Call) :
    d.performAll (a :: b :: calls) = d.performAll (b :: a :: calls) := by
  rw [performAll_eq, performAll_eq]
  refine congrArg (Document.mk d.markup) (mapIdx_congr fun i e _ => ?_)
  have hidle {call : Call} (hi : call.index ≠ i) (e : Element) : call.act i e = e := by
    cases call with
    | setAttribute => exact if_neg hi
    | setBody => exact if_neg fun hcond => hi hcond.1
  have hswap : b.act i (a.act i e) = a.act i (b.act i e) := by
    by_cases ha : a.index = i
    · rw [hidle (fun hb => h (ha.trans hb.symm)), hidle (fun hb => h (ha.trans hb.symm))]
    · rw [hidle ha, hidle ha]
  unfold actAll
  rw [List.foldl_cons, List.foldl_cons, hswap]
  rfl

theorem perform_eq_error_iff {d : Document} {calls : List Call} {call : Call} :
    (∃ error, (d.performAll calls).perform call = .error error) ↔
      ∃ index body e, call = .setBody index body ∧ d.elements[index]? = some e ∧
        isLeaf e = false := by
  cases call with
  | setAttribute index name value => simp [perform]
  | setBody index body =>
    have hleaf (e : Element) : isLeaf (actAll calls index e) = isLeaf e := by
      obtain ⟨-, -, hend, hchildren, -⟩ := actAll_eq calls index e
      simp only [isLeaf, Element.isClosed, hend, hchildren]
    rcases setBody_cases (d.performAll calls) index body with
      ⟨e, he, hfails, error, herror⟩ | ⟨hsets, hok⟩
    · refine ⟨fun _ => ?_, fun _ => ⟨error, herror⟩⟩
      rw [getElem?_performAll, Option.map_eq_some_iff] at he
      obtain ⟨e₀, he₀, rfl⟩ := he
      exact ⟨index, body, e₀, rfl, he₀, hleaf e₀ ▸ hfails⟩
    · constructor
      · rintro ⟨error, herror⟩
        cases hok.symm.trans herror
      · rintro ⟨_, _, e, hcall, he, hfails⟩
        cases hcall
        have hset := hsets (actAll calls index e) (by rw [getElem?_performAll, he]; rfl)
        rw [hleaf, hfails] at hset
        cases hset

/-- The texts of an element after calls: of its start tag, and of its body. -/
theorem texts_performAll {markup : Text} {d : Document} (h : parse markup = .ok d)
    (calls : List Call) {i : Nat} {e : Element} (he : d.elements[i]? = some e) :
    ∃ e', (d.performAll calls).elements[i]? = some e' ∧
      e'.startText = tagAfter calls i e.startTag.source ∧
      (d.performAll calls).text e' =
        (if isLeaf e then lastBody? calls i else none).getD (d.body e) := by
  obtain ⟨htag, hstart, hend, -, hnewTag, hnewBody⟩ := actAll_eq calls i e
  obtain ⟨-, hnoTag, hnoBody⟩ := isUnchanged_of_parse h e (List.mem_of_getElem? he)
  have htext : e.startText = e.startTag.source := by simp [Element.startText, hnoTag]
  refine ⟨actAll calls i e, by rw [getElem?_performAll, he]; rfl, ?_, ?_⟩
  · rw [← htext]
    exact startText_eq htag hnewTag fun hany => tagAfter_of_not_any hany _
  · have hbody : (d.performAll calls).body (actAll calls i e) = d.body e := by
      unfold body
      rw [hend, Element.bodyStart, hstart, htag, performAll_eq]
      rfl
    rw [text, hnewBody, hbody, hnoBody, Option.or_none]

/-- After any calls on the elements of a document, failing ones included, the recorded edits lie
within the markup and do not overlap, and what is written is the markup with just these edits: the
start tag of each element that was set, by the text it has now, and the body of each leaf whose body
was set, by the last one. A call fails just where it sets the body of an element that is no leaf,
and then changes nothing. Calls on different elements can be made in either order. -/
theorem serialize_performAll {markup : Text} {d : Document} (h : parse markup = .ok d)
    (calls : List Call) :
    let d' := d.performAll calls
    d'.edits = d.editsAfter calls ∧
    d'.edits.Pairwise Edit.Precedes ∧
    (∀ edit ∈ d'.edits, edit.start ≤ edit.stop ∧ edit.stop ≤ markup.length) ∧
    Rewrites 0 markup d'.edits d'.serialize ∧
    (∀ i e, d.elements[i]? = some e → ∃ e', d'.elements[i]? = some e' ∧
      e'.startText = tagAfter calls i e.startTag.source ∧
      d'.text e' = (if isLeaf e then lastBody? calls i else none).getD (d.body e)) ∧
    (∀ call, (∃ error, d'.perform call = .error error) ↔ ∃ index body e,
      call = .setBody index body ∧ d.elements[index]? = some e ∧ isLeaf e = false) ∧
    (∀ call error, d'.perform call = .error error → d.performAll (calls ++ [call]) = d') ∧
    (∀ a b later, a.index ≠ b.index →
      d.performAll (calls ++ a :: b :: later) = d.performAll (calls ++ b :: a :: later)) := by
  have hedits := edits_performAll h calls
  refine ⟨hedits, hedits ▸ pairwise_editsAfter h calls, hedits ▸ bounds_editsAfter h calls,
    hedits ▸ rewrites_serialize h calls, fun i e he => texts_performAll h calls he,
    fun call => perform_eq_error_iff, fun call error herror => ?_, fun a b later hab => ?_⟩
  · rw [performAll_append]
    simp only [performAll, List.foldl_cons, List.foldl_nil] at herror ⊢
    rw [herror]
    rfl
  · rw [performAll_append, performAll_append, performAll_swap _ hab]

theorem serialize_performAll_mixed :
    let markup := "<p a=b>x<br></p><i/>y".toList
    let calls : List Call := [.setBody 0 "z".toList, .setAttribute 1 "c".toList "&".toList,
      .setBody 2 "u".toList, .setAttribute 0 "A".toList "d".toList, .setBody 2 "w".toList]
    ∃ d, parse markup = .ok d ∧
      (d.performAll calls).serialize = "<p a=\"d\">x<br c=\"&amp;\"></p><i/>wy".toList ∧
      Rewrites 0 markup (d.performAll calls).edits (d.performAll calls).serialize := by
  have h : parse "<p a=b>x<br></p><i/>y".toList = .ok
      ⟨"<p a=b>x<br></p><i/>y".toList,
        [⟨⟨"p a=b>".toList, "p".toList, [("a".toList, some "b".toList)], false⟩, 0, some 12, true,
            [("a".toList, some "b".toList)], none, none⟩,
         ⟨⟨"br>".toList, "br".toList, [], false⟩, 8, none, false, [], none, none⟩,
         ⟨⟨"i/>".toList, "i".toList, [], true⟩, 16, some 20, false, [], none, none⟩]⟩ := by
    exact eq_ok_of_toOption (by decide +kernel)
  exact ⟨_, h, by decide +kernel, (serialize_performAll h _).2.2.2.1⟩

end Document

end PageSplice.Html
