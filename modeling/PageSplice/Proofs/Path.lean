-- SUMMARY: Paths that come from texts: what is written is read back, and dots are gone once collapsed.
import PageSplice.Path

/-!
# Written paths

Reading a path leaves no segment empty, none that is a dot, and none with a
slash inside. Joining, collapsing and going up keep it so, and such a path with
an anchor is read back from what is written of it. A collapsed path has no `..`
either.
-/

namespace PageSplice

-- ---------------------------------------------------------------------------
-- Pieces of texts
-- ---------------------------------------------------------------------------

namespace Text

theorem splitBy_eq_splitOnP (p : Char → Bool) (s : Text) : splitBy p s = s.splitOnP p := by
  induction s with
  | nil => rfl
  | cons c r ih => rw [splitBy, List.splitOnP_cons_eq_if_modifyHead, ih]

theorem splitOn_eq (c : Char) (s : Text) : splitOn c s = List.splitOn c s := by
  rw [splitOn, splitBy_eq_splitOnP, List.splitOn_eq_splitOnP]
  refine congrArg (List.splitOnP · s) (funext fun d => ?_)
  exact Bool.eq_iff_iff.2 (by simp)

theorem splitBy_ne_nil (p : Char → Bool) (s : Text) : splitBy p s ≠ [] := by
  rw [splitBy_eq_splitOnP]
  exact List.splitOnP_ne_nil p s

theorem splitBy_of_forall {p : Char → Bool} {s : Text} (h : ∀ c ∈ s, p c = false) :
    splitBy p s = [s] := by
  rw [splitBy_eq_splitOnP]
  exact List.splitOnP_eq_singleton h

theorem splitOn_of_not_mem {c : Char} {s : Text} (h : c ∉ s) : splitOn c s = [s] :=
  splitBy_of_forall fun _ hd => decide_eq_false fun heq => h (heq ▸ hd)

/-- No piece holds a separator. -/
theorem not_isSeparator_of_mem_splitBy {p : Char → Bool} {s piece : Text}
    (h : piece ∈ splitBy p s) : ∀ c ∈ piece, p c = false := by
  induction s generalizing piece with
  | nil =>
    rw [List.mem_singleton.1 h]
    exact List.forall_mem_nil _
  | cons c r ih =>
    rw [splitBy] at h
    split at h
    · rcases List.mem_cons.1 h with rfl | h
      · exact List.forall_mem_nil _
      · exact ih h
    · rename_i hc
      obtain ⟨first, rest, hsplit⟩ := List.exists_cons_of_ne_nil (splitBy_ne_nil p r)
      rw [hsplit, List.modifyHead_cons] at h
      rcases List.mem_cons.1 h with rfl | h
      · refine List.forall_mem_cons.2 ⟨Bool.eq_false_iff.2 hc, ih ?_⟩
        exact hsplit ▸ List.mem_cons_self
      · exact ih (hsplit ▸ List.mem_cons_of_mem _ h)

/-- Splitting at more separators splits the pieces further. -/
theorem splitBy_eq_flatMap {p q : Char → Bool} (hpq : ∀ c, p c = true → q c = true) (s : Text) :
    splitBy q s = (splitBy p s).flatMap (splitBy q) := by
  induction s with
  | nil => rfl
  | cons c r ih =>
    obtain ⟨first, rest, hsplit⟩ := List.exists_cons_of_ne_nil (splitBy_ne_nil p r)
    rw [hsplit, List.flatMap_cons] at ih
    obtain ⟨head, tail, hfirst⟩ := List.exists_cons_of_ne_nil (splitBy_ne_nil q first)
    cases hp : p c with
    | true => simp [splitBy, hp, hpq c hp, ih, hsplit]
    | false => cases hq : q c <;> simp [splitBy, hp, hq, ih, hsplit, hfirst]

/-- A piece without a separator of the finer kind is a piece of the finer splitting too. -/
theorem mem_splitBy_of_mem {p q : Char → Bool} (hpq : ∀ c, p c = true → q c = true)
    {s piece : Text} (h : piece ∈ splitBy p s) (hq : ∀ c ∈ piece, q c = false) :
    piece ∈ splitBy q s := by
  rw [splitBy_eq_flatMap hpq]
  refine List.mem_flatMap.2 ⟨piece, h, ?_⟩
  rw [splitBy_of_forall hq]
  exact List.mem_singleton_self piece

/-- Splitting loses separators only. -/
theorem exists_mem_splitBy {p : Char → Bool} {c : Char} (hc : p c = false) (s : Text) :
    (∃ piece ∈ splitBy p s, c ∈ piece) ↔ c ∈ s := by
  induction s with
  | nil => simp [splitBy]
  | cons d r ih =>
    obtain ⟨first, rest, hsplit⟩ := List.exists_cons_of_ne_nil (splitBy_ne_nil p r)
    rw [hsplit] at ih
    rw [List.mem_cons, ← ih]
    cases hd : p d with
    | true =>
      have hne : c ≠ d := by
        rintro rfl
        cases hc.symm.trans hd
      simp [splitBy, hd, hsplit, hne]
    | false => simp [splitBy, hd, hsplit, or_assoc]

/-- A separator ends one piece and begins another. -/
theorem splitBy_append_cons {p : Char → Bool} {c : Char} (hc : p c = true) (s t : Text) :
    splitBy p (s ++ c :: t) = splitBy p s ++ splitBy p t := by
  induction s with
  | nil => simp [splitBy, hc]
  | cons d s ih =>
    obtain ⟨first, rest, hsplit⟩ := List.exists_cons_of_ne_nil (splitBy_ne_nil p s)
    rw [hsplit] at ih
    cases hd : p d <;> simp [splitBy, hd, ih, hsplit]

/-- What holds no separator goes on with the last piece. -/
theorem exists_splitBy_append {p : Char → Bool} {t : Text} (ht : ∀ c ∈ t, p c = false) (s : Text) :
    ∃ front last, splitBy p s = front ++ [last] ∧ splitBy p (s ++ t) = front ++ [last ++ t] := by
  induction s with
  | nil => exact ⟨[], [], rfl, splitBy_of_forall ht⟩
  | cons c s ih =>
    obtain ⟨front, last, hs, hst⟩ := ih
    cases hc : p c with
    | true => exact ⟨[] :: front, last, by simp [splitBy, hc, hs], by simp [splitBy, hc, hst]⟩
    | false =>
      cases front with
      | nil => exact ⟨[], c :: last, by simp [splitBy, hc, hs], by simp [splitBy, hc, hst]⟩
      | cons first front =>
        exact ⟨(c :: first) :: front, last, by simp [splitBy, hc, hs], by simp [splitBy, hc, hst]⟩

end Text

-- ---------------------------------------------------------------------------
-- Segments
-- ---------------------------------------------------------------------------

namespace Path

/-- Whether every segment of a path is one that reading a path can give. -/
def WellFormed (p : Path) : Prop :=
  ∀ segment ∈ p.segments, isProper segment = true ∧ '/' ∉ segment

def IsBelow (p directory : Path) : Prop :=
  ∃ segments, segments ≠ [] ∧ p = ⟨directory.anchor, directory.segments ++ segments⟩

theorem wellFormed_ofText (s : Text) : (ofText s).WellFormed := by
  intro segment hsegment
  obtain ⟨hpiece, hproper⟩ := List.mem_filter.1 hsegment
  refine ⟨hproper, fun hslash => ?_⟩
  exact absurd (Text.not_isSeparator_of_mem_splitBy hpiece '/' hslash) (by decide)

/-- A character other than a slash or a dot is in a text where it is in a segment of the path. -/
theorem exists_mem_ofText {c : Char} (hslash : c ≠ '/') (hdot : c ≠ '.') (s : Text) :
    (∃ segment ∈ (ofText s).segments, c ∈ segment) ↔ c ∈ s := by
  rw [← Text.exists_mem_splitBy (p := fun d => d = '/') (decide_eq_false hslash)]
  constructor
  · rintro ⟨segment, hsegment, hc⟩
    exact ⟨segment, (List.mem_filter.1 hsegment).1, hc⟩
  · rintro ⟨piece, hpiece, hc⟩
    refine ⟨piece, List.mem_filter.2 ⟨hpiece, decide_eq_true ⟨List.ne_nil_of_mem hc, ?_⟩⟩, hc⟩
    rintro rfl
    exact hdot (List.mem_singleton.1 hc)

theorem segments_ofText_append (s t : Text) :
    (ofText (s ++ '/' :: t)).segments = (ofText s).segments ++ (ofText t).segments := by
  rw [ofText, Text.splitOn, Text.splitBy_append_cons (by simp), List.filter_append]
  rfl

/-- Slashes at either end of a text are no segments of the path. -/
theorem segments_ofText_of_slashes {front back : Text} (hfront : ∀ c ∈ front, c = '/')
    (hback : ∀ c ∈ back, c = '/') (s : Text) :
    (ofText (front ++ s ++ back)).segments = (ofText s).segments := by
  have hslashes {t : Text} (ht : ∀ c ∈ t, c = '/') : (ofText t).segments = [] := by
    induction t with
    | nil => rfl
    | cons c t ih =>
      obtain ⟨rfl, hrest⟩ := List.forall_mem_cons.1 ht
      exact (segments_ofText_append [] t).trans (ih hrest)
  have hbehind (s : Text) : (ofText (s ++ back)).segments = (ofText s).segments := by
    cases back with
    | nil => rw [List.append_nil]
    | cons c back =>
      obtain ⟨rfl, hrest⟩ := List.forall_mem_cons.1 hback
      rw [segments_ofText_append, hslashes hrest, List.append_nil]
  rw [List.append_assoc, ← hbehind s]
  induction front with
  | nil => rfl
  | cons c front ih =>
    obtain ⟨rfl, hrest⟩ := List.forall_mem_cons.1 hfront
    exact (segments_ofText_append [] _).trans (ih hrest)

theorem anchor_ofText_eq_relative_iff {s : Text} :
    (ofText s).anchor = .relative ↔ s.head? ≠ some '/' := by
  cases s with
  | nil => exact ⟨fun _ => nofun, fun _ => rfl⟩
  | cons c s =>
    by_cases hc : c = '/'
    · subst hc
      refine ⟨fun h => ?_, fun h => absurd rfl h⟩
      unfold ofText at h
      rw [List.takeWhile_cons_of_pos (by simp), List.length_cons] at h
      unfold Anchor.ofSlashes at h
      split at h
      · rename_i h0
        cases h0
      · cases h
      · cases h
    · refine ⟨fun _ h => hc (Option.some.inj h), fun _ => ?_⟩
      unfold ofText
      rw [List.takeWhile_cons_of_neg (by simpa using hc)]
      rfl

theorem WellFormed.join {p q : Path} (hp : p.WellFormed) (hq : q.WellFormed) :
    (p.join q).WellFormed := by
  unfold Path.join
  split
  · intro segment hsegment
    exact (List.mem_append.1 hsegment).elim (hp segment) (hq segment)
  · exact hq

theorem anchor_join {p : Path} (hp : p.anchor ≠ .relative) (q : Path) :
    (p.join q).anchor ≠ .relative := by
  unfold join
  split
  · exact hp
  · assumption

/-- Collapsing keeps some of the segments, and none that is `..`. -/
theorem mem_collapse {p : Path} {segment : Text} (h : segment ∈ p.collapse.segments) :
    segment ∈ p.segments ∧ segment ≠ ['.', '.'] := by
  have general (segments above : List Text)
      (hmem : segment ∈ segments.foldl collapseStep above) :
      segment ∈ above ∨ segment ∈ segments ∧ segment ≠ ['.', '.'] := by
    induction segments generalizing above with
    | nil => exact .inl hmem
    | cons first rest ih =>
      rcases ih _ hmem with habove | ⟨hrest, hdots⟩
      · unfold collapseStep at habove
        split at habove
        · exact .inl (List.mem_of_mem_tail habove)
        · rename_i hfirst
          rcases List.mem_cons.1 habove with rfl | habove
          · exact .inr ⟨List.mem_cons_self, hfirst⟩
          · exact .inl habove
      · exact .inr ⟨List.mem_cons_of_mem _ hrest, hdots⟩
  exact (general p.segments [] (List.mem_reverse.1 h)).resolve_left List.not_mem_nil

/-- The directory of a document has an anchor, its segments are well-formed, and none is `..`. -/
theorem directoryOf_spec {workingDirectory : Path} (hanchor : workingDirectory.anchor ≠ .relative)
    (hwell : workingDirectory.WellFormed) (path : Text) :
    (directoryOf workingDirectory path).anchor ≠ .relative ∧
      ∀ segment ∈ (directoryOf workingDirectory path).segments,
        isProper segment = true ∧ '/' ∉ segment ∧ segment ≠ ['.', '.'] := by
  refine ⟨anchor_join hanchor (ofText path), fun segment hsegment => ?_⟩
  obtain ⟨hmem, hdots⟩ := mem_collapse (List.dropLast_subset _ hsegment)
  obtain ⟨hproper, hslash⟩ := hwell.join (wellFormed_ofText path) segment hmem
  exact ⟨hproper, hslash, hdots⟩

/-- The segments of a document's directory are those of its path and of the working directory. -/
theorem mem_directoryOf {workingDirectory : Path} {path segment : Text}
    (h : segment ∈ (directoryOf workingDirectory path).segments) :
    segment ∈ workingDirectory.segments ∨ segment ∈ (ofText path).segments := by
  have hmem := (mem_collapse (List.dropLast_subset _ h)).1
  unfold join at hmem
  split at hmem
  · exact List.mem_append.1 hmem
  · exact .inr hmem

-- ---------------------------------------------------------------------------
-- Writing and reading
-- ---------------------------------------------------------------------------

theorem toText_of_anchored {p : Path} (h : p.anchor ≠ .relative) :
    p.toText = p.anchor.toText ++ Text.joinWith ['/'] p.segments :=
  if_neg fun hrelative => h hrelative.1

/-- The pieces between the slashes of segments that are written one behind the other. -/
theorem splitOn_joinWith {segments : List Text} (h : ∀ segment ∈ segments, '/' ∉ segment) :
    Text.splitOn '/' (Text.joinWith ['/'] segments) =
      if segments = [] then [[]] else segments := by
  split
  · rename_i hnil
    subst hnil
    rfl
  · rename_i hne
    rw [Text.splitOn_eq]
    exact List.splitOn_intercalate '/' h hne

theorem splitOn_slash_cons (s : Text) : Text.splitOn '/' ('/' :: s) = [] :: Text.splitOn '/' s := rfl

theorem head?_joinWith {segments : List Text}
    (h : ∀ segment ∈ segments, isProper segment = true ∧ '/' ∉ segment) :
    (Text.joinWith ['/'] segments).head? ≠ some '/' := by
  cases segments with
  | nil => exact nofun
  | cons segment rest =>
    obtain ⟨⟨hproper, hslash⟩, -⟩ := List.forall_mem_cons.1 h
    cases segment with
    | nil => exact absurd hproper (by decide)
    | cons c r =>
      have hhead : (Text.joinWith ['/'] ((c :: r) :: rest)).head? = some c := by
        cases rest <;> rfl
      rw [hhead]
      rintro ⟨⟩
      exact hslash List.mem_cons_self

/-- A path with an anchor is read back from what is written of it. -/
theorem ofText_toText {p : Path} (hanchor : p.anchor ≠ .relative) (hwell : p.WellFormed) :
    ofText p.toText = p := by
  obtain ⟨anchor, segments⟩ := p
  have hslashes : (Text.joinWith ['/'] segments).takeWhile (· = '/') = [] := by
    cases htext : Text.joinWith ['/'] segments with
    | nil => rfl
    | cons c r =>
      refine List.takeWhile_cons_of_neg fun hc => head?_joinWith hwell ?_
      rw [htext, of_decide_eq_true hc]
      rfl
  have hproper : (Text.splitOn '/' (Text.joinWith ['/'] segments)).filter isProper = segments := by
    rw [splitOn_joinWith fun segment hsegment => (hwell segment hsegment).2]
    split
    · rename_i hnil
      exact hnil.symm
    · exact List.filter_eq_self.2 fun segment hsegment => (hwell segment hsegment).1
  rw [toText_of_anchored hanchor]
  cases anchor with
  | relative => exact absurd rfl hanchor
  | root =>
    unfold ofText
    simp [Anchor.toText, Anchor.ofSlashes, splitOn_slash_cons, hslashes, hproper, isProper]
  | doubleRoot =>
    unfold ofText
    simp [Anchor.toText, Anchor.ofSlashes, splitOn_slash_cons, hslashes, hproper, isProper]

/-- The pieces between the slashes of a path with an anchor are its segments, and empty ones. -/
theorem mem_splitOn_toText {p : Path} (hanchor : p.anchor ≠ .relative) (hwell : p.WellFormed)
    {piece : Text} (h : piece ∈ Text.splitOn '/' p.toText) : piece = [] ∨ piece ∈ p.segments := by
  obtain ⟨anchor, segments⟩ := p
  have hlast (h : piece ∈ Text.splitOn '/' (Text.joinWith ['/'] segments)) :
      piece = [] ∨ piece ∈ segments := by
    rw [splitOn_joinWith fun segment hsegment => (hwell segment hsegment).2] at h
    split at h
    · exact .inl (List.mem_singleton.1 h)
    · exact .inr h
  rw [toText_of_anchored hanchor] at h
  cases anchor with
  | relative => exact absurd rfl hanchor
  | root => exact (List.mem_cons.1 h).elim .inl hlast
  | doubleRoot =>
    rcases List.mem_cons.1 h with hnil | h
    · exact .inl hnil
    · exact (List.mem_cons.1 h).elim .inl hlast

/-- Every segment of a path with an anchor is among these pieces. -/
theorem mem_splitOn_of_mem {p : Path} (hanchor : p.anchor ≠ .relative) (hwell : p.WellFormed)
    {segment : Text} (h : segment ∈ p.segments) : segment ∈ Text.splitOn '/' p.toText := by
  have hread : segment ∈ (ofText p.toText).segments := by
    rw [ofText_toText hanchor hwell]
    exact h
  exact (List.mem_filter.1 hread).1

theorem head?_toText {p : Path} (hanchor : p.anchor ≠ .relative) : p.toText.head? = some '/' := by
  rw [toText_of_anchored hanchor]
  obtain ⟨anchor, segments⟩ := p
  cases anchor with
  | relative => exact absurd rfl hanchor
  | root => rfl
  | doubleRoot => rfl

end Path

end PageSplice
