-- SUMMARY: The lines of code that references stand on, and references that spread over several lines.
import Mathlib.Data.List.TakeWhile
import PageSplice.Proofs.Path
import PageSplice.Proofs.SourceMap.Reference

/-!
# References and lines

A reference is meant to be a line of its own. It is looked for with blanks around
its mark, and line ends are blanks: a line that holds nothing but the opener of a
comment, and the mark at most, goes on with the lines behind it. Code without such
lines refers to a map exactly when one of its lines does. A line that opens no
comment never begins a reference, whatever else it mentions.
-/

namespace PageSplice.SourceMap

-- ---------------------------------------------------------------------------
-- Lines
-- ---------------------------------------------------------------------------

/-- Whether a line ends in front of `back`. -/
def StartsLineEnd (back : Text) : Prop := back = [] ∨ ∃ r, back = '\n' :: r

theorem exists_line_front (s : Text) :
    ∃ line back, s = line ++ back ∧ '\n' ∉ line ∧ StartsLineEnd back := by
  by_cases h : '\n' ∈ s
  · obtain ⟨line, back, rfl, hline⟩ := List.eq_append_cons_of_mem h
    exact ⟨line, '\n' :: back, rfl, hline, .inr ⟨back, rfl⟩⟩
  · exact ⟨s, [], (List.append_nil s).symm, h, .inl rfl⟩

theorem exists_line_back (s : Text) : ∃ front line, s = front ++ line ∧ EndsLine front ∧ '\n' ∉ line := by
  by_cases h : '\n' ∈ s
  · obtain ⟨front, line, rfl, hline⟩ := exists_append_last h
    exact ⟨front ++ ['\n'], line, by simp, .inr ⟨front, rfl⟩, hline⟩
  · exact ⟨[], s, rfl, .inl rfl, h⟩

theorem EndsLine.append {front s : Text} (hfront : EndsLine front) (hs : EndsLine s) :
    EndsLine (front ++ s) := by
  rcases hs with rfl | ⟨r, rfl⟩
  · rwa [List.append_nil]
  · exact .inr ⟨front ++ r, (List.append_assoc _ _ _).symm⟩

/-- The lines of a text are what stands between two line ends. -/
theorem mem_lines_iff {s line : Text} : line ∈ Text.splitOn '\n' s ↔
    ∃ front back, s = front ++ (line ++ back) ∧ EndsLine front ∧ '\n' ∉ line ∧
      StartsLineEnd back := by
  have hsplit (s t : Text) : Text.splitOn '\n' (s ++ '\n' :: t) =
      Text.splitOn '\n' s ++ Text.splitOn '\n' t := Text.splitBy_append_cons (by decide) s t
  constructor
  · intro h
    induction hn : s.length using Nat.strongRecOn generalizing s with
    | ind n ih =>
      by_cases hmem : '\n' ∈ s
      · obtain ⟨first, r, rfl, hfirst⟩ := List.eq_append_cons_of_mem hmem
        rw [hsplit, Text.splitOn_of_not_mem hfirst, List.singleton_append, List.mem_cons] at h
        rcases h with rfl | h
        · exact ⟨[], '\n' :: r, rfl, .inl rfl, hfirst, .inr ⟨r, rfl⟩⟩
        · rw [List.length_append, List.length_cons] at hn
          obtain ⟨front, back, rfl, hfront, hline, hback⟩ := ih r.length (by omega) h rfl
          refine ⟨first ++ ['\n'] ++ front, back, by simp, ?_, hline, hback⟩
          exact EndsLine.append (.inr ⟨first, rfl⟩) hfront
      · rw [Text.splitOn_of_not_mem hmem, List.mem_singleton] at h
        exact ⟨[], [], by simp [h], .inl rfl, h ▸ hmem, .inl rfl⟩
  · rintro ⟨front, back, rfl, hfront, hline, hback⟩
    have hfirst : line ∈ Text.splitOn '\n' (line ++ back) := by
      rcases hback with rfl | ⟨r, rfl⟩
      · rw [List.append_nil, Text.splitOn_of_not_mem hline]
        exact List.mem_singleton_self line
      · rw [hsplit, Text.splitOn_of_not_mem hline]
        exact List.mem_cons_self
    rcases hfront with rfl | ⟨r, rfl⟩
    · exact hfirst
    · rw [List.append_assoc, List.singleton_append, hsplit]
      exact List.mem_append_right _ hfirst

-- ---------------------------------------------------------------------------
-- Lines with comments
-- ---------------------------------------------------------------------------

/-- Whether a comment opens a line behind optional blanks, with `rest` behind its opener. -/
def Opens (line rest : Text) : Prop :=
  ∃ blanks opener, line = blanks ++ '/' :: opener :: rest ∧
    (∀ c ∈ blanks, Text.isBlank c = true) ∧ (opener = '/' ∨ opener = '*')

/-- Whether a line is a reference comment. -/
def IsReferenceLine (line : Text) : Prop :=
  ∃ gap mark gap' back, Opens line (gap ++ mark :: (gap' ++ (referenceKey ++ back))) ∧
    (mark = '#' ∨ mark = '@') ∧ (∀ c ∈ gap, Text.isBlank c = true) ∧
    ∀ c ∈ gap', Text.isBlank c = true

theorem isReferenceLine_iff (line : Text) :
    IsReferenceLine line ↔ startsReference line = true := by
  rw [startsReference_iff]
  constructor
  · rintro ⟨gap, mark, gap', back, ⟨blanks, opener, rfl, hblanks, hopener⟩, hmark, hgap, hgap'⟩
    exact ⟨blanks, _, rfl, hblanks, opener, gap, mark, gap', back, rfl, hopener, hmark, hgap, hgap'⟩
  · rintro ⟨blanks, _, rfl, hblanks, opener, gap, mark, gap', back, rfl, hopener, hmark, hgap, hgap'⟩
    exact ⟨gap, mark, gap', back, ⟨blanks, opener, rfl, hblanks, hopener⟩, hmark, hgap, hgap'⟩

/-- Whether some line of a text is a reference comment. -/
def HasReferenceLine (s : Text) : Prop := ∃ line ∈ Text.splitOn '\n' s, IsReferenceLine line

instance (line : Text) : Decidable (IsReferenceLine line) :=
  decidable_of_iff _ (isReferenceLine_iff line).symm

def opensComment (line : Text) : Bool :=
  match line.dropWhile Text.isBlank with
  | '/' :: opener :: _ => opener = '/' || opener = '*'
  | _ => false

/-- Whether a line holds the opener of a comment and a mark at most, apart from blanks. -/
def isBareOpener (line : Text) : Bool :=
  match line.dropWhile Text.isBlank with
  | '/' :: opener :: rest =>
    (opener = '/' || opener = '*') &&
    match rest.dropWhile Text.isBlank with
    | mark :: gap => (mark = '#' || mark = '@') && gap.all Text.isBlank
    | [] => true
  | _ => false

theorem Opens.opensComment {line rest : Text} (h : Opens line rest) : opensComment line = true := by
  obtain ⟨blanks, opener, rfl, hblanks, hopener⟩ := h
  rw [SourceMap.opensComment, dropWhile_run hblanks (by decide)]
  rcases hopener with rfl | rfl <;> rfl

theorem isBareOpener_of_blanks {line gap : Text} (h : Opens line gap)
    (hgap : ∀ c ∈ gap, Text.isBlank c = true) : isBareOpener line = true := by
  obtain ⟨blanks, opener, rfl, hblanks, hopener⟩ := h
  have hdrop : gap.dropWhile Text.isBlank = [] := List.dropWhile_eq_nil_iff.2 hgap
  rw [isBareOpener, dropWhile_run hblanks (by decide)]
  simp only [hdrop]
  rcases hopener with rfl | rfl <;> rfl

theorem isBareOpener_of_mark {line gap gap' : Text} {mark : Char}
    (h : Opens line (gap ++ mark :: gap')) (hmark : mark = '#' ∨ mark = '@')
    (hgap : ∀ c ∈ gap, Text.isBlank c = true) (hgap' : ∀ c ∈ gap', Text.isBlank c = true) :
    isBareOpener line = true := by
  obtain ⟨blanks, opener, rfl, hblanks, hopener⟩ := h
  have hmark' : Text.isBlank mark = false := by rcases hmark with rfl | rfl <;> decide
  rw [isBareOpener, dropWhile_run hblanks (by decide)]
  simp only [dropWhile_run hgap hmark', Bool.and_eq_true, Bool.or_eq_true, decide_eq_true_eq]
  exact ⟨hopener, hmark, List.all_eq_true.2 hgap'⟩

-- ---------------------------------------------------------------------------
-- References on lines
-- ---------------------------------------------------------------------------

/-- Whether a reference comment at position `i` of `s` goes on behind a line end: blanks around its
mark hold one. -/
structure SpreadsAt (s : Text) (i : Nat) : Prop where
  refersAt : RefersAt s i
  spreads : ∃ opener gap mark gap' back,
    s.drop i = '/' :: opener :: (gap ++ mark :: (gap' ++ (referenceKey ++ back))) ∧
    (opener = '/' ∨ opener = '*') ∧ (mark = '#' ∨ mark = '@') ∧
    (∀ c ∈ gap, Text.isBlank c = true) ∧ (∀ c ∈ gap', Text.isBlank c = true) ∧
    ('\n' ∈ gap ∨ '\n' ∈ gap')

/-- What follows the opener of a comment up to a line end is the rest of a line. -/
theorem exists_opens {s front blanks body back : Text} {opener : Char}
    (hs : s = front ++ (blanks ++ '/' :: opener :: (body ++ back))) (hfront : EndsLine front)
    (hblanks : ∀ c ∈ blanks, Text.isBlank c = true) (hopener : opener = '/' ∨ opener = '*')
    (hbody : '\n' ∉ body) (hback : StartsLineEnd back) :
    ∃ line ∈ Text.splitOn '\n' s, Opens line body := by
  obtain ⟨before, indent, rfl, hbefore, hindent⟩ := exists_line_back blanks
  refine ⟨indent ++ '/' :: opener :: body, mem_lines_iff.2 ⟨front ++ before, back, ?_, ?_, ?_, hback⟩,
    indent, opener, rfl, fun c hc => hblanks c (List.mem_append_right before hc), hopener⟩
  · simp [hs]
  · exact hfront.append hbefore
  · rcases hopener with rfl | rfl <;> simp [hindent, hbody]

theorem RefersAt.exists_eq {s : Text} {i : Nat} (h : RefersAt s i) :
    ∃ front blanks, s = front ++ (blanks ++ s.drop i) ∧ EndsLine front ∧
      ∀ c ∈ blanks, Text.isBlank c = true := by
  obtain ⟨front, blanks, htake, hfront, hblanks⟩ := h.beginsLine
  refine ⟨front, blanks, ?_, hfront, hblanks⟩
  rw [← List.append_assoc, ← htake, List.take_append_drop]

/-- Code with a reference line refers to a map. -/
theorem hasReference_of_line {code line : Text} (hmem : line ∈ Text.splitOn '\n' code)
    (h : IsReferenceLine line) : hasReference code = true := by
  obtain ⟨front, back, rfl, hfront, -, -⟩ := mem_lines_iff.1 hmem
  obtain ⟨blanks, rest, rfl, hblanks, href⟩ := (startsReference_iff line).1
    ((isReferenceLine_iff line).1 h)
  have hsplit : front ++ (blanks ++ rest ++ back) = (front ++ blanks) ++ (rest ++ back) := by simp
  refine (hasReference_iff _).2 ⟨(front ++ blanks).length, ⟨front, blanks, ?_, hfront, hblanks⟩, ?_⟩
  · rw [hsplit, List.take_left]
  · rw [hsplit, List.drop_left]
    exact href.append back

/-- A reference stands on one line, or it goes on behind a line end. -/
theorem RefersAt.line_or_spreadsAt {code : Text} {i : Nat} (h : RefersAt code i) :
    (∃ line ∈ Text.splitOn '\n' code, IsReferenceLine line) ∨ SpreadsAt code i := by
  obtain ⟨front, blanks, hcode, hfront, hblanks⟩ := h.exists_eq
  obtain ⟨opener, gap, mark, gap', back, heq, hopener, hmark, hgap, hgap'⟩ := h.isReference
  by_cases hspread : '\n' ∈ gap ∨ '\n' ∈ gap'
  · exact .inr ⟨h, opener, gap, mark, gap', back, heq, hopener, hmark, hgap, hgap', hspread⟩
  · obtain ⟨hline, hline'⟩ := not_or.1 hspread
    obtain ⟨more, back, rfl, hmore, hback⟩ := exists_line_front back
    have hbody : '\n' ∉ gap ++ mark :: (gap' ++ (referenceKey ++ more)) := by
      have hkey : '\n' ∉ referenceKey := by decide
      rcases hmark with rfl | rfl <;> simp [hline, hline', hkey, hmore]
    have hrest : code = front ++ (blanks ++ '/' :: opener ::
        ((gap ++ mark :: (gap' ++ (referenceKey ++ more))) ++ back)) := by
      rw [hcode, heq]
      simp
    obtain ⟨line, hmem, hopens⟩ := exists_opens hrest hfront hblanks hopener hbody hback
    exact .inl ⟨line, hmem, gap, mark, gap', more, hopens, hmark, hgap, hgap'⟩

/-- The first line of a reference that goes on behind a line end is a bare opener. -/
theorem SpreadsAt.exists_bareOpener {code : Text} {i : Nat} (h : SpreadsAt code i) :
    ∃ line ∈ Text.splitOn '\n' code, ∃ rest, Opens line rest ∧ isBareOpener line = true := by
  obtain ⟨front, blanks, hcode, hfront, hblanks⟩ := h.refersAt.exists_eq
  obtain ⟨opener, gap, mark, gap', back, heq, hopener, hmark, hgap, hgap', hspread⟩ := h.spreads
  by_cases hline : '\n' ∈ gap
  · obtain ⟨first, more, rfl, hfirst⟩ := List.eq_append_cons_of_mem hline
    have hrest : code = front ++ (blanks ++ '/' :: opener :: (first ++
        '\n' :: (more ++ mark :: (gap' ++ (referenceKey ++ back))))) := by
      rw [hcode, heq]
      simp
    obtain ⟨line, hmem, hopens⟩ :=
      exists_opens hrest hfront hblanks hopener hfirst (.inr ⟨_, rfl⟩)
    exact ⟨line, hmem, first, hopens,
      isBareOpener_of_blanks hopens fun c hc => hgap c (List.mem_append_left _ hc)⟩
  · obtain ⟨first, more, rfl, hfirst⟩ := List.eq_append_cons_of_mem (hspread.resolve_left hline)
    have hrest : code = front ++ (blanks ++ '/' :: opener :: ((gap ++ mark :: first) ++
        '\n' :: (more ++ (referenceKey ++ back)))) := by
      rw [hcode, heq]
      simp
    have hbody : '\n' ∉ gap ++ mark :: first := by
      rcases hmark with rfl | rfl <;> simp [hline, hfirst]
    obtain ⟨line, hmem, hopens⟩ :=
      exists_opens hrest hfront hblanks hopener hbody (.inr ⟨_, rfl⟩)
    exact ⟨line, hmem, _, hopens,
      isBareOpener_of_mark hopens hmark hgap fun c hc => hgap' c (List.mem_append_left _ hc)⟩

/-- Code without a bare opener has no reference that spreads over lines. -/
theorem not_spreadsAt {code : Text}
    (h : ∀ line ∈ Text.splitOn '\n' code, isBareOpener line = false) (i : Nat) :
    ¬ SpreadsAt code i := by
  intro hi
  obtain ⟨line, hmem, -, -, hline⟩ := hi.exists_bareOpener
  cases hline.symm.trans (h line hmem)

theorem hasReference_iff_line_or_spreadsAt (code : Text) :
    hasReference code = true ↔ HasReferenceLine code ∨ ∃ i, SpreadsAt code i := by
  constructor
  · intro h
    obtain ⟨i, hi⟩ := (hasReference_iff code).1 h
    exact hi.line_or_spreadsAt.imp_right fun hspreads => ⟨i, hspreads⟩
  · rintro (⟨line, hmem, hline⟩ | ⟨i, hi⟩)
    · exact hasReference_of_line hmem hline
    · exact (hasReference_iff code).2 ⟨i, hi.refersAt⟩

/-- Code refers to a map when one of its lines is a reference, or when a reference spreads over lines.
The second needs a line that is a bare opener, and both need a line that opens a comment. -/
theorem hasReference_lines (code : Text) :
    (hasReference code = true ↔
      (∃ line ∈ Text.splitOn '\n' code, IsReferenceLine line) ∨ ∃ i, SpreadsAt code i) ∧
    ((∀ line ∈ Text.splitOn '\n' code, isBareOpener line = false) →
      (hasReference code = true ↔ ∃ line ∈ Text.splitOn '\n' code, IsReferenceLine line)) ∧
    ((∀ line ∈ Text.splitOn '\n' code, opensComment line = false) → hasReference code = false) := by
  have hexact := hasReference_iff_line_or_spreadsAt code
  refine ⟨hexact, fun hbare => ?_, fun hopens => ?_⟩
  · exact hexact.trans (or_iff_left fun ⟨i, hi⟩ => not_spreadsAt hbare i hi)
  · refine Bool.eq_false_iff.2 fun h => ?_
    rcases hexact.1 h with ⟨line, hmem, _, _, _, _, hline, -⟩ | ⟨i, hi⟩
    · cases hline.opensComment.symm.trans (hopens line hmem)
    · obtain ⟨line, hmem, _, hline, -⟩ := hi.exists_bareOpener
      cases hline.opensComment.symm.trans (hopens line hmem)

/-- A mention in a string and a reference on a line of its own. -/
theorem hasReference_lines_mention :
    let mention := "let s = '//# sourceMappingURL=a.map';".toList
    let code := mention ++ "\n\t/*@ sourceMappingURL=b.map */".toList
    hasReference mention = false ∧ (∀ line ∈ Text.splitOn '\n' code, isBareOpener line = false) ∧
      hasReference code = true := by
  intro mention code
  have hnone : ∀ line ∈ Text.splitOn '\n' mention, opensComment line = false := by decide +kernel
  have hbare : ∀ line ∈ Text.splitOn '\n' code, isBareOpener line = false := by decide +kernel
  have hline : ∃ line ∈ Text.splitOn '\n' code, IsReferenceLine line := by decide +kernel
  exact ⟨(hasReference_lines mention).2.2 hnone, hbare, ((hasReference_lines code).2.1 hbare).2 hline⟩

-- None of two lines is a reference, and they are taken for one.
example : (∀ line ∈ Text.splitOn '\n' "//\n# sourceMappingURL=x".toList, ¬ IsReferenceLine line) ∧
    hasReference "//\n# sourceMappingURL=x".toList = true := by decide +kernel

end PageSplice.SourceMap
