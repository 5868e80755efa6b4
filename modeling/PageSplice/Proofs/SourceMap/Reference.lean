-- SUMMARY: Source-map references: where in code they stand, and what attaching one does.
import Mathlib.Logic.ExistsUnique
import PageSplice.Proofs.Text
import PageSplice.SourceMap.Reference

/-!
# References

A reference is a comment that begins a line. Here it is said where in code one
stands, and code refers to a map when one stands somewhere. Attaching a map to
code without a reference makes one, and no other: what is in front ends in a line
end and does not become part of a comment, and the comment itself is one line.
-/

namespace PageSplice

-- ---------------------------------------------------------------------------
-- Comments
-- ---------------------------------------------------------------------------

theorem Base64.digit_mem_alphabet (n : Nat) : digit n ∈ alphabet := by
  unfold digit
  rw [List.getD_eq_getElem?_getD]
  cases h : alphabet[n]? with
  | none => decide
  | some c => exact List.mem_of_getElem? h

theorem Base64.not_mem_encode {c : Char} (hdigits : c ∉ alphabet) (hpad : c ≠ '=')
    (bytes : Bytes) : c ∉ encode bytes := by
  have hdigit (n : Nat) : c ≠ digit n := fun h => hdigits (h ▸ digit_mem_alphabet n)
  fun_induction encode bytes with
  | case1 => exact List.not_mem_nil
  | case2 => simp [hdigit, hpad]
  | case3 => simp [hdigit, hpad]
  | case4 a b c r ih => simp [hdigit, ih]

namespace SourceMap

/-- What stands behind the opener of a comment that holds a map. -/
theorem comment_eq (style : CommentStyle) (map : SourceMap) :
    ∃ opener close, (opener = '/' ∨ opener = '*') ∧ (close = [] ∨ close = " */".toList) ∧
      comment style map =
        '/' :: opener :: '#' :: ' ' :: (referenceKey ++ (dataUrl map ++ close)) := by
  cases style with
  | script => exact ⟨'/', [], .inl rfl, .inl rfl, by rw [List.append_nil]; rfl⟩
  | css => exact ⟨'*', " */".toList, .inr rfl, .inr rfl, rfl⟩

theorem not_mem_dataUrl {c : Char} (hdigits : c ∉ Base64.alphabet)
    (hscheme : c ∉ "data:application/json;charset=utf-8;base64,=".toList) (map : SourceMap) :
    c ∉ dataUrl map := by
  have hsplit : "data:application/json;charset=utf-8;base64,=".toList =
      "data:application/json;charset=utf-8;base64,".toList ++ ['='] := rfl
  rw [hsplit, List.mem_append, not_or, List.mem_singleton] at hscheme
  unfold dataUrl
  exact fun hmem => (List.mem_append.1 hmem).elim hscheme.1
    (Base64.not_mem_encode hdigits hscheme.2 _)

/-- A comment that holds a map is one line. -/
theorem newline_not_mem_comment (style : CommentStyle) (map : SourceMap) :
    '\n' ∉ comment style map := by
  obtain ⟨opener, close, hopener, hclose, heq⟩ := comment_eq style map
  have hurl : '\n' ∉ dataUrl map := not_mem_dataUrl (by decide) (by decide) map
  have hkey : '\n' ∉ referenceKey := by decide
  rcases hopener with rfl | rfl <;> rcases hclose with rfl | rfl <;>
    simp [heq, hurl, hkey]

-- ---------------------------------------------------------------------------
-- Where references stand
-- ---------------------------------------------------------------------------

/-- Whether `s` begins with a reference comment. Blanks, and line ends among them, may stand around
the mark. -/
def IsReference (s : Text) : Prop :=
  ∃ opener gap mark gap' back,
    s = '/' :: opener :: (gap ++ mark :: (gap' ++ (referenceKey ++ back))) ∧
    (opener = '/' ∨ opener = '*') ∧ (mark = '#' ∨ mark = '@') ∧
    (∀ c ∈ gap, Text.isBlank c = true) ∧ ∀ c ∈ gap', Text.isBlank c = true

/-- Whether what comes behind `front` begins a line. -/
def EndsLine (front : Text) : Prop := front = [] ∨ ∃ r, front = r ++ ['\n']

/-- Whether a reference comment stands at position `i` of `s`, where nothing but blanks is in front of
it on its line. -/
structure RefersAt (s : Text) (i : Nat) : Prop where
  beginsLine : ∃ front blanks, s.take i = front ++ blanks ∧ EndsLine front ∧
    ∀ c ∈ blanks, Text.isBlank c = true
  isReference : IsReference (s.drop i)

theorem startsReference_iff (s : Text) : startsReference s = true ↔
    ∃ blanks rest, s = blanks ++ rest ∧ (∀ c ∈ blanks, Text.isBlank c = true) ∧
      IsReference rest := by
  constructor
  · intro h
    refine ⟨s.takeWhile Text.isBlank, s.dropWhile Text.isBlank, List.takeWhile_append_dropWhile.symm,
      of_mem_takeWhile, ?_⟩
    unfold startsReference at h
    split at h
    · rename_i opener r hopener
      split at h
      · rename_i mark t hmark
        simp only [Bool.and_eq_true, Bool.or_eq_true, decide_eq_true_eq] at h
        obtain ⟨hopeners, hmarks, hkey⟩ := h
        obtain ⟨back, hback⟩ := List.isPrefixOf_iff_prefix.1 hkey
        refine ⟨opener, r.takeWhile Text.isBlank, mark, t.takeWhile Text.isBlank, back, ?_, hopeners,
          hmarks, of_mem_takeWhile, of_mem_takeWhile⟩
        rw [hopener, hback, List.takeWhile_append_dropWhile, ← hmark,
          List.takeWhile_append_dropWhile]
      · rw [Bool.and_false] at h
        cases h
    · cases h
  · rintro ⟨blanks, rest, rfl, hblanks, opener, gap, mark, gap', back, rfl, hopener, hmark, hgap,
      hgap'⟩
    have hmark' : Text.isBlank mark = false := by rcases hmark with rfl | rfl <;> decide
    have hkey : (gap' ++ (referenceKey ++ back)).dropWhile Text.isBlank = referenceKey ++ back :=
      dropWhile_run hgap' (by decide) _
    unfold startsReference
    rw [dropWhile_run hblanks (by decide)]
    simp only [dropWhile_run hgap hmark', hkey, Bool.and_eq_true, Bool.or_eq_true,
      decide_eq_true_eq]
    exact ⟨hopener, hmark, List.isPrefixOf_iff_prefix.2 (List.prefix_append _ _)⟩

theorem referenceAfterLineEnd_iff (s : Text) : referenceAfterLineEnd s = true ↔
    ∃ front rest, s = front ++ '\n' :: rest ∧ startsReference rest = true := by
  induction s with
  | nil =>
    constructor
    · nofun
    · rintro ⟨front, rest, heq, -⟩
      cases front <;> cases heq
  | cons c r ih =>
    rw [referenceAfterLineEnd, Bool.or_eq_true, Bool.and_eq_true, decide_eq_true_iff, ih]
    constructor
    · rintro (⟨rfl, h⟩ | ⟨front, rest, rfl, h⟩)
      · exact ⟨[], r, rfl, h⟩
      · exact ⟨c :: front, rest, rfl, h⟩
    · rintro ⟨front, rest, heq, h⟩
      cases front with
      | nil =>
        obtain ⟨rfl, rfl⟩ := List.cons.inj heq
        exact .inl ⟨rfl, h⟩
      | cons c' front =>
        obtain ⟨rfl, rfl⟩ := List.cons.inj heq
        exact .inr ⟨front, rest, rfl, h⟩

/-- Code refers to a map when a reference stands somewhere in it. -/
theorem hasReference_iff (code : Text) : hasReference code = true ↔ ∃ i, RefersAt code i := by
  have hline : hasReference code = true ↔
      ∃ front rest, code = front ++ rest ∧ EndsLine front ∧ startsReference rest = true := by
    rw [hasReference, Bool.or_eq_true, referenceAfterLineEnd_iff]
    constructor
    · rintro (h | ⟨front, rest, rfl, h⟩)
      · exact ⟨[], code, rfl, .inl rfl, h⟩
      · exact ⟨front ++ ['\n'], rest, by simp, .inr ⟨front, rfl⟩, h⟩
    · rintro ⟨front, rest, rfl, rfl | ⟨r, rfl⟩, h⟩
      · exact .inl h
      · exact .inr ⟨r, rest, by simp, h⟩
  rw [hline]
  constructor
  · rintro ⟨front, rest, rfl, hfront, h⟩
    obtain ⟨blanks, rest, rfl, hblanks, h⟩ := (startsReference_iff rest).1 h
    refine ⟨(front ++ blanks).length, ⟨front, blanks, ?_, hfront, hblanks⟩, ?_⟩
    · rw [← List.append_assoc, List.take_left]
    · rw [← List.append_assoc, List.drop_left]
      exact h
  · rintro ⟨i, ⟨front, blanks, htake, hfront, hblanks⟩, h⟩
    refine ⟨front, blanks ++ code.drop i, ?_, hfront,
      (startsReference_iff _).2 ⟨blanks, _, rfl, hblanks, h⟩⟩
    rw [← List.append_assoc, ← htake, List.take_append_drop]

theorem IsReference.append {s : Text} (h : IsReference s) (t : Text) : IsReference (s ++ t) := by
  obtain ⟨opener, gap, mark, gap', back, rfl, hrest⟩ := h
  exact ⟨opener, gap, mark, gap', back ++ t, by simp, hrest⟩

theorem RefersAt.lt_length {s : Text} {i : Nat} (h : RefersAt s i) : i < s.length := by
  refine Nat.lt_of_not_le fun hle => ?_
  obtain ⟨_, _, _, _, _, heq, -⟩ := h.isReference
  rw [List.drop_eq_nil_of_le hle] at heq
  cases heq

theorem RefersAt.append {s : Text} {i : Nat} (h : RefersAt s i) (t : Text) :
    RefersAt (s ++ t) i := by
  have hi : i ≤ s.length := Nat.le_of_lt h.lt_length
  constructor
  · rw [List.take_append_of_le_length hi]
    exact h.beginsLine
  · rw [List.drop_append_of_le_length hi]
    exact h.isReference.append t

/-- A comment that begins in front of a line end does not go on with a slash on the next line. -/
theorem IsReference.of_append_line {front back : Text}
    (h : IsReference (front ++ '\n' :: '/' :: back)) : IsReference front := by
  obtain ⟨opener, gap, mark, gap', rest, heq, hopener, hmark, hgap, hgap'⟩ := h
  have hbody : ∃ body, gap ++ mark :: (gap' ++ referenceKey) = body ++ ['='] := by
    refine ⟨gap ++ mark :: (gap' ++ "sourceMappingURL".toList), ?_⟩
    rw [List.append_assoc, List.cons_append, List.append_assoc]
    rfl
  have hslash : '/' ∉ gap ++ mark :: (gap' ++ referenceKey) := by
    have hnot {blanks : Text} (hblanks : ∀ c ∈ blanks, Text.isBlank c = true) : '/' ∉ blanks :=
      fun hmem => by cases hblanks '/' hmem
    have hkey : '/' ∉ referenceKey := by decide
    rcases hmark with rfl | rfl <;> simp [hnot hgap, hnot hgap', hkey]
  have hhead (r : Text) : gap ++ mark :: (gap' ++ (referenceKey ++ r)) =
      (gap ++ mark :: (gap' ++ referenceKey)) ++ r := by simp
  rw [hhead] at heq
  generalize hhead' : gap ++ mark :: (gap' ++ referenceKey) = head at heq hbody hslash
  obtain ⟨body, rfl⟩ := hbody
  rcases front with _ | ⟨a, _ | ⟨b, r⟩⟩
  · cases heq
  · obtain ⟨-, heq⟩ := List.cons.inj heq
    obtain ⟨rfl, -⟩ := List.cons.inj heq
    rcases hopener with heq | heq <;> cases heq
  · simp only [List.cons_append, List.cons.injEq] at heq
    obtain ⟨rfl, rfl, heq⟩ := heq
    -- The head ends in front of the line end: it has no slash, and its last character is `=`.
    have hfront : ∃ more, r = (body ++ ['=']) ++ more := by
      rcases List.append_eq_append_iff.1 heq with ⟨x, hx, hmore⟩ | ⟨x, hx, -⟩
      · rcases x with _ | ⟨c, _ | ⟨c', x⟩⟩
        · exact ⟨[], by rw [hx, List.append_nil, List.append_nil]⟩
        · obtain ⟨rfl, -⟩ := List.cons.inj hmore
          obtain ⟨-, heq⟩ := List.append_inj' hx rfl
          cases heq
        · obtain ⟨-, hmore⟩ := List.cons.inj hmore
          obtain ⟨rfl, -⟩ := List.cons.inj hmore
          exact absurd (hx ▸ List.mem_append_right r (by simp)) hslash
      · exact ⟨x, hx⟩
    obtain ⟨more, rfl⟩ := hfront
    exact ⟨b, gap, mark, gap', more, by rw [hhead, hhead'], hopener, hmark, hgap, hgap'⟩

-- ---------------------------------------------------------------------------
-- Attached maps
-- ---------------------------------------------------------------------------

/-- Code has a reference to a map, or it gets one in a comment behind a line end. -/
theorem attach_cases (style : CommentStyle) (map : SourceMap) (code : Text) :
    attach style map code = code ∧ hasReference code = true ∨
    ∃ front, (code = front ∨ code = front ++ ['\n']) ∧
      attach style map code = front ++ '\n' :: (comment style map ++ ['\n']) := by
  unfold attach
  split
  · rename_i href
    exact .inl ⟨rfl, href⟩
  · refine .inr ?_
    cases hend : Text.endsWith code ['\n'] with
    | true =>
      obtain ⟨front, rfl⟩ := List.isSuffixOf_iff_suffix.1 hend
      exact ⟨front, .inr rfl, by simp⟩
    | false => exact ⟨code, .inl rfl, by simp⟩

theorem startsReference_comment (style : CommentStyle) (map : SourceMap) (back : Text) :
    startsReference (comment style map ++ back) = true := by
  cases style <;> rfl

theorem hasReference_attach (style : CommentStyle) (map : SourceMap) (code : Text) :
    hasReference (attach style map code) = true := by
  obtain ⟨hsame, href⟩ | ⟨front, -, heq⟩ := attach_cases style map code
  · rw [hsame, href]
  · rw [heq, hasReference, Bool.or_eq_true, referenceAfterLineEnd_iff]
    exact .inr ⟨front, _, rfl, startsReference_comment style map _⟩

/-- To code that refers to a map nothing is attached, not even a map that cannot be printed. -/
theorem printAttached_of_hasReference {code : Text} (h : hasReference code = true)
    (style : CommentStyle) (map : SourceMap) : printAttached style map code = .ok code :=
  if_pos h

theorem eq_attach_of_printAttached {style : CommentStyle} {map : SourceMap} {code body : Text}
    (h : printAttached style map code = .ok body) : body = attach style map code := by
  unfold printAttached Json.Value.check at h
  split at h
  · rename_i href
    cases h
    exact (if_pos href).symm
  · split at h <;> cases h
    rfl

theorem printAttached_printAttached {style : CommentStyle} {map : SourceMap} {code body : Text}
    (h : printAttached style map code = .ok body) (style' : CommentStyle) (map' : SourceMap) :
    printAttached style' map' body = .ok body := by
  rw [eq_attach_of_printAttached h]
  exact printAttached_of_hasReference (hasReference_attach style map code) style' map'

theorem isReference_comment (style : CommentStyle) (map : SourceMap) (back : Text) :
    IsReference (comment style map ++ back) := by
  obtain ⟨opener, close, hopener, -, heq⟩ := comment_eq style map
  refine ⟨opener, [], '#', [' '], dataUrl map ++ close ++ back, ?_, hopener, .inl rfl, nofun, ?_⟩
  · simp [heq]
  · exact List.forall_mem_singleton.2 rfl

/-- Behind a character of a line that is no blank, no reference begins on this line. -/
theorem not_refersAt_inside {s front line : Text} {c : Char} {i : Nat}
    (htake : s.take i = front ++ c :: line) (hc : Text.isBlank c = false)
    (hline : '\n' ∉ c :: line) : ¬ RefersAt s i := by
  rintro ⟨⟨start, blanks, hstart, hends, hblanks⟩, -⟩
  have hnot : c ∉ blanks := fun hmem => by cases hc.symm.trans (hblanks c hmem)
  obtain ⟨x, rfl, hx⟩ : ∃ x, start = front ++ x ∧ c :: line = x ++ blanks := by
    rcases List.append_eq_append_iff.1 (hstart.symm.trans htake) with ⟨x, -, hx⟩ | ⟨x, rfl, hx⟩
    · exact absurd (hx ▸ List.mem_append_right x List.mem_cons_self) hnot
    · exact ⟨x, rfl, hx⟩
  -- The line would have to begin behind `c`, but there is no line end.
  rcases List.eq_nil_or_concat x with rfl | ⟨x, d, rfl⟩
  · rw [List.nil_append] at hx
    exact hnot (hx ▸ List.mem_cons_self)
  · rcases hends with hnil | ⟨r, heq⟩
    · simp at hnil
    · rw [List.concat_eq_append, ← List.append_assoc] at heq
      obtain ⟨-, heq⟩ := List.append_inj' heq rfl
      cases heq
      exact hline (hx ▸ by simp)

/-- Code without a reference has exactly one once a map is attached. -/
theorem existsUnique_refersAt_attach (style : CommentStyle) (map : SourceMap) {code : Text}
    (h : hasReference code = false) : ∃! i, RefersAt (attach style map code) i := by
  obtain ⟨-, href⟩ | ⟨front, hcode, heq⟩ := attach_cases style map code
  · cases h.symm.trans href
  have hsplit : attach style map code = (front ++ ['\n']) ++ (comment style map ++ ['\n']) := by
    rw [heq, List.append_assoc]
    rfl
  obtain ⟨r, hcomment⟩ : ∃ r, comment style map = '/' :: r := by
    obtain ⟨opener, close, -, -, heq⟩ := comment_eq style map
    exact ⟨_, heq⟩
  refine ⟨(front ++ ['\n']).length, ?_, fun i hi => ?_⟩
  · rw [hsplit]
    refine ⟨⟨front ++ ['\n'], [], ?_, .inr ⟨front, rfl⟩, nofun⟩, ?_⟩
    · rw [List.take_left, List.append_nil]
    · rw [List.drop_left]
      exact isReference_comment style map _
  · rcases Nat.lt_trichotomy i (front ++ ['\n']).length with hlt | hat | hgt
    · exfalso
      have hle : i ≤ front.length := by
        rw [List.length_append] at hlt
        exact Nat.le_of_lt_succ hlt
      have hfront : RefersAt front i := by
        obtain ⟨hline, hreference⟩ := heq ▸ hi
        rw [List.take_append_of_le_length hle] at hline
        rw [List.drop_append_of_le_length hle, hcomment] at hreference
        exact ⟨hline, hreference.of_append_line⟩
      have href : hasReference code = true := by
        rw [hasReference_iff]
        rcases hcode with rfl | rfl
        · exact ⟨i, hfront⟩
        · exact ⟨i, hfront.append _⟩
      cases h.symm.trans href
    · exact hat
    · obtain ⟨k, rfl⟩ := Nat.exists_eq_add_of_lt hgt
      have hlength := hi.lt_length
      simp only [hsplit, List.length_append, List.length_singleton] at hlength
      have hk : k + 1 ≤ (comment style map).length := by omega
      have htake : (attach style map code).take ((front ++ ['\n']).length + k + 1) =
          (front ++ ['\n']) ++ '/' :: r.take k := by
        rw [hsplit, Nat.add_assoc, List.take_length_add_append, List.take_append_of_le_length hk,
          hcomment, List.take_succ_cons]
      refine absurd hi (not_refersAt_inside htake (by decide) fun hmem => ?_)
      refine newline_not_mem_comment style map (hcomment ▸ ?_)
      exact (List.mem_cons.1 hmem).elim (fun h => by cases h) fun hmem =>
        List.mem_cons_of_mem _ (List.mem_of_mem_take hmem)

end SourceMap

end PageSplice
