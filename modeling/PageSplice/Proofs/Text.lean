-- SUMMARY: Texts as lists of characters: runs of one kind, what a tag behind them changes, and kinds.
import PageSplice.Text.Basic
import PageSplice.Text.Blank

/-!
# Runs and kinds of characters

Scanners take runs of characters of one kind. A run that ends within a text is
the same whatever comes behind, and one that no tag belongs to ends in front of
a tag at the latest.
-/

namespace PageSplice

-- ---------------------------------------------------------------------------
-- Runs
-- ---------------------------------------------------------------------------

theorem of_mem_takeWhile {p : Char → Bool} {s : Text} : ∀ c ∈ s.takeWhile p, p c = true :=
  List.all_eq_true.1 List.all_takeWhile

/-- A run of characters and the first one behind it. -/
theorem dropWhile_run {p : Char → Bool} {s : Text} (hs : ∀ c ∈ s, p c = true) {c : Char}
    (hc : p c = false) (r : Text) : (s ++ c :: r).dropWhile p = c :: r := by
  rw [List.dropWhile_append_of_pos hs, List.dropWhile_cons_of_neg (by simp [hc])]

theorem takeWhile_run {p : Char → Bool} {s : Text} (hs : ∀ c ∈ s, p c = true) {c : Char}
    (hc : p c = false) (r : Text) : (s ++ c :: r).takeWhile p = s := by
  rw [List.takeWhile_append_of_pos hs, List.takeWhile_cons_of_neg (by simp [hc]), List.append_nil]

theorem dropWhile_append_of_ne_nil {p : Char → Bool} {s : Text} (h : s.dropWhile p ≠ []) (t : Text) :
    (s ++ t).dropWhile p = s.dropWhile p ++ t := by
  rw [List.dropWhile_append, if_neg (by simpa using h)]

theorem takeWhile_append_of_ne_nil {p : Char → Bool} {s : Text} (h : s.dropWhile p ≠ []) (t : Text) :
    (s ++ t).takeWhile p = s.takeWhile p := by
  induction s with
  | nil => exact absurd rfl h
  | cons c r ih =>
    rw [List.cons_append, List.takeWhile_cons, List.takeWhile_cons]
    cases hc : p c with
    | false => rfl
    | true =>
      rw [List.dropWhile_cons_of_pos hc] at h
      simp only [if_true, ih h]

theorem dropWhile_append_of_eq_nil {p : Char → Bool} {s : Text} (h : s.dropWhile p = []) (t : Text) :
    (s ++ t).dropWhile p = t.dropWhile p := by
  rw [List.dropWhile_append, if_pos (by simpa using h)]

theorem dropWhile_of_after? {c : Char} {s rest : Text} (h : Text.after? c s = some rest) :
    s.dropWhile (· ≠ c) = c :: rest := by
  unfold Text.after? at h
  split at h
  · cases h
  · rename_i d r hd
    cases h
    have hstop := List.head?_dropWhile_not (fun x => decide (x ≠ c)) s
    rw [hd] at hstop
    have hc : d = c := by simpa using hstop
    rw [hd, hc]

theorem upTo_append_append (s rest t : Text) :
    Text.upTo (s ++ t) (rest ++ t) = Text.upTo s rest := by
  unfold Text.upTo
  rw [List.length_append, List.length_append, Nat.add_sub_add_right,
    List.take_append_of_le_length (Nat.sub_le _ _)]

-- ---------------------------------------------------------------------------
-- Runs in front of a tag
-- ---------------------------------------------------------------------------

/-- A run that no tag belongs to ends in front of the tag at the latest. -/
theorem dropWhile_append_tag {p : Char → Bool} (hp : p '<' = false) (s z : Text) :
    (s ++ '<' :: z).dropWhile p = s.dropWhile p ++ '<' :: z := by
  by_cases h : s.dropWhile p = []
  · rw [dropWhile_append_of_eq_nil h, h, List.dropWhile_cons_of_neg (by simp [hp])]
    rfl
  · exact dropWhile_append_of_ne_nil h _

theorem takeWhile_append_tag {p : Char → Bool} (hp : p '<' = false) (s z : Text) :
    (s ++ '<' :: z).takeWhile p = s.takeWhile p := by
  induction s with
  | nil => rw [List.nil_append, List.takeWhile_cons_of_neg (by simp [hp]), List.takeWhile_nil]
  | cons c r ih => rw [List.cons_append, List.takeWhile_cons, List.takeWhile_cons, ih]

theorem length_dropWhile_tag_le {p : Char → Bool} (hp : p '<' = true) {s : Text}
    (h : s.dropWhile p = []) (z : Text) : ((s ++ '<' :: z).dropWhile p).length ≤ z.length := by
  rw [dropWhile_append_of_eq_nil h, List.dropWhile_cons_of_pos hp]
  exact (List.dropWhile_suffix p).length_le

-- ---------------------------------------------------------------------------
-- Last pieces
-- ---------------------------------------------------------------------------

theorem exists_append_last {c : Char} {s : Text} (h : c ∈ s) :
    ∃ front back, s = front ++ c :: back ∧ c ∉ back := by
  obtain ⟨back, front, heq, hback⟩ := List.eq_append_cons_of_mem (List.mem_reverse.2 h)
  refine ⟨front.reverse, back.reverse, ?_, fun hmem => hback (List.mem_reverse.1 hmem)⟩
  rw [← List.reverse_reverse s, heq]
  simp

theorem afterLast_append {c : Char} {back : Text} (hback : c ∉ back) (front : Text) :
    Text.afterLast c (front ++ c :: back) = back := by
  have hreverse : (front ++ c :: back).reverse = back.reverse ++ c :: front.reverse := by simp
  rw [Text.afterLast, hreverse, takeWhile_run, List.reverse_reverse]
  · intro d hd
    exact decide_eq_true fun heq => hback (heq ▸ List.mem_reverse.1 hd)
  · exact decide_eq_false fun hne => hne rfl

theorem beforeLast_append {c : Char} {back : Text} (hback : c ∉ back) (front : Text) :
    Text.beforeLast c (front ++ c :: back) = front := by
  have hreverse : (front ++ c :: back).reverse = back.reverse ++ c :: front.reverse := by simp
  rw [Text.beforeLast, hreverse, dropWhile_run, List.drop_succ_cons, List.drop_zero,
    List.reverse_reverse]
  · intro d hd
    exact decide_eq_true fun heq => hback (heq ▸ List.mem_reverse.1 hd)
  · exact decide_eq_false fun hne => hne rfl

theorem afterLast_append_of_not_mem {c : Char} {back : Text} (hback : c ∉ back) (s : Text) :
    Text.afterLast c (s ++ back) = Text.afterLast c s ++ back := by
  rw [Text.afterLast, List.reverse_append, List.takeWhile_append_of_pos, List.reverse_append,
    List.reverse_reverse, Text.afterLast]
  exact fun d hd => decide_eq_true fun heq => hback (heq ▸ List.mem_reverse.1 hd)

theorem afterLast_of_not_mem {c : Char} {s : Text} (h : c ∉ s) : Text.afterLast c s = s :=
  afterLast_append_of_not_mem h []

theorem beforeLast_of_not_mem {c : Char} {s : Text} (h : c ∉ s) : Text.beforeLast c s = [] := by
  have hall : ∀ d ∈ s.reverse, decide (d ≠ c) = true := fun d hd =>
    decide_eq_true fun heq => h (heq ▸ List.mem_reverse.1 hd)
  rw [Text.beforeLast, ← List.append_nil s.reverse, List.dropWhile_append_of_pos hall]
  rfl

theorem not_mem_afterLast (c : Char) (s : Text) : c ∉ Text.afterLast c s := fun h =>
  of_decide_eq_true (of_mem_takeWhile c (List.mem_reverse.1 h)) rfl

theorem subset_afterLast (c : Char) (s : Text) : Text.afterLast c s ⊆ s := fun _ hd =>
  List.mem_reverse.1 ((List.takeWhile_sublist _).subset (List.mem_reverse.1 hd))

theorem subset_beforeLast (c : Char) (s : Text) : Text.beforeLast c s ⊆ s := fun _ hd =>
  List.mem_reverse.1 ((List.dropWhile_sublist _).subset
    ((List.drop_sublist 1 _).subset (List.mem_reverse.1 hd)))

-- ---------------------------------------------------------------------------
-- Letters and digits
-- ---------------------------------------------------------------------------

theorem toNat_of_isAlphanum {c : Char} (h : c.isAlphanum = true) :
    48 ≤ c.toNat ∧ c.toNat ≤ 57 ∨ 65 ≤ c.toNat ∧ c.toNat ≤ 90 ∨ 97 ≤ c.toNat ∧ c.toNat ≤ 122 := by
  delta Char.isAlphanum Char.isAlpha Char.isUpper Char.isLower Char.isDigit at h
  simp only [ge_iff_le, UInt32.le_iff_toNat_le, Char.toNat_val, Bool.or_eq_true, Bool.and_eq_true,
    decide_eq_true_eq, Char.reduceVal, UInt32.reduceToNat] at h
  omega

theorem not_isAlphanum_of_isBlank {c : Char} (h : Text.isBlank c = true) :
    c.isAlphanum = false := by
  refine Bool.eq_false_iff.2 fun halphanum => ?_
  have hranges := toNat_of_isAlphanum halphanum
  unfold Text.isBlank at h
  simp only [Bool.or_eq_true, Bool.and_eq_true, decide_eq_true_eq] at h
  omega

theorem not_isBlank_of_isAlpha {c : Char} (h : c.isAlpha = true) : Text.isBlank c = false := by
  cases hblank : Text.isBlank c with
  | false => rfl
  | true =>
    have hnot := not_isAlphanum_of_isBlank hblank
    rw [Char.isAlphanum, h] at hnot
    cases hnot

theorem isAlpha_of_toLower {c : Char} (h : c.toLower.isAlpha = true) : c.isAlpha = true := by
  unfold Char.toLower at h
  split at h
  · rename_i hupper
    exact Bool.or_eq_true_iff.2 (.inl (decide_eq_true hupper))
  · exact h

end PageSplice
