-- SUMMARY: How far the scanners of tags look: what they find in front of a tag, unless they run into it.
import PageSplice.Proofs.Html.Reading
import PageSplice.Proofs.Text

/-!
# Looking ahead

A scanner that stops in front of a tag has looked at the text behind only to
search for a quote, and has not found one. What it finds is then the same
whatever tag follows, as long as the search stays without success; a scanner
that succeeds takes the beginning of the tag for a part of its own.
-/

namespace PageSplice.Html

-- ---------------------------------------------------------------------------
-- Scanners in front of a tag
-- ---------------------------------------------------------------------------

/-- `Settles scan s found`: in a text that goes on with a tag behind `s`, what `scan` finds is
`found`, or it takes the beginning of the tag for a part of its own. -/
def Settles {α : Type} (scan : Text → α × Text) (s : Text) (found : α × Text) : Prop :=
  ∀ z, scan (s ++ '<' :: z) = (found.1, found.2 ++ '<' :: z) ∨
    (scan (s ++ '<' :: z)).2.length ≤ z.length

namespace StartTag

theorem skipSeparators_append_tag (s z : Text) :
    skipSeparators (s ++ '<' :: z) = skipSeparators s ++ '<' :: z := by
  induction s with
  | nil =>
    simp [skipSeparators, show Text.isBlank '<' = false by decide]
  | cons c r ih =>
    have hhead : (r ++ '<' :: z).head? ≠ some '>' ↔ r.head? ≠ some '>' := by
      cases r <;> simp
    rw [List.cons_append, skipSeparators, skipSeparators, ih]
    simp only [hhead]
    split
    · rfl
    · split
      · rfl
      · rfl

theorem exists_settles_scanBare (s : Text) : ∃ found, Settles scanBare s found := by
  by_cases h : s.dropWhile isBareChar = []
  · exact ⟨([], []), fun z => .inr (length_dropWhile_tag_le (by decide) h z)⟩
  · refine ⟨(s.takeWhile isBareChar, s.dropWhile isBareChar), fun z => .inl ?_⟩
    rw [scanBare, takeWhile_append_of_ne_nil h, dropWhile_append_of_ne_nil h]

/-- The value behind the name of an attribute, where there is one, and what follows it or, without a
value, the name. -/
def valueAt (s : Text) : Option Text × Text :=
  match scanValue? s with
  | some (value, rest) => (some value, rest)
  | none => (none, s)

theorem valueAt_isSuffix (s : Text) : (valueAt s).2 <:+ s := by
  unfold valueAt
  split
  · rename_i h
    exact scanValue?_isSuffix h
  · exact List.suffix_refl s

theorem scanAttribute_eq (first : Char) (s : Text) :
    scanAttribute first s =
      ((first :: s.takeWhile isAttributeChar, (valueAt (s.dropWhile isAttributeChar)).1),
        (valueAt (s.dropWhile isAttributeChar)).2) := by
  unfold scanAttribute valueAt
  cases h : scanValue? (s.dropWhile isAttributeChar) <;> simp only [h]

/-- What an unclosed quote leaves behind equals signs, `signs`, and what follows these, `gap`. -/
def openValue? (signs gap : Text) : Option (Text × Text) :=
  if (gap.head?.map Text.isBlank).getD false then
    some ([], gap.drop ((gap.takeWhile Text.isBlank).length - 1))
  else if (signs.drop 1).head? = some '=' then some (scanBare ('=' :: gap))
  else none

/-- The value behind equals signs, `signs`, and what follows these, `gap`. -/
def signedValue? (signs gap : Text) : Option (Text × Text) :=
  match gap.dropWhile Text.isBlank with
  | [] => some ([], [])
  | c :: r =>
    if isQuote c then
      match r.dropWhile (· ≠ c) with
      | _ :: rest => some (r.takeWhile (· ≠ c), rest)
      | [] => openValue? signs gap
    else some (scanBare (c :: r))

theorem scanValue?_eq (s : Text) :
    scanValue? s =
      if (s.dropWhile Text.isBlank).head? ≠ some '=' then none
      else signedValue? (s.dropWhile Text.isBlank)
        ((s.dropWhile Text.isBlank).dropWhile (· = '=')) := rfl

/-- Whether a value is `found` in a text that goes on with a tag, whose text behind `<` is `z`, or
takes the beginning of the tag for a part of its own. -/
def SettlesValue (found : Option (Text × Text)) (z : Text) (value : Option (Text × Text)) : Prop :=
  value = found.map (fun r => (r.1, r.2 ++ '<' :: z)) ∨ ∃ r, value = some r ∧ r.2.length ≤ z.length

theorem exists_settlesValue_scanBare (s : Text) :
    ∃ found, ∀ z, SettlesValue found z (some (scanBare (s ++ '<' :: z))) := by
  obtain ⟨found, hfound⟩ := exists_settles_scanBare s
  refine ⟨some found, fun z => ?_⟩
  rcases hfound z with h | h
  · exact .inl (congrArg some h)
  · exact .inr ⟨_, rfl, h⟩

theorem exists_settlesValue_openValue? {signs gap : Text} (hgap : gap.dropWhile Text.isBlank ≠ [])
    (hsigns : 1 < signs.length) :
    ∃ found, ∀ z, SettlesValue found z (openValue? (signs ++ '<' :: z) (gap ++ '<' :: z)) := by
  have hhead (z : Text) : (gap ++ '<' :: z).head? = gap.head? := by
    cases gap with
    | nil => exact absurd rfl hgap
    | cons c r => rfl
  have hsecond (z : Text) : ((signs ++ '<' :: z).drop 1).head? = (signs.drop 1).head? := by
    cases signs with
    | nil => cases hsigns
    | cons c r =>
      cases r with
      | nil => exact absurd hsigns (Nat.lt_irrefl 1)
      | cons d t => rfl
  have hdrop (z : Text) : (gap ++ '<' :: z).drop ((gap.takeWhile Text.isBlank).length - 1) =
      gap.drop ((gap.takeWhile Text.isBlank).length - 1) ++ '<' :: z :=
    List.drop_append_of_le_length
      (Nat.le_trans (Nat.sub_le _ _) (List.takeWhile_sublist _).length_le)
  simp only [openValue?, hhead, hsecond, takeWhile_append_of_ne_nil hgap, hdrop]
  split
  · exact ⟨some ([], _), fun z => .inl rfl⟩
  · split
    · exact exists_settlesValue_scanBare ('=' :: gap)
    · exact ⟨none, fun z => .inl rfl⟩

theorem exists_settlesValue_signedValue? {signs gap : Text} (hsign : signs.head? = some '=')
    (hgap : signs.dropWhile (· = '=') = gap) :
    ∃ found, ∀ z, SettlesValue found z (signedValue? (signs ++ '<' :: z) (gap ++ '<' :: z)) := by
  have hblanks (z : Text) : (gap ++ '<' :: z).dropWhile Text.isBlank =
      gap.dropWhile Text.isBlank ++ '<' :: z := dropWhile_append_tag (by decide) gap z
  simp only [signedValue?, hblanks]
  cases hvalue : gap.dropWhile Text.isBlank with
  | nil =>
    simp only [List.nil_append, show isQuote '<' = false by decide, Bool.false_eq_true, if_false]
    exact exists_settlesValue_scanBare []
  | cons c r =>
    simp only [List.cons_append]
    cases hquote : isQuote c with
    | false =>
      simp only [Bool.false_eq_true, if_false]
      exact exists_settlesValue_scanBare (c :: r)
    | true =>
      simp only [if_true]
      cases hclosed : r.dropWhile (· ≠ c) with
      | cons q t =>
        have hr : r.dropWhile (· ≠ c) ≠ [] := by
          rw [hclosed]
          exact List.cons_ne_nil q t
        simp only [dropWhile_append_of_ne_nil hr, takeWhile_append_of_ne_nil hr, hclosed,
          List.cons_append]
        exact ⟨some (r.takeWhile (· ≠ c), t), fun z => .inl rfl⟩
      | nil =>
        have hpass (z : Text) : ('<' :: z).dropWhile (· ≠ c) = z.dropWhile (· ≠ c) := by
          refine List.dropWhile_cons_of_pos (decide_eq_true fun h => ?_)
          rw [← h] at hquote
          exact absurd hquote (by decide)
        have hgapNe : gap.dropWhile Text.isBlank ≠ [] := by
          rw [hvalue]
          exact List.cons_ne_nil c r
        have hsigns : 1 < signs.length := by
          cases signs with
          | nil => cases hsign
          | cons d t =>
            cases t with
            | nil =>
              cases hsign
              cases hgap
              cases hvalue
            | cons e u => exact Nat.succ_lt_succ (Nat.succ_pos _)
        obtain ⟨found, hfound⟩ := exists_settlesValue_openValue? hgapNe hsigns
        -- The quote is closed behind the front of the tag, or not at all.
        refine ⟨found, fun z => ?_⟩
        rw [dropWhile_append_of_eq_nil hclosed, hpass]
        cases hlater : z.dropWhile (· ≠ c) with
        | nil => exact hfound z
        | cons q t =>
          have hle := (hlater ▸ List.dropWhile_suffix (· ≠ c) : q :: t <:+ z).length_le
          exact .inr ⟨_, rfl, Nat.le_of_succ_le hle⟩

theorem exists_settles_valueAt (s : Text) : ∃ found, Settles valueAt s found := by
  have hsigns (z : Text) : (s ++ '<' :: z).dropWhile Text.isBlank =
      s.dropWhile Text.isBlank ++ '<' :: z := dropWhile_append_tag (by decide) s z
  have hgap (z : Text) : (s.dropWhile Text.isBlank ++ '<' :: z).dropWhile (· = '=') =
      (s.dropWhile Text.isBlank).dropWhile (· = '=') ++ '<' :: z :=
    dropWhile_append_tag (by decide) _ z
  have hhead (z : Text) : (s.dropWhile Text.isBlank ++ '<' :: z).head? = some '=' ↔
      (s.dropWhile Text.isBlank).head? = some '=' := by
    cases s.dropWhile Text.isBlank <;> simp
  simp only [Settles, valueAt, scanValue?_eq, hsigns, hgap, ne_eq, hhead]
  by_cases hsign : (s.dropWhile Text.isBlank).head? = some '='
  · obtain ⟨found, hfound⟩ := exists_settlesValue_signedValue? hsign rfl
    simp only [hsign, not_true_eq_false, if_false]
    cases found with
    | none =>
      refine ⟨(none, s), fun z => ?_⟩
      rcases hfound z with h | ⟨r, h, hle⟩
      · rw [h]
        exact .inl rfl
      · rw [h]
        exact .inr hle
    | some found =>
      refine ⟨(some found.1, found.2), fun z => ?_⟩
      rcases hfound z with h | ⟨r, h, hle⟩
      · rw [h]
        exact .inl rfl
      · rw [h]
        exact .inr hle
  · simp only [hsign, not_false_eq_true, if_true]
    exact ⟨(none, s), fun z => .inl rfl⟩

theorem exists_settles_scanAttribute (first : Char) (s : Text) :
    ∃ found, Settles (scanAttribute first) s found := by
  by_cases h : s.dropWhile isAttributeChar = []
  · refine ⟨(([], none), []), fun z => .inr ?_⟩
    rw [scanAttribute_eq]
    exact Nat.le_trans (valueAt_isSuffix _).length_le (length_dropWhile_tag_le (by decide) h z)
  · obtain ⟨found, hfound⟩ := exists_settles_valueAt (s.dropWhile isAttributeChar)
    refine ⟨((first :: s.takeWhile isAttributeChar, found.1), found.2), fun z => ?_⟩
    rw [scanAttribute_eq, takeWhile_append_of_ne_nil h, dropWhile_append_of_ne_nil h]
    rcases hfound z with h' | h'
    · rw [h']
      exact .inl rfl
    · exact .inr h'

theorem scanAttributes_cons (last c : Char) (r : Text) :
    scanAttributes last (c :: r) =
      if precedesAttribute last && startsAttribute c then
        let rest := skipSeparators (scanAttribute c r).2
        let more := scanAttributes ((Text.upTo (c :: r) rest).getLastD last) rest
        ((scanAttribute c r).1 :: more.1, more.2)
      else ([], c :: r) := by
  rw [scanAttributes]

theorem length_scanAttributes_le (last c : Char) (r : Text) :
    (scanAttributes last (skipSeparators (scanAttribute c r).2)).2.length ≤
      (scanAttribute c r).2.length :=
  ((scanAttributes_isSuffix last _).trans (skipSeparators_isSuffix _)).length_le

theorem exists_settles_scanAttributes (last : Char) (s : Text) :
    ∃ found, Settles (scanAttributes last) s found := by
  induction hn : s.length using Nat.strongRecOn generalizing last s with
  | _ n ih =>
    cases s with
    | nil =>
      refine ⟨([], []), fun z => ?_⟩
      rw [List.nil_append, scanAttributes_cons]
      split
      · refine .inr (Nat.le_trans (length_scanAttributes_le _ _ _) ?_)
        exact (scanAttribute_isSuffix '<' z).length_le
      · exact .inl rfl
    | cons c r =>
      cases hbegins : precedesAttribute last && startsAttribute c with
      | false =>
        refine ⟨([], c :: r), fun z => .inl ?_⟩
        rw [List.cons_append, scanAttributes_cons, hbegins]
        rfl
      | true =>
        obtain ⟨⟨first, rest⟩, hfirst⟩ := exists_settles_scanAttribute c r
        have hsettled (z : Text) : scanAttributes last (c :: r ++ '<' :: z) =
            ((scanAttribute c (r ++ '<' :: z)).1 :: (scanAttributes
                ((Text.upTo (c :: r ++ '<' :: z)
                  (skipSeparators (scanAttribute c (r ++ '<' :: z)).2)).getLastD last)
                (skipSeparators (scanAttribute c (r ++ '<' :: z)).2)).1,
              (scanAttributes
                ((Text.upTo (c :: r ++ '<' :: z)
                  (skipSeparators (scanAttribute c (r ++ '<' :: z)).2)).getLastD last)
                (skipSeparators (scanAttribute c (r ++ '<' :: z)).2)).2) := by
          rw [List.cons_append, scanAttributes_cons, hbegins]
          rfl
        by_cases hshort : rest.length ≤ r.length
        · have hlt : (skipSeparators rest).length < n := by
            have := (skipSeparators_isSuffix rest).length_le
            rw [← hn, List.length_cons]
            exact Nat.lt_succ_of_le (Nat.le_trans this hshort)
          obtain ⟨⟨more, left⟩, hmore⟩ := ih _ hlt
            ((Text.upTo (c :: r) (skipSeparators rest)).getLastD last) (skipSeparators rest) rfl
          refine ⟨(first :: more, left), fun z => ?_⟩
          rw [hsettled]
          rcases hfirst z with h | h
          · rw [h]
            simp only [skipSeparators_append_tag, upTo_append_append]
            rcases hmore z with h' | h'
            · rw [h']
              exact .inl rfl
            · exact .inr h'
          · exact .inr (Nat.le_trans (length_scanAttributes_le _ _ _) h)
        · -- A rest that is longer than the text is never found.
          refine ⟨([], []), fun z => .inr ?_⟩
          rw [hsettled]
          refine Nat.le_trans (length_scanAttributes_le _ _ _) ?_
          rcases hfirst z with h | h
          · have hle := (scanAttribute_isSuffix c (r ++ '<' :: z)).length_le
            rw [h, List.length_append, List.length_append] at hle
            exact absurd (Nat.le_of_add_le_add_right hle) hshort
          · exact h

theorem exists_settles_scanHead (s : Text) : ∃ found, Settles scanHead s found := by
  by_cases h : s.dropWhile isNameChar = []
  · refine ⟨(⟨[], []⟩, []), fun z => .inr ?_⟩
    refine Nat.le_trans ?_ (length_dropWhile_tag_le (by decide) h z)
    exact ((scanAttributes_isSuffix _ _).trans (skipSeparators_isSuffix _)).length_le
  · obtain ⟨⟨attributes, rest⟩, hfound⟩ := exists_settles_scanAttributes
      ((Text.upTo s (skipSeparators (s.dropWhile isNameChar))).getLastD '<')
      (skipSeparators (s.dropWhile isNameChar))
    refine ⟨(⟨Text.lower (s.takeWhile isNameChar), attributes⟩, rest), fun z => ?_⟩
    simp only [scanHead, takeWhile_append_of_ne_nil h, dropWhile_append_of_ne_nil h,
      skipSeparators_append_tag, upTo_append_append]
    rcases hfound z with h' | h'
    · rw [h']
      exact .inl rfl
    · exact .inr h'

/-- A head without attributes is found whatever tag follows. -/
theorem scanHead_of_no_attributes {s rest z : Text} {head : Head}
    (h : scanHead (s ++ '<' :: z) = (head, rest ++ '<' :: z)) (hnone : head.attributes = [])
    (y : Text) : scanHead (s ++ '<' :: y) = (head, rest ++ '<' :: y) := by
  by_cases hname : s.dropWhile isNameChar = []
  · have hle : (scanHead (s ++ '<' :: z)).2.length ≤ z.length := by
      refine Nat.le_trans ?_ (length_dropWhile_tag_le (by decide) hname z)
      exact ((scanAttributes_isSuffix _ _).trans (skipSeparators_isSuffix _)).length_le
    rw [h, List.length_append, List.length_cons] at hle
    exact absurd (Nat.le_trans (Nat.le_add_left _ _) hle) (Nat.not_succ_le_self _)
  · simp only [scanHead, takeWhile_append_of_ne_nil hname, dropWhile_append_of_ne_nil hname,
      skipSeparators_append_tag, upTo_append_append, Prod.mk.injEq] at h ⊢
    generalize (Text.upTo s (skipSeparators (s.dropWhile isNameChar))).getLastD '<' = last at h ⊢
    generalize skipSeparators (s.dropWhile isNameChar) = t at h ⊢
    obtain ⟨rfl, hrest⟩ := h
    have hidle : ∀ x, scanAttributes last (t ++ '<' :: x) = ([], t ++ '<' :: x) := by
      intro x
      cases t with
      | nil =>
        rw [List.nil_append, scanAttributes_cons] at hnone hrest ⊢
        split at hnone
        · cases hnone
        · rename_i hbegins
          rw [if_neg hbegins]
      | cons c r =>
        rw [List.cons_append, scanAttributes_cons] at hnone hrest ⊢
        split at hnone
        · cases hnone
        · rename_i hbegins
          rw [if_neg hbegins]
    simp only [hidle, true_and] at hrest ⊢
    have ht : t = rest := List.append_cancel_right hrest
    rw [ht]

-- ---------------------------------------------------------------------------
-- Where heads end
-- ---------------------------------------------------------------------------

theorem not_isBareChar_of_scanBare {s r : Text} {c : Char} (h : (scanBare s).2 = c :: r) :
    isBareChar c = false := by
  have hstop := List.head?_dropWhile_not isBareChar s
  rw [show s.dropWhile isBareChar = c :: r from h] at hstop
  simpa using hstop

theorem isBlank_of_drop_gap {gap r : Text} {c : Char}
    (hgap : (gap.head?.map Text.isBlank).getD false = true)
    (h : gap.drop ((gap.takeWhile Text.isBlank).length - 1) = c :: r) : Text.isBlank c = true := by
  cases gap with
  | nil => cases hgap
  | cons d t =>
    have hd : Text.isBlank d = true := hgap
    have hsplit := List.takeWhile_append_dropWhile (p := Text.isBlank) (l := d :: t)
    have hall := List.all_takeWhile (p := Text.isBlank) (l := d :: t)
    have hne : (d :: t).takeWhile Text.isBlank ≠ [] := by
      rw [List.takeWhile_cons_of_pos hd]
      exact List.cons_ne_nil _ _
    generalize (d :: t).takeWhile Text.isBlank = blanks at h hsplit hall hne
    have hlast := List.dropLast_concat_getLast hne
    rw [← hsplit, ← List.length_dropLast, ← hlast, List.append_assoc, List.dropLast_concat,
      List.drop_left] at h
    rw [← (List.cons.inj h).1]
    exact List.all_eq_true.1 hall _ (List.getLast_mem hne)

/-- What follows the value of an attribute stands behind a quote, or begins with a character that
ends a value without quotes. -/
theorem scanValue?_cases {s value rest : Text} (h : scanValue? s = some (value, rest)) :
    (∃ before q, isQuote q = true ∧ s = before ++ q :: rest) ∨
      ∀ c r, rest = c :: r → isBareChar c = false := by
  have hgap : (s.dropWhile Text.isBlank).dropWhile (· = '=') <:+ s :=
    (List.dropWhile_suffix _).trans (List.dropWhile_suffix _)
  have hbare {t : Text} (h : some (scanBare t) = some (value, rest)) :
      ∀ c r, rest = c :: r → isBareChar c = false := fun c r heq =>
    not_isBareChar_of_scanBare ((congrArg Prod.snd (Option.some.inj h)).trans heq)
  rw [scanValue?_eq] at h
  split at h
  · cases h
  generalize (s.dropWhile Text.isBlank).dropWhile (· = '=') = gap at hgap h
  unfold signedValue? at h
  split at h
  · cases h
    exact .inr fun c r heq => nomatch heq
  · rename_i c r hvalue
    split at h
    · rename_i hquote
      split at h
      · rename_i q rest hclosed
        cases h
        have hq : q = c := by
          have hstop := List.head?_dropWhile_not (fun x => decide (x ≠ c)) r
          rw [hclosed] at hstop
          simpa using hstop
        have hsuffix : q :: rest <:+ s :=
          (hclosed ▸ List.dropWhile_suffix _ : q :: rest <:+ r).trans
            ((List.suffix_cons c r).trans
              ((hvalue ▸ List.dropWhile_suffix _ : c :: r <:+ gap).trans hgap))
        obtain ⟨before, hbefore⟩ := hsuffix
        exact .inl ⟨before, q, hq ▸ hquote, hbefore.symm⟩
      · unfold openValue? at h
        split at h
        · rename_i hblank
          cases h
          refine .inr fun d t heq => ?_
          simp [isBareChar, isBlank_of_drop_gap hblank heq]
        · split at h
          · exact .inr (hbare h)
          · cases h
    · exact .inr (hbare h)

theorem head_skipSeparators {s r : Text} {c : Char} (h : skipSeparators s = c :: r) :
    Text.isBlank c = false := by
  induction s with
  | nil => cases h
  | cons d t ih =>
    rw [skipSeparators] at h
    split at h
    · exact ih h
    · rename_i hblank
      split at h
      · exact ih h
      · rw [← (List.cons.inj h).1]
        exact Bool.eq_false_iff.2 hblank

/-- What stands in front of the rest that separators leave: nothing, or a separator. -/
theorem skipSeparators_cases (s : Text) :
    skipSeparators s = s ∨
      ∃ before c, precedesAttribute c = true ∧ s = before ++ c :: skipSeparators s := by
  induction s with
  | nil => exact .inl rfl
  | cons c r ih =>
    have hskipped (hc : precedesAttribute c = true) : ∃ before d, precedesAttribute d = true ∧
        c :: r = before ++ d :: skipSeparators r := by
      rcases ih with h | ⟨before, d, hd, h⟩
      · exact ⟨[], c, hc, by rw [h]; rfl⟩
      · exact ⟨c :: before, d, hd, congrArg (c :: ·) h⟩
    rw [skipSeparators]
    split
    · rename_i hblank
      exact .inr (hskipped (by simp [precedesAttribute, hblank]))
    · split
      · rename_i hslash
        exact .inr (hskipped (by simp [precedesAttribute, hslash.1]))
      · exact .inl rfl

theorem getLastD_upTo {before rest : Text} {c last : Char} :
    (Text.upTo (before ++ c :: rest) rest).getLastD last = c := by
  have hlength : (before ++ c :: rest).length - rest.length = (before ++ [c]).length := by
    simp only [List.length_append, List.length_cons, List.length_nil]
    omega
  rw [Text.upTo, hlength, show before ++ c :: rest = (before ++ [c]) ++ rest by simp,
    List.take_left, List.getLastD_concat]

theorem scanAttributes_eq_nil {last : Char} {s : Text} (h : (scanAttributes last s).1 = []) :
    (scanAttributes last s).2 = s ∧
      ∀ c r, s = c :: r → (precedesAttribute last && startsAttribute c) = false := by
  cases s with
  | nil =>
    rw [scanAttributes]
    refine ⟨rfl, fun c r heq => ?_⟩
    cases heq
  | cons c r =>
    rw [scanAttributes_cons] at h ⊢
    split at h
    · cases h
    · rename_i hbegins
      rw [if_neg hbegins]
      refine ⟨rfl, fun d t heq => ?_⟩
      cases heq
      exact Bool.eq_false_iff.2 hbegins

/-- An attribute without white space or a slash behind it ends at an equals sign or the end of the
tag, unless a quote ends it. -/
theorem stop_of_scanAttribute {d c : Char} {t r : Text} (hrest : (scanAttribute d t).2 = c :: r)
    (hblank : Text.isBlank c = false) :
    (∃ before q, isQuote q = true ∧ t = before ++ q :: c :: r) ∨ c = '>' ∨ c = '/' ∨ c = '=' := by
  rw [scanAttribute_eq] at hrest
  simp only [valueAt] at hrest
  cases hvalue : scanValue? (t.dropWhile isAttributeChar) with
  | none =>
    rw [hvalue] at hrest
    have hstop := List.head?_dropWhile_not isAttributeChar t
    rw [show t.dropWhile isAttributeChar = c :: r from hrest] at hstop
    simp only [List.head?_cons, isAttributeChar, hblank, Bool.false_or, Bool.not_eq_false',
      Bool.or_eq_true, decide_eq_true_eq] at hstop
    rcases hstop with (h | h) | h
    · exact .inr (.inr (.inl h))
    · exact .inr (.inr (.inr h))
    · exact .inr (.inl h)
  | some found =>
    obtain ⟨value, rest⟩ := found
    rw [hvalue] at hrest
    have hrest : rest = c :: r := hrest
    rcases scanValue?_cases hvalue with ⟨before, q, hq, heq⟩ | hbare
    · obtain ⟨front, hfront⟩ := List.dropWhile_suffix isAttributeChar (l := t)
      refine .inl ⟨front ++ before, q, hq, ?_⟩
      rw [← hfront, heq, hrest, List.append_assoc]
    · have := hbare c r hrest
      simp only [isBareChar, hblank, Bool.false_or, Bool.not_eq_false', decide_eq_true_eq] at this
      exact .inr (.inl this)

/-- Attributes end at a slash, an equals sign, the end of the tag or the end of the text. -/
theorem stop_of_scanAttributes {last c : Char} {s r : Text} (h : (scanAttributes last s).1 ≠ [])
    (hstop : (scanAttributes last s).2 = c :: r) : c = '>' ∨ c = '/' ∨ c = '=' := by
  induction hn : s.length using Nat.strongRecOn generalizing last s with
  | _ n ih =>
    cases s with
    | nil =>
      rw [scanAttributes] at h
      exact absurd rfl h
    | cons d t =>
      rw [scanAttributes_cons] at h hstop
      split at h
      · rename_i hbegins
        rw [if_pos hbegins] at hstop
        simp only at hstop
        have hfirst := scanAttribute_isSuffix d t
        generalize hrest : (scanAttribute d t).2 = rest at hfirst hstop
        generalize hnext : (Text.upTo (d :: t) (skipSeparators rest)).getLastD last = next at hstop
        by_cases hmore : (scanAttributes next (skipSeparators rest)).1 = []
        · obtain ⟨hsame, hends⟩ := scanAttributes_eq_nil hmore
          have hhead : skipSeparators rest = c :: r := hsame.symm.trans hstop
          have hblank := head_skipSeparators hhead
          have hends := hends c r hhead
          -- What stands right in front of the rest would let another attribute begin.
          have hlast (before : Text) {q : Char} (hq : precedesAttribute q = true)
              (heq : d :: t = before ++ q :: skipSeparators rest) : startsAttribute c = false := by
            rw [heq, getLastD_upTo] at hnext
            rw [← hnext, hq, Bool.true_and] at hends
            exact hends
          have hstarts (h : startsAttribute c = false) : c = '>' ∨ c = '/' ∨ c = '=' := by
            simp only [startsAttribute, hblank, Bool.false_or, Bool.not_eq_false',
              Bool.or_eq_true, decide_eq_true_eq] at h
            rcases h with h | h
            · exact .inr (.inl h)
            · exact .inl h
          obtain ⟨front, hfront⟩ := hfirst
          rcases skipSeparators_cases rest with hnone | ⟨before, q, hq, heq⟩
          · rw [hnone] at hhead hlast
            rcases stop_of_scanAttribute (hrest.trans hhead) hblank with ⟨before, q, hq, heq⟩ | h
            · refine hstarts (hlast (d :: before) (q := q) ?_ ?_)
              · simp [precedesAttribute, hq]
              · rw [heq, hhead]
                rfl
            · exact h
          · refine hstarts (hlast (d :: front ++ before) hq ?_)
            rw [← hfront]
            refine (congrArg (d :: front ++ ·) heq).trans ?_
            simp
        · refine ih _ ?_ hmore hstop rfl
          have := ((skipSeparators_isSuffix rest).trans hfirst).length_le
          rw [← hn, List.length_cons]
          exact Nat.lt_succ_of_le this
      · exact absurd rfl h

end StartTag

-- ---------------------------------------------------------------------------
-- Start tags in front of a tag
-- ---------------------------------------------------------------------------

def Step.append (t : Text) : Step → Step
  | token tok rest => token tok (rest ++ t)
  | stop skipped rest => stop skipped (rest ++ t)

theorem Step.append_inert (s rest t : Text) :
    Step.inert (s ++ t) (rest ++ t) = (Step.inert s rest).append t := by
  rw [Step.inert, upTo_append_append]
  rfl

/-- The step at a start tag whose text behind `<` is `s`, given its head and what follows that. -/
def headStep? (s : Text) (head : StartTag.Head) (rest : Text) : Except ScanError (Option Step) :=
  let finish := fun (selfClosing : Bool) (rest : Text) =>
    match head.attributes.mapM StartTag.resolveAttribute with
    | .error e => Except.error (ScanError.overlongReference e.digits)
    | .ok attributes =>
      .ok (some (Step.token (.start ⟨Text.upTo s rest, head.name, attributes, selfClosing⟩) rest))
  match rest with
  | [] => .ok none
  | '>' :: rest => finish false rest
  | '/' :: '>' :: rest => finish true rest
  | c :: rest =>
    if c.isAlpha || c = '=' || c = '/' then .ok none
    else match head.attributes.mapM StartTag.resolveAttribute with
      | .error e => .error (.overlongReference e.digits)
      | .ok _ => .ok (some (Step.inert ('<' :: s) (c :: rest)))

theorem startStep?_eq (s : Text) :
    startStep? s = headStep? s (StartTag.scanHead s).1 (StartTag.scanHead s).2 := rfl

/-- What a head that is finished, broken off or unfinished makes of its tag. -/
theorem headStep?_cases (s : Text) (head : StartTag.Head) (rest : Text) :
    (∃ e, headStep? s head rest = .error e) ∨
    headStep? s head rest = .ok none ∨
    (∃ tag rest', headStep? s head rest = .ok (some (.token (.start tag) rest')) ∧
      '>' :: rest' <:+ rest ∧ tag.interior = Text.upTo s rest') ∨
    (∃ c r, rest = c :: r ∧ c ≠ '>' ∧ c ≠ '/' ∧ c ≠ '=' ∧
      headStep? s head rest = .ok (some (.inert ('<' :: s) rest))) := by
  unfold headStep?
  simp only
  split
  · exact .inr (.inl rfl)
  · split
    · exact .inl ⟨_, rfl⟩
    · exact .inr (.inr (.inl ⟨_, _, rfl, List.suffix_refl _, rfl⟩))
  · split
    · exact .inl ⟨_, rfl⟩
    · exact .inr (.inr (.inl ⟨_, _, rfl, List.suffix_cons _ _, rfl⟩))
  · rename_i c r hgt hslash
    split
    · exact .inr (.inl rfl)
    · rename_i hother
      split
      · exact .inl ⟨_, rfl⟩
      · simp only [Bool.or_eq_true, decide_eq_true_eq, not_or] at hother
        exact .inr (.inr (.inr ⟨c, r, rfl, fun h => hgt h, hother.2, hother.1.2, rfl⟩))

theorem headStep?_append_tag (s : Text) (head : StartTag.Head) {rest : Text} (h : rest ≠ [])
    (z : Text) :
    headStep? (s ++ '<' :: z) head (rest ++ '<' :: z) =
      (headStep? s head rest).map (·.map (Step.append ('<' :: z))) := by
  obtain ⟨c, r, rfl⟩ := List.exists_cons_of_ne_nil h
  rw [List.cons_append]
  by_cases hgt : c = '>'
  · subst hgt
    simp only [headStep?, upTo_append_append]
    cases head.attributes.mapM StartTag.resolveAttribute <;> rfl
  · by_cases hslash : c = '/' ∧ r.head? = some '>'
    · obtain ⟨rfl, hr⟩ := hslash
      obtain ⟨r, rfl⟩ : ∃ r', r = '>' :: r' := by
        cases r with
        | nil => cases hr
        | cons d t =>
          cases hr
          exact ⟨t, rfl⟩
      simp only [headStep?, List.cons_append, upTo_append_append]
      cases head.attributes.mapM StartTag.resolveAttribute <;> rfl
    · have hother (s r : Text) (hr : c = '/' → r.head? ≠ some '>') : headStep? s head (c :: r) =
          if c.isAlpha || c = '=' || c = '/' then .ok none
          else match head.attributes.mapM StartTag.resolveAttribute with
            | .error e => .error (.overlongReference e.digits)
            | .ok _ => .ok (some (Step.inert ('<' :: s) (c :: r))) := by
        unfold headStep?
        simp only
        split
        · rename_i heq
          cases heq
        · rename_i heq
          cases heq
          exact absurd rfl hgt
        · rename_i heq
          cases heq
          exact absurd rfl (hr rfl)
        · rename_i heq
          cases heq
          rfl
      have hr (hc : c = '/') : r.head? ≠ some '>' := fun hr => hslash ⟨hc, hr⟩
      have hrz (hc : c = '/') : (r ++ '<' :: z).head? ≠ some '>' := by
        cases r with
        | nil => simp
        | cons d t => exact hr hc
      have hinert : Step.inert ('<' :: (s ++ '<' :: z)) (c :: (r ++ '<' :: z)) =
          (Step.inert ('<' :: s) (c :: r)).append ('<' :: z) :=
        Step.append_inert ('<' :: s) (c :: r) _
      rw [hother _ _ hr, hother _ _ hrz, hinert]
      split
      · rfl
      · cases head.attributes.mapM StartTag.resolveAttribute <;> rfl

/-- A head that another character breaks off has no attributes. -/
theorem attributes_of_stop {s r : Text} {c : Char} (h : (StartTag.scanHead s).2 = c :: r)
    (hgt : c ≠ '>') (hslash : c ≠ '/') (hsign : c ≠ '=') :
    (StartTag.scanHead s).1.attributes = [] := by
  refine Decidable.by_contra fun hne => ?_
  rcases StartTag.stop_of_scanAttributes hne h with h | h | h
  · exact hgt h
  · exact hslash h
  · exact hsign h

/-- What a start tag at the front of `s` comes out as in front of the tag `'<' :: z`: it is `found`,
or it takes the tag in, or it is an error, or it stays unfinished though it may be finished in front
of another tag. -/
def SettlesStart (s : Text) (found : Option Step) (z : Text) : Prop :=
  (∃ e, startStep? (s ++ '<' :: z) = .error e) ∨
  startStep? (s ++ '<' :: z) = .ok (found.map (Step.append ('<' :: z))) ∨
  (∃ t rest, startStep? (s ++ '<' :: z) = .ok (some (.token t rest)) ∧ rest.length ≤ z.length) ∨
  (startStep? (s ++ '<' :: z) = .ok none ∧ ∃ tag rest, found = some (.token (.start tag) rest))

/-- A start tag that runs into the tag behind it takes the tag in, or is not finished. -/
theorem settlesStart_of_past {s z : Text} {found : Option Step}
    (h : (StartTag.scanHead (s ++ '<' :: z)).2.length ≤ z.length)
    (hfound : found = none ∨ ∃ tag rest, found = some (.token (.start tag) rest)) :
    SettlesStart s found z := by
  rcases headStep?_cases (s ++ '<' :: z) (StartTag.scanHead (s ++ '<' :: z)).1
    (StartTag.scanHead (s ++ '<' :: z)).2 with
    herror | hnone | ⟨tag, rest, htag, hsuffix, -⟩ | ⟨c, r, -, -, -, -, hinert⟩
  · exact .inl herror
  · rcases hfound with rfl | hfound
    · exact .inr (.inl hnone)
    · exact .inr (.inr (.inr ⟨hnone, hfound⟩))
  · have hle := Nat.le_of_succ_le (Nat.le_trans hsuffix.length_le h)
    exact .inr (.inr (.inl ⟨_, _, htag, hle⟩))
  · exact .inr (.inr (.inl ⟨_, _, hinert, h⟩))

section Settled

variable {s rest : Text} {head : StartTag.Head}

/-- A start tag whose head ends in front of the tag behind it goes by the text in front of that. -/
theorem startStep?_of_settled {z : Text}
    (h : StartTag.scanHead (s ++ '<' :: z) = (head, rest ++ '<' :: z)) (hne : rest ≠ []) :
    startStep? (s ++ '<' :: z) =
      (headStep? s head rest).map (·.map (Step.append ('<' :: z))) := by
  rw [startStep?_eq, h]
  exact headStep?_append_tag s head hne z

theorem settlesStart_of_head {found : Option Step}
    (hhead : Settles StartTag.scanHead s (head, rest)) (hne : rest ≠ [])
    (hstep : (∃ e, headStep? s head rest = .error e) ∨ headStep? s head rest = .ok found)
    (hfound : found = none ∨ ∃ tag rest, found = some (.token (.start tag) rest)) (z : Text) :
    SettlesStart s found z := by
  rcases hhead z with h | h
  · have hlocal := startStep?_of_settled h hne
    rcases hstep with ⟨e, herror⟩ | hok
    · rw [herror] at hlocal
      exact .inl ⟨e, hlocal⟩
    · rw [hok] at hlocal
      exact .inr (.inl hlocal)
  · exact settlesStart_of_past h hfound

/-- A start tag that is broken off has no attributes, so it is broken off in front of every tag. -/
theorem startStep?_broken_off {y : Text}
    (hy : StartTag.scanHead (s ++ '<' :: y) = (head, rest ++ '<' :: y))
    (hrest : rest = [] ∨ ∃ c r, rest = c :: r ∧ c ≠ '>' ∧ c ≠ '/' ∧ c ≠ '=' ∧
      headStep? s head rest = .ok (some (.inert ('<' :: s) rest))) (z : Text) :
    startStep? (s ++ '<' :: z) =
      .ok (some ((Step.inert ('<' :: s) rest).append ('<' :: z))) := by
  obtain ⟨c, r, hstop, hgt, hslash, hsign⟩ : ∃ c r, rest ++ '<' :: y = c :: r ∧ c ≠ '>' ∧ c ≠ '/' ∧
      c ≠ '=' := by
    rcases hrest with rfl | ⟨c, r, rfl, hgt, hslash, hsign, -⟩
    · exact ⟨'<', y, rfl, by decide, by decide, by decide⟩
    · exact ⟨c, r ++ '<' :: y, rfl, hgt, hslash, hsign⟩
  have hattributes : head.attributes = [] := by
    have hnone := attributes_of_stop (by rw [hy, hstop]) hgt hslash hsign
    rwa [hy] at hnone
  have hz := StartTag.scanHead_of_no_attributes hy hattributes z
  rcases hrest with rfl | ⟨c, r, rfl, -, -, -, hinert⟩
  · rw [startStep?_eq, hz]
    simp only [headStep?, List.nil_append, hattributes]
    exact congrArg (Except.ok ∘ some) (Step.append_inert ('<' :: s) [] _)
  · rw [startStep?_of_settled hz (List.cons_ne_nil c r), hinert]
    rfl

/-- A start tag at the front of `s` comes out as one step in front of every tag, and as just that
step if it is found and anything but a start tag. -/
theorem exists_settles_startStep? (s : Text) :
    ∃ found : Option Step, (∀ z, SettlesStart s found z) ∧
      ∀ st, found = some st → (∃ tag rest, st = .token (.start tag) rest) ∨
        ∀ z, startStep? (s ++ '<' :: z) = .ok (some (st.append ('<' :: z))) := by
  obtain ⟨⟨head, rest⟩, hhead⟩ := StartTag.exists_settles_scanHead s
  by_cases hex : ∃ y, StartTag.scanHead (s ++ '<' :: y) = (head, rest ++ '<' :: y)
  · obtain ⟨y, hy⟩ := hex
    have hbroken := startStep?_broken_off hy
    by_cases hne : rest = []
    · exact ⟨some (Step.inert ('<' :: s) rest), fun z => .inr (.inl (hbroken (.inl hne) z)),
        fun st h => .inr (Option.some.inj h ▸ hbroken (.inl hne))⟩
    rcases headStep?_cases s head rest with
      herror | hnone | ⟨tag, rest', htag, -⟩ | hinert
    · exact ⟨none, settlesStart_of_head hhead hne (.inl herror) (.inl rfl), by simp⟩
    · exact ⟨none, settlesStart_of_head hhead hne (.inr hnone) (.inl rfl), by simp⟩
    · refine ⟨some (.token (.start tag) rest'), settlesStart_of_head hhead hne (.inr htag)
        (.inr ⟨tag, rest', rfl⟩), fun st h => .inl ⟨tag, rest', (Option.some.inj h).symm⟩⟩
    · exact ⟨some (Step.inert ('<' :: s) rest), fun z => .inr (.inl (hbroken (.inr hinert) z)),
        fun st h => .inr (Option.some.inj h ▸ hbroken (.inr hinert))⟩
  · refine ⟨none, fun z => ?_, by simp⟩
    rcases hhead z with h | h
    · exact absurd ⟨z, h⟩ hex
    · exact settlesStart_of_past h (.inl rfl)

end Settled

end PageSplice.Html
