-- SUMMARY: The text in front of a start tag: what is read there depends on the tag's text in one way only.
import PageSplice.Proofs.Html.Lookahead

/-!
# In front of a start tag

A step in front of a start tag comes out the same whatever start tag follows,
with two exceptions: it may run into the tag, and then the tag is not read at
all; or it may be a start tag in front that stays unfinished, and then that tag
is not read. So two texts with the same front are read alike there as soon as
the same start tags are read.
-/

namespace PageSplice.Html

-- ---------------------------------------------------------------------------
-- Searches in front of a tag
-- ---------------------------------------------------------------------------

/-- Whether a search ends where `found` says, in a text that goes on with a tag whose text behind
`<` is `z`, or ends behind the beginning of the tag. -/
def SettlesRest (found : Option Text) (z : Text) (rest : Option Text) : Prop :=
  rest = found.map (· ++ '<' :: z) ∨ ∃ r, rest = some r ∧ r.length ≤ z.length

theorem after?_append_tag {c : Char} (hc : c ≠ '<') (s z : Text) :
    Text.after? c (s ++ '<' :: z) =
      ((Text.after? c s).map (· ++ '<' :: z)).or (Text.after? c z) := by
  unfold Text.after?
  cases h : s.dropWhile (· ≠ c) with
  | nil =>
    have hpass : ('<' :: z).dropWhile (· ≠ c) = z.dropWhile (· ≠ c) :=
      List.dropWhile_cons_of_pos (decide_eq_true (Ne.symm hc))
    rw [dropWhile_append_of_eq_nil h, hpass]
    rfl
  | cons d r =>
    rw [dropWhile_append_of_ne_nil (by rw [h]; exact List.cons_ne_nil d r), h]
    rfl

theorem length_after?_le {c : Char} {s rest : Text} (h : Text.after? c s = some rest) :
    rest.length ≤ s.length :=
  (after?_isSuffix h).length_le

theorem settlesRest_after? {c : Char} (hc : c ≠ '<') (s z : Text) :
    SettlesRest (Text.after? c s) z (Text.after? c (s ++ '<' :: z)) := by
  rw [after?_append_tag hc]
  cases Text.after? c s with
  | some rest => exact .inl rfl
  | none =>
    cases h : Text.after? c z with
    | none => exact .inl rfl
    | some rest => exact .inr ⟨rest, rfl, length_after?_le h⟩

theorem exists_after?_of_mem {c : Char} {s : Text} (h : c ∈ s) :
    ∃ rest, Text.after? c s = some rest := by
  unfold Text.after?
  cases hd : s.dropWhile (· ≠ c) with
  | nil =>
    have hsplit := List.takeWhile_append_dropWhile (p := fun x => decide (x ≠ c)) (l := s)
    have hall := List.all_takeWhile (p := fun x => decide (x ≠ c)) (l := s)
    rw [hd, List.append_nil] at hsplit
    rw [hsplit] at hall
    simpa using List.all_eq_true.1 hall c h
  | cons d r => exact ⟨r, rfl⟩

theorem search_append_tag {m : Text → Option Text} {z : Text}
    (hm : ∀ s, m (s ++ '<' :: z) = (m s).map (· ++ '<' :: z)) (s : Text) :
    Text.search m (s ++ '<' :: z) =
      ((Text.search m s).map (· ++ '<' :: z)).or (Text.search m z) := by
  induction s with
  | nil =>
    have hnil : m ('<' :: z) = (m []).map (· ++ '<' :: z) := hm []
    have hsearch : Text.search m ('<' :: z) = (m ('<' :: z)).or (Text.search m z) := rfl
    rw [List.nil_append, hsearch, hnil]
    rfl
  | cons c r ih =>
    have hcons : m (c :: (r ++ '<' :: z)) = (m (c :: r)).map (· ++ '<' :: z) := hm (c :: r)
    rw [List.cons_append, Text.search, hcons, ih, Text.search]
    cases m (c :: r) <;> simp

theorem search_append_tag_of_some {m : Text → Option Text} {z : Text}
    (hm : ∀ s, m (s ++ '<' :: z) = (m s).map (· ++ '<' :: z)) {s rest : Text}
    (h : Text.search m s = some rest) :
    Text.search m (s ++ '<' :: z) = some (rest ++ '<' :: z) := by
  rw [search_append_tag hm, h]
  rfl

theorem settlesRest_search {m : Text → Option Text} {z : Text}
    (hm : ∀ s, m (s ++ '<' :: z) = (m s).map (· ++ '<' :: z))
    (hsuffix : ∀ {s rest : Text}, m s = some rest → rest <:+ s) (s : Text) :
    SettlesRest (Text.search m s) z (Text.search m (s ++ '<' :: z)) := by
  rw [search_append_tag hm]
  cases Text.search m s with
  | some rest => exact .inl rfl
  | none =>
    cases h : Text.search m z with
    | none => exact .inl rfl
    | some rest => exact .inr ⟨rest, rfl, (Text.search_isSuffix hsuffix h).length_le⟩

theorem blanksThenClose?_append_tag (s z : Text) :
    blanksThenClose? (s ++ '<' :: z) = (blanksThenClose? s).map (· ++ '<' :: z) := by
  unfold blanksThenClose?
  rw [dropWhile_append_tag (by decide)]
  cases s.dropWhile Text.isBlank with
  | nil => rfl
  | cons c r =>
    by_cases hc : c = '>'
    · subst hc
      rfl
    · rw [List.cons_append]
      split
      · rename_i heq
        cases heq
        exact absurd rfl hc
      · split
        · rename_i heq
          cases heq
          exact absurd rfl hc
        · rfl

theorem conditionalEnd?_append_tag (s z : Text) :
    conditionalEnd? (s ++ '<' :: z) = (conditionalEnd? s).map (· ++ '<' :: z) := by
  cases s with
  | nil => rfl
  | cons c r =>
    by_cases hc : c = ']'
    · subst hc
      exact blanksThenClose?_append_tag r z
    · simp [conditionalEnd?, hc]

theorem sectionEnd?_append_tag (s z : Text) :
    sectionEnd? (s ++ '<' :: z) = (sectionEnd? s).map (· ++ '<' :: z) := by
  cases s with
  | nil => rfl
  | cons c r =>
    by_cases hc : c = ']'
    · subst hc
      simp only [List.cons_append, sectionEnd?, dropWhile_append_tag (show Text.isBlank '<' = false by decide)]
      exact conditionalEnd?_append_tag _ z
    · simp [sectionEnd?, hc]

theorem commentEnd?_append_tag (s z : Text) :
    commentEnd? (s ++ '<' :: z) = (commentEnd? s).map (· ++ '<' :: z) := by
  cases s with
  | nil => rfl
  | cons c r =>
    by_cases hc : c = '-'
    · subst hc
      cases r with
      | nil => rfl
      | cons d t =>
        by_cases hd : d = '-'
        · subst hd
          exact blanksThenClose?_append_tag t z
        · simp [commentEnd?, hd]
    · simp [commentEnd?, hc]

/-- The end of a marked section is looked for behind the section's name, which no tag goes on. -/
theorem exists_settlesRest_afterSection? (s : Text) :
    ∃ found, (∀ z markup, (∃ e, afterSection? markup (s ++ '<' :: z) = .error e) ∨
        ∃ rest, afterSection? markup (s ++ '<' :: z) = .ok rest ∧ SettlesRest found z rest) ∧
      ∀ rest, found = some rest → ∀ z markup,
        afterSection? markup (s ++ '<' :: z) = .ok (some (rest ++ '<' :: z)) := by
  cases s with
  | nil => exact ⟨none, fun z markup => .inl ⟨_, rfl⟩, fun rest h => nomatch h⟩
  | cons c r =>
    cases halpha : c.isAlpha with
    | false =>
      refine ⟨none, fun z markup => .inl ⟨.sectionWithoutName (markup.take 20), ?_⟩,
        fun rest h => nomatch h⟩
      simp [afterSection?, halpha]
    | true =>
      have hsection (z markup : Text) : afterSection? markup (c :: r ++ '<' :: z) =
          if sectionKeywords.contains (((c :: r).takeWhile isKeywordChar).map Char.toLower) then
            .ok (Text.search sectionEnd? (c :: r ++ '<' :: z))
          else if conditionalKeywords.contains
              (((c :: r).takeWhile isKeywordChar).map Char.toLower) then
            .ok (Text.search conditionalEnd? (c :: r ++ '<' :: z))
          else .error (.unknownSection (Text.upTo (c :: r ++ '<' :: z)
            ((((c :: r) ++ '<' :: z).dropWhile isKeywordChar).dropWhile Text.isBlank))) := by
        have hkeyword := takeWhile_append_tag (show isKeywordChar '<' = false by decide) (c :: r) z
        have hne : (((c :: r ++ '<' :: z).dropWhile isKeywordChar).dropWhile
            Text.isBlank).isEmpty = false := by
          rw [dropWhile_append_tag (show isKeywordChar '<' = false by decide),
            dropWhile_append_tag (show Text.isBlank '<' = false by decide)]
          cases ((c :: r).dropWhile isKeywordChar).dropWhile Text.isBlank <;> rfl
        rw [← hkeyword]
        rw [List.cons_append] at hne ⊢
        simp only [afterSection?, halpha, Bool.not_true, Bool.false_eq_true, if_false, hne]
      by_cases hmarked : sectionKeywords.contains
          (((c :: r).takeWhile isKeywordChar).map Char.toLower) = true
      · refine ⟨Text.search sectionEnd? (c :: r), fun z markup => .inr ⟨_, ?_,
          settlesRest_search (sectionEnd?_append_tag · z) (fun h => sectionEnd?_isSuffix h) (c :: r)⟩,
          fun rest h z markup => ?_⟩
        · rw [hsection, if_pos hmarked]
        · rw [hsection, if_pos hmarked, search_append_tag_of_some (sectionEnd?_append_tag · z) h]
      · by_cases hconditional : conditionalKeywords.contains
            (((c :: r).takeWhile isKeywordChar).map Char.toLower) = true
        · refine ⟨Text.search conditionalEnd? (c :: r), fun z markup => .inr ⟨_, ?_,
            settlesRest_search (conditionalEnd?_append_tag · z) (fun h => conditionalEnd?_isSuffix h)
              (c :: r)⟩, fun rest h z markup => ?_⟩
          · rw [hsection, if_neg hmarked, if_pos hconditional]
          · rw [hsection, if_neg hmarked, if_pos hconditional,
              search_append_tag_of_some (conditionalEnd?_append_tag · z) h]
        · refine ⟨none, fun z markup => .inl ?_, fun rest h => nomatch h⟩
          rw [hsection, if_neg hmarked, if_neg hconditional]
          exact ⟨_, rfl⟩

theorem exists_settlesRest_afterDeclaration? (s : Text) :
    ∃ found, (∀ z, (∃ e, afterDeclaration? (s ++ '<' :: z) = .error e) ∨
        ∃ rest, afterDeclaration? (s ++ '<' :: z) = .ok rest ∧ SettlesRest found z rest) ∧
      ∀ rest, found = some rest → ∀ z,
        afterDeclaration? (s ++ '<' :: z) = .ok (some (rest ++ '<' :: z)) := by
  have hother (h : ∀ z, afterDeclaration? (s ++ '<' :: z) =
      .ok (Text.after? '>' (s ++ '<' :: z))) : ∃ found,
        (∀ z, (∃ e, afterDeclaration? (s ++ '<' :: z) = .error e) ∨
          ∃ rest, afterDeclaration? (s ++ '<' :: z) = .ok rest ∧ SettlesRest found z rest) ∧
        ∀ rest, found = some rest → ∀ z,
          afterDeclaration? (s ++ '<' :: z) = .ok (some (rest ++ '<' :: z)) := by
    refine ⟨_, fun z => .inr ⟨_, h z, settlesRest_after? (by decide) s z⟩, fun rest hrest z => ?_⟩
    rw [h, after?_append_tag (by decide), hrest]
    rfl
  cases s with
  | nil => exact hother fun z => rfl
  | cons c r =>
    by_cases hbracket : c = '['
    · subst hbracket
      obtain ⟨found, hfound, hfirm⟩ := exists_settlesRest_afterSection? r
      exact ⟨found, fun z => hfound z _, fun rest h z => hfirm rest h z _⟩
    · by_cases hdash : c = '-'
      · subst hdash
        cases r with
        | nil => exact hother fun z => rfl
        | cons d t =>
          by_cases hdash : d = '-'
          · subst hdash
            exact ⟨_, fun z => .inr ⟨_, rfl, settlesRest_search (commentEnd?_append_tag · z)
              (fun h => commentEnd?_isSuffix h) t⟩, fun rest h z =>
                congrArg Except.ok (search_append_tag_of_some (commentEnd?_append_tag · z) h)⟩
          · exact hother fun z => by simp [afterDeclaration?, hdash]
      · exact hother fun z => by simp [afterDeclaration?, hdash, hbracket]

-- ---------------------------------------------------------------------------
-- Start tags that are read
-- ---------------------------------------------------------------------------

/-- Whether a start tag stands at the front of the text whose part behind `<` is `z`. -/
def BeginsTag (z : Text) : Prop :=
  (∃ c r, z = c :: r ∧ c.isAlpha = true) ∧
    ∃ tag rest, startStep? z = .ok (some (.token (.start tag) rest))

theorem markupStep?_alpha {c : Char} (hc : c.isAlpha = true) (r : Text) :
    markupStep? (c :: r) = startStep? (c :: r) := by
  unfold markupStep?
  exact if_pos hc

/-- What a pass does where markup is not finished. -/
def unread (last : Bool) (s : Text) : Step := if last then unfinishedStep s else .stop [] ('<' :: s)

theorem step_markup (last : Bool) (s : Text) :
    step last none ('<' :: s) = (markupStep? s).map (·.getD (unread last s)) := by
  unfold step plainStep unread
  cases h : markupStep? s with
  | error e => simp [h, Except.map]
  | ok found => cases found <;> simp [h, Except.map]

theorem BeginsTag.step {z : Text} (h : BeginsTag z) :
    ∃ tag rest, ∀ last, step last none ('<' :: z) = .ok (.token (.start tag) rest) := by
  obtain ⟨⟨c, r, rfl, hc⟩, tag, rest, hstep⟩ := h
  refine ⟨tag, rest, fun last => ?_⟩
  rw [step_markup, markupStep?_alpha hc, hstep]
  rfl

theorem not_start_unread (last : Bool) (s : Text) (tag : StartTag) (rest : Text) :
    unread last s ≠ .token (.start tag) rest := by
  intro h
  unfold unread unfinishedStep at h
  split at h
  · split at h
    · cases h
    · split at h <;> cases h
  · cases h

theorem not_start_ampersandStep (last : Bool) (s : Text) (tag : StartTag) (rest : Text) :
    ampersandStep last s ≠ .token (.start tag) rest := by
  intro h
  unfold ampersandStep at h
  split at h
  · split at h
    · cases h
    · split at h <;> cases h
  · split at h
    · cases h
    · split at h
      · cases h
      · split at h
        · split at h <;> cases h
        · cases h

/-- Start tags begin with a letter. -/
theorem alpha_of_markupStep? {s rest : Text} {tag : StartTag}
    (h : markupStep? s = .ok (some (.token (.start tag) rest))) :
    ∃ c r, s = c :: r ∧ c.isAlpha = true := by
  unfold markupStep? at h
  split at h
  · cases h
  · rename_i c r
    split at h
    · rename_i hc
      exact ⟨c, r, rfl, hc⟩
    · split at h
      · obtain ⟨rest', -, hstep⟩ := Option.map_eq_some_iff.1 (Except.ok.inj h)
        simp only at hstep
        split at hstep <;> cases hstep
      · split at h
        · obtain ⟨rest', -, hstep⟩ := Option.map_eq_some_iff.1 (Except.ok.inj h)
          cases hstep
        · split at h
          · obtain ⟨found, -, hfound⟩ := exists_of_map_eq_ok h
            obtain ⟨rest', -, hstep⟩ := Option.map_eq_some_iff.1 hfound
            cases hstep
          · cases h

theorem beginsTag_of_step {last : Bool} {raw : Option RawElement} {s rest : Text} {tag : StartTag}
    (h : step last raw s = .ok (.token (.start tag) rest)) :
    raw = none ∧ ∃ z, s = '<' :: z ∧ BeginsTag z := by
  cases raw with
  | some raw =>
    have h : rawStep raw s = .token (.start tag) rest := Except.ok.inj h
    unfold rawStep at h
    split at h
    · cases h
    · split at h
      · cases h
      · split at h
        · cases h
        · split at h <;> cases h
  | none =>
    refine ⟨rfl, ?_⟩
    cases s with
    | nil => cases h
    | cons c z =>
      by_cases hc : c = '<'
      · subst hc
        refine ⟨z, rfl, ?_⟩
        rw [step_markup] at h
        obtain ⟨found, hfound, hstep⟩ := exists_of_map_eq_ok h
        cases found with
        | none => exact absurd hstep (not_start_unread last z tag rest)
        | some found =>
          have hfound : markupStep? z = .ok (some (.token (.start tag) rest)) :=
            hfound.trans (congrArg (Except.ok ∘ some) hstep)
          obtain ⟨d, r, rfl, hd⟩ := alpha_of_markupStep? hfound
          exact ⟨⟨d, r, rfl, hd⟩, tag, rest, (markupStep?_alpha hd r).symm.trans hfound⟩
      · have h : plainStep last (c :: z) = .ok (.token (.start tag) rest) := h
        rw [plainStep, if_neg hc] at h
        split at h
        · exact absurd (Except.ok.inj h) (not_start_ampersandStep last z tag rest)
        · cases h

/-- What follows a start tag stands behind the end of the tag. -/
theorem suffix_of_startStep? {s rest : Text} {tag : StartTag}
    (h : startStep? s = .ok (some (.token (.start tag) rest))) :
    '>' :: rest <:+ (StartTag.scanHead s).2 := by
  rw [startStep?_eq] at h
  rcases headStep?_cases s (StartTag.scanHead s).1 (StartTag.scanHead s).2 with
    ⟨e, h'⟩ | h' | ⟨tag', rest', h', hsuffix, -⟩ | ⟨c, r, -, -, -, -, h'⟩
  · cases h.symm.trans h'
  · cases h.symm.trans h'
  · cases h.symm.trans h'
    exact hsuffix
  · cases h.symm.trans h'

theorem BeginsTag.mem {z : Text} (h : BeginsTag z) : '>' ∈ z := by
  obtain ⟨-, tag, rest, hstep⟩ := h
  have hsuffix := (suffix_of_startStep? hstep).trans (StartTag.scanHead_isSuffix z)
  exact hsuffix.subset List.mem_cons_self

-- ---------------------------------------------------------------------------
-- Places that are never come to
-- ---------------------------------------------------------------------------

/-- Whether no scan that goes on from a place comes to the tag whose text behind `<` is `z`. -/
def Lost (c : Cursor) (z : Text) : Prop :=
  ∀ tokens last raw, ¬ Reads c tokens ⟨last, raw, '<' :: z⟩

section Lost

variable {last : Bool} {raw : Option RawElement} {s z : Text}

theorem lost_of_error {e : ScanError} (hs : s ≠ '<' :: z) (h : step last raw s = .error e) :
    Lost ⟨last, raw, s⟩ z := by
  intro tokens last' raw' hreads
  cases hreads with
  | refl => exact hs rfl
  | token hstep _ => cases h.symm.trans hstep
  | again hstep _ => cases h.symm.trans hstep

theorem lost_of_token {t : Token} {rest : Text} (hs : s ≠ '<' :: z)
    (h : step last raw s = .ok (.token t rest)) (hle : rest.length ≤ z.length) :
    Lost ⟨last, raw, s⟩ z := by
  intro tokens last' raw' hreads
  cases hreads with
  | refl => exact hs rfl
  | token hstep tail =>
    cases h.symm.trans hstep
    exact absurd (Nat.le_trans tail.length_le hle) (Nat.not_succ_le_self _)
  | again hstep _ => cases h.symm.trans hstep

/-- A pass that stops where the other one stops as well goes no further. -/
theorem lost_of_stop (hs : s ≠ '<' :: z)
    (h : ∀ last, ∃ skipped, step last raw s = .ok (.stop skipped s)) : Lost ⟨last, raw, s⟩ z := by
  have hlast : Lost ⟨true, raw, s⟩ z := by
    intro tokens last' raw' hreads
    obtain ⟨skipped, hstop⟩ := h true
    cases hreads with
    | refl => exact hs rfl
    | token hstep _ => cases hstop.symm.trans hstep
  intro tokens last' raw' hreads
  cases last with
  | true => exact hlast tokens last' raw' hreads
  | false =>
    obtain ⟨skipped, hstop⟩ := h false
    cases hreads with
    | refl => exact hs rfl
    | token hstep _ => cases hstop.symm.trans hstep
    | again hstep tail =>
      cases hstop.symm.trans hstep
      exact hlast _ _ _ tail

end Lost

theorem append_tag_ne {s : Text} (h : s ≠ []) (z : Text) : s ++ '<' :: z ≠ '<' :: z := by
  intro heq
  have hlength := congrArg List.length heq
  rw [List.length_append] at hlength
  exact h (List.length_eq_zero_iff.1 (Nat.add_eq_right.1 hlength))

-- ---------------------------------------------------------------------------
-- One step
-- ---------------------------------------------------------------------------

/-- Whether a step at `s` comes out as `found` in every text that goes on with a start tag. -/
def Firm (last : Bool) (raw : Option RawElement) (s : Text) (found : Step) : Prop :=
  ∀ z, BeginsTag z → step last raw (s ++ '<' :: z) = .ok (found.append ('<' :: z))

/-- Whether a step at `s` comes out as `found` in every text that goes on with a start tag, unless
the tag is lost; a start tag that is found at `s` may also stay unread. Any other token that the
first pass finds is found in front of every tag. -/
structure SettlesStep (last : Bool) (raw : Option RawElement) (s : Text) (found : Step) : Prop where
  settles : ∀ z, BeginsTag z →
    step last raw (s ++ '<' :: z) = .ok (found.append ('<' :: z)) ∨
    Lost ⟨last, raw, s ++ '<' :: z⟩ z ∨
    ∃ tag rest t, found = .token (.start tag) rest ∧ s = '<' :: t ∧
      step last raw (s ++ '<' :: z) = .ok ((unread last t).append ('<' :: z))
  firm : last = false → ∀ t rest, found = .token t rest → (∃ tag, t = .start tag) ∨
    Firm last raw s found

theorem Firm.settlesStep {last : Bool} {raw : Option RawElement} {s : Text} {found : Step}
    (h : Firm last raw s found) : SettlesStep last raw s found :=
  ⟨fun z hz => .inl (h z hz), fun _ _ _ _ => .inr h⟩

theorem unread_ne_token {last : Bool} (h : last = false) (s : Text) (t : Token) (rest : Text) :
    unread last s ≠ .token t rest := by
  subst h
  exact fun heq => nomatch heq

/-- Unfinished markup in front of a tag is passed over alike, or the tag is lost. -/
theorem step_unread {last : Bool} {s z : Text} (hz : BeginsTag z)
    (h : markupStep? (s ++ '<' :: z) = .ok none) :
    step last none ('<' :: s ++ '<' :: z) = .ok ((unread last s).append ('<' :: z)) ∨
      Lost ⟨last, none, '<' :: s ++ '<' :: z⟩ z := by
  have hstep : step last none ('<' :: s ++ '<' :: z) = .ok (unread last (s ++ '<' :: z)) := by
    rw [List.cons_append, step_markup, h]
    rfl
  cases last with
  | false => exact .inl hstep
  | true =>
    have hunread (t : Text) : unread true t = unfinishedStep t := rfl
    have hafter := after?_append_tag (show '>' ≠ '<' by decide) s z
    rw [hunread, unfinishedStep] at hstep
    rw [hunread, unfinishedStep]
    cases hfound : Text.after? '>' s with
    | some rest =>
      rw [hfound] at hafter
      rw [hafter] at hstep
      exact .inl (hstep.trans (congrArg Except.ok (Step.append_inert ('<' :: s) rest _)))
    | none =>
      obtain ⟨rest, hrest⟩ := exists_after?_of_mem hz.mem
      rw [hfound, hrest] at hafter
      rw [hafter] at hstep
      exact .inr (lost_of_token (append_tag_ne (List.cons_ne_nil _ _) z) hstep
        (length_after?_le hrest))

/-- A step that a search decides, in a text that goes on with a tag. -/
theorem settlesStep_of_search {last : Bool} {s : Text} {found : Option Text}
    (h : ∀ z, BeginsTag z → (∃ e, markupStep? (s ++ '<' :: z) = .error e) ∨
      ∃ rest, markupStep? (s ++ '<' :: z) =
        .ok (rest.map (Step.inert ('<' :: (s ++ '<' :: z)))) ∧ SettlesRest found z rest)
    (hfound : ∀ rest, found = some rest → ∀ z, markupStep? (s ++ '<' :: z) =
      .ok (some (Step.inert ('<' :: (s ++ '<' :: z)) (rest ++ '<' :: z)))) :
    ∃ step, SettlesStep last none ('<' :: s) step := by
  have hne (z : Text) := append_tag_ne (List.cons_ne_nil '<' s) z
  cases found with
  | none =>
    refine ⟨unread last s, fun z hz => ?_, fun hlast t rest heq => ?_⟩
    · rcases h z hz with ⟨e, herror⟩ | ⟨rest, hstep, rfl | ⟨r, rfl, hle⟩⟩
      · exact .inr (.inl (lost_of_error (hne z) (by rw [List.cons_append, step_markup, herror]; rfl)))
      · exact (step_unread hz hstep).imp_right .inl
      · exact .inr (.inl
          (lost_of_token (hne z) (by rw [List.cons_append, step_markup, hstep]; rfl) hle))
    · exact absurd heq (unread_ne_token hlast s t rest)
  | some rest =>
    have hfirm : Firm last none ('<' :: s) (Step.inert ('<' :: s) rest) := by
      intro z hz
      rw [List.cons_append, step_markup, hfound rest rfl]
      exact congrArg Except.ok (Step.append_inert ('<' :: s) rest _)
    exact ⟨_, hfirm.settlesStep⟩

/-- A start tag in front of a tag. -/
theorem exists_settlesStep_startTag (last : Bool) {c : Char} (hc : c.isAlpha = true) (r : Text) :
    ∃ step, SettlesStep last none ('<' :: c :: r) step := by
  obtain ⟨found, hfound, hothers⟩ := exists_settles_startStep? (c :: r)
  have hne (z : Text) := append_tag_ne (List.cons_ne_nil '<' (c :: r)) z
  have hmarkup (z : Text) : markupStep? (c :: r ++ '<' :: z) = startStep? (c :: r ++ '<' :: z) :=
    markupStep?_alpha hc (r ++ '<' :: z)
  have hstep {z : Text} {st : Except ScanError (Option Step)}
      (h : startStep? (c :: r ++ '<' :: z) = st) : step last none ('<' :: c :: r ++ '<' :: z) =
        st.map (·.getD (unread last (c :: r ++ '<' :: z))) := by
    rw [List.cons_append, step_markup, hmarkup, h]
  refine ⟨found.getD (unread last (c :: r)), fun z hz => ?_, fun hlast t rest heq => ?_⟩
  · rcases hfound z with ⟨e, h⟩ | h | ⟨t, rest, h, hle⟩ | ⟨h, tag, rest, rfl⟩
    · exact .inr (.inl (lost_of_error (hne z) (hstep h)))
    · cases found with
      | none => exact (step_unread hz ((hmarkup z).trans h)).imp_right .inl
      | some found => exact .inl (hstep h)
    · exact .inr (.inl (lost_of_token (hne z) (hstep h) hle))
    · rcases @step_unread last _ _ hz ((hmarkup z).trans h) with h | h
      · exact .inr (.inr ⟨tag, rest, c :: r, rfl, rfl, h⟩)
      · exact .inr (.inl h)
  · cases found with
    | none => exact absurd heq (unread_ne_token hlast (c :: r) t rest)
    | some st =>
      rcases hothers st rfl with ⟨tag, rest', rfl⟩ | hfirm
      · cases heq
        exact .inl ⟨tag, rfl⟩
      · exact .inr fun z _ => hstep (hfirm z)

theorem plainCloseName?_append_tag (s z : Text) :
    plainCloseName? (s ++ '<' :: z) = plainCloseName? s := by
  unfold plainCloseName?
  simp only [dropWhile_append_tag (show Text.isBlank '<' = false by decide),
    dropWhile_append_tag (show isPlainNameChar '<' = false by decide),
    takeWhile_append_tag (show isPlainNameChar '<' = false by decide),
    blanksThenClose?_append_tag, Option.isSome_map]
  cases s.dropWhile Text.isBlank with
  | nil => rfl
  | cons c r => rfl

theorem closeName?_append_tag {s : Text} (h : '>' ∈ s) (z : Text) :
    closeName? (s ++ '<' :: z) = closeName? s := by
  have hname : s.dropWhile StartTag.isNameChar ≠ [] := by
    intro hnil
    have hsplit := List.takeWhile_append_dropWhile (p := StartTag.isNameChar) (l := s)
    have hall := List.all_takeWhile (p := StartTag.isNameChar) (l := s)
    rw [hnil, List.append_nil] at hsplit
    rw [hsplit] at hall
    exact absurd (List.all_eq_true.1 hall '>' h) (by decide)
  unfold closeName?
  rw [plainCloseName?_append_tag, takeWhile_append_of_ne_nil hname]
  cases s with
  | nil => cases h
  | cons c r => rfl

theorem mem_of_after? {c : Char} {s rest : Text} (h : Text.after? c s = some rest) : c ∈ s :=
  (List.dropWhile_suffix _).subset (dropWhile_of_after? h ▸ List.mem_cons_self)

/-- An end tag in front of a tag. -/
theorem exists_settlesStep_endTag (last : Bool) (r : Text) :
    ∃ step, SettlesStep last none ('<' :: '/' :: r) step := by
  have hne (z : Text) := append_tag_ne (List.cons_ne_nil '<' ('/' :: r)) z
  have hstep (z : Text) : step last none ('<' :: '/' :: r ++ '<' :: z) =
      .ok ((closeStep? (r ++ '<' :: z)).getD (unread last ('/' :: r ++ '<' :: z))) := by
    rw [List.cons_append, step_markup]
    rfl
  have hafter := after?_append_tag (show '>' ≠ '<' by decide) r
  cases hfound : Text.after? '>' r with
  | some rest =>
    refine ⟨(closeStep? r).getD (unread last ('/' :: r)), Firm.settlesStep fun z hz => ?_⟩
    have hupTo : Text.upTo ('<' :: '/' :: (r ++ '<' :: z)) (rest ++ '<' :: z) =
        Text.upTo ('<' :: '/' :: r) rest := upTo_append_append ('<' :: '/' :: r) rest _
    rw [hstep]
    simp only [closeStep?, hafter, hfound, Option.map_some, Option.some_or, Option.getD_some,
      closeName?_append_tag (mem_of_after? hfound), hupTo]
    cases closeName? r <;> rfl
  | none =>
    refine ⟨unread last ('/' :: r), fun z hz => .inr (.inl ?_), fun hlast t rest heq =>
      absurd heq (unread_ne_token hlast ('/' :: r) t rest)⟩
    obtain ⟨rest, hrest⟩ := exists_after?_of_mem hz.mem
    have hclose : ∃ t, closeStep? (r ++ '<' :: z) = some (.token t rest) := by
      simp only [closeStep?, hafter, hfound, hrest, Option.map_none, Option.none_or,
        Option.map_some]
      split
      · exact ⟨_, rfl⟩
      · exact ⟨_, rfl⟩
    obtain ⟨t, ht⟩ := hclose
    refine lost_of_token (t := t) (hne z) ?_ (length_after?_le hrest)
    rw [hstep, ht]
    rfl

/-- A processing instruction in front of a tag. -/
theorem exists_settlesStep_instruction (last : Bool) (r : Text) :
    ∃ step, SettlesStep last none ('<' :: '?' :: r) step := by
  have hmarkup (z : Text) : markupStep? ('?' :: r ++ '<' :: z) =
      .ok ((Text.after? '>' (r ++ '<' :: z)).map (Step.inert ('<' :: ('?' :: r ++ '<' :: z)))) := rfl
  refine settlesStep_of_search (fun z _ => .inr ⟨_, rfl, settlesRest_after? (by decide) r z⟩)
    fun rest hrest z => ?_
  rw [hmarkup, after?_append_tag (by decide), hrest]
  rfl

/-- A comment or a declaration in front of a tag. -/
theorem exists_settlesStep_declaration (last : Bool) (r : Text) :
    ∃ step, SettlesStep last none ('<' :: '!' :: r) step := by
  obtain ⟨found, hfound, hfirm⟩ := exists_settlesRest_afterDeclaration? r
  have hmarkup (z : Text) : markupStep? ('!' :: r ++ '<' :: z) =
      (afterDeclaration? (r ++ '<' :: z)).map
        (·.map (Step.inert ('<' :: ('!' :: r ++ '<' :: z)))) := rfl
  refine @settlesStep_of_search last _ found (fun z _ => ?_) fun rest hrest z => ?_
  · rw [hmarkup]
    rcases hfound z with ⟨e, h⟩ | ⟨rest, h, hsettles⟩
    · rw [h]
      exact .inl ⟨e, rfl⟩
    · rw [h]
      exact .inr ⟨rest, rfl, hsettles⟩
  · rw [hmarkup, hfirm rest hrest z]
    rfl

/-- Markup of any kind in front of a tag. -/
theorem exists_settlesStep_markup (last : Bool) (s : Text) :
    ∃ step, SettlesStep last none ('<' :: s) step := by
  cases s with
  | nil =>
    refine ⟨.inert ['<'] [], Firm.settlesStep fun z _ => ?_⟩
    rw [List.cons_append, step_markup]
    exact congrArg Except.ok (Step.append_inert ['<'] [] _)
  | cons c r =>
    cases hc : c.isAlpha with
    | true => exact exists_settlesStep_startTag last hc r
    | false =>
      by_cases hslash : c = '/'
      · exact hslash ▸ exists_settlesStep_endTag last r
      by_cases hquestion : c = '?'
      · exact hquestion ▸ exists_settlesStep_instruction last r
      by_cases hbang : c = '!'
      · exact hbang ▸ exists_settlesStep_declaration last r
      refine ⟨.inert ('<' :: c :: r) (c :: r), Firm.settlesStep fun z _ => ?_⟩
      rw [List.cons_append, step_markup, List.cons_append, markupStep?]
      simp only [hc, hslash, hquestion, hbang, if_false, Bool.false_eq_true]
      exact congrArg Except.ok (Step.append_inert ('<' :: c :: r) (c :: r) _)

theorem skipSemicolon_append_tag (s z : Text) :
    CharRef.skipSemicolon (s ++ '<' :: z) = CharRef.skipSemicolon s ++ '<' :: z := by
  cases s with
  | nil => rfl
  | cons c r =>
    by_cases hc : c = ';'
    · subst hc
      rfl
    · simp [CharRef.skipSemicolon, hc]

/-- What a text in front of a tag begins with does not depend on what is behind the tag. -/
theorem exists_head_append_tag (s : Text) : ∃ d, ∀ z, ∃ t, s ++ '<' :: z = d :: t := by
  cases s with
  | nil => exact ⟨'<', fun z => ⟨z, rfl⟩⟩
  | cons d t => exact ⟨d, fun z => ⟨t ++ '<' :: z, rfl⟩⟩

section Reference

variable {c : Char}

theorem exists_afterNumber?_digit (hdigit : c.isDigit = true) (r : Text) :
    ∃ found : Option Text, ∀ z, afterNumber? (c :: (r ++ '<' :: z)) = found.map (· ++ '<' :: z) := by
  have hdigits (z : Text) : (c :: (r ++ '<' :: z)).dropWhile Char.isDigit =
      (c :: r).dropWhile Char.isDigit ++ '<' :: z :=
    dropWhile_append_tag (by decide) (c :: r) z
  obtain ⟨d, hd⟩ := exists_head_append_tag ((c :: r).dropWhile Char.isDigit)
  cases hhex : Text.isHexDigit d with
  | true =>
    refine ⟨none, fun z => ?_⟩
    obtain ⟨t, ht⟩ := hd z
    simp only [afterNumber?, hdigit, if_true, hdigits, ht, hhex]
    rfl
  | false =>
    refine ⟨some (CharRef.skipSemicolon ((c :: r).dropWhile Char.isDigit)), fun z => ?_⟩
    obtain ⟨t, ht⟩ := hd z
    simp only [afterNumber?, hdigit, if_true, hdigits, ht, hhex, Bool.false_eq_true, if_false]
    rw [← ht, skipSemicolon_append_tag]
    rfl

theorem exists_afterNumber?_not_digit (hdigit : c.isDigit = false) (r : Text) :
    ∃ found : Option Text, ∀ z, afterNumber? (c :: (r ++ '<' :: z)) = found.map (· ++ '<' :: z) := by
  have hhead (z : Text) : ((r ++ '<' :: z).head?.map Text.isHexDigit).getD false =
      (r.head?.map Text.isHexDigit).getD false := by
    cases r with
    | nil => exact (by decide : Text.isHexDigit '<' = false)
    | cons d t => rfl
  by_cases hex : (c = 'x' ∨ c = 'X') ∧ (r.head?.map Text.isHexDigit).getD false = true
  · have hdigits (z : Text) : (r ++ '<' :: z).dropWhile Text.isHexDigit =
        r.dropWhile Text.isHexDigit ++ '<' :: z := dropWhile_append_tag (by decide) r z
    obtain ⟨d, hd⟩ := exists_head_append_tag (r.dropWhile Text.isHexDigit)
    refine ⟨some (CharRef.skipSemicolon (r.dropWhile Text.isHexDigit)), fun z => ?_⟩
    obtain ⟨t, ht⟩ := hd z
    simp only [afterNumber?, hdigit, Bool.false_eq_true, if_false, hex.1, hhead, hex.2, and_self,
      if_true, hdigits, ht]
    rw [← ht, skipSemicolon_append_tag]
    rfl
  · refine ⟨none, fun z => ?_⟩
    simp only [afterNumber?, hdigit, Bool.false_eq_true, if_false, hhead, hex]
    rfl

/-- A reference by number in front of a tag ends there. -/
theorem exists_afterNumber? (s : Text) :
    ∃ found : Option Text, ∀ z, afterNumber? (s ++ '<' :: z) = found.map (· ++ '<' :: z) := by
  cases s with
  | nil => exact ⟨none, fun z => rfl⟩
  | cons c r =>
    cases hdigit : c.isDigit with
    | true => exact exists_afterNumber?_digit hdigit r
    | false => exact exists_afterNumber?_not_digit hdigit r

theorem ampersandStep_of_ne (last : Bool) (hnumber : c ≠ '#') (t : Text) :
    ampersandStep last (c :: t) =
      (afterEntity? (c :: t)).elim
        (if c.isAlpha then
          if last && t.isEmpty then .stop ['&'] (c :: t) else .stop [] ('&' :: c :: t)
        else .inert ('&' :: c :: t) (c :: t))
        fun rest => .inert ('&' :: c :: t) rest := by
  unfold ampersandStep
  split
  · rename_i heq
    cases heq
    exact absurd rfl hnumber
  · cases afterEntity? (c :: t) <;> rfl

/-- A reference by name in front of a tag ends there. -/
theorem exists_ampersandStep_name (last : Bool) (hnumber : c ≠ '#') (r : Text) :
    ∃ rest, ∀ z, ampersandStep last (c :: r ++ '<' :: z) =
      .inert ('&' :: (c :: r ++ '<' :: z)) (rest ++ '<' :: z) := by
  cases halpha : c.isAlpha with
  | false =>
    refine ⟨c :: r, fun z => ?_⟩
    rw [List.cons_append, ampersandStep_of_ne last hnumber]
    simp only [afterEntity?, List.head?_cons, Option.map_some, Option.getD_some, halpha,
      Bool.false_eq_true, if_false]
    rfl
  | true =>
    have hname (z : Text) : (c :: (r ++ '<' :: z)).dropWhile isEntityChar =
        (c :: r).dropWhile isEntityChar ++ '<' :: z :=
      dropWhile_append_tag (by decide) (c :: r) z
    obtain ⟨d, hd⟩ := exists_head_append_tag ((c :: r).dropWhile isEntityChar)
    refine ⟨CharRef.skipSemicolon ((c :: r).dropWhile isEntityChar), fun z => ?_⟩
    obtain ⟨t, ht⟩ := hd z
    rw [List.cons_append, ampersandStep_of_ne last hnumber]
    simp only [afterEntity?, List.head?_cons, Option.map_some, Option.getD_some, halpha, if_true,
      hname, ht]
    rw [← ht, skipSemicolon_append_tag]
    rfl

end Reference

/-- A reference in front of a tag ends there; one by number that is not well-formed ends the pass,
and where no semicolon follows it, the scan. -/
theorem exists_settlesStep_reference (last : Bool) (s : Text) :
    ∃ step, SettlesStep last none ('&' :: s) step := by
  have hne (z : Text) := append_tag_ne (List.cons_ne_nil '&' s) z
  have hstep (last : Bool) (z : Text) : step last none ('&' :: s ++ '<' :: z) =
      .ok (ampersandStep last (s ++ '<' :: z)) := rfl
  have hinert (rest : Text) (h : ∀ z, ampersandStep last (s ++ '<' :: z) =
      .inert ('&' :: (s ++ '<' :: z)) (rest ++ '<' :: z)) :
      ∃ step, SettlesStep last none ('&' :: s) step := by
    refine ⟨.inert ('&' :: s) rest, Firm.settlesStep fun z _ => ?_⟩
    rw [hstep, h]
    exact congrArg Except.ok (Step.append_inert ('&' :: s) rest _)
  cases s with
  | nil => exact hinert [] fun z => rfl
  | cons c r =>
    by_cases hnumber : c = '#'
    · subst hnumber
      obtain ⟨found, hfound⟩ := exists_afterNumber? r
      cases found with
      | some rest =>
        refine hinert rest fun z => ?_
        simp only [List.cons_append, ampersandStep, hfound, Option.map_some]
      | none =>
        refine ⟨.stop ['&', '#'] r, fun z _ => ?_, fun _ _ _ heq => by cases heq⟩
        by_cases hsemicolon : (r ++ '<' :: z).contains ';' = true
        · refine .inl ?_
          rw [hstep]
          simp only [List.cons_append, ampersandStep, hfound, Option.map_none, hsemicolon, if_true]
          rfl
        · refine .inr (.inl (lost_of_stop (hne z) fun last => ⟨[], ?_⟩))
          rw [hstep]
          simp only [List.cons_append, ampersandStep, hfound, Option.map_none, hsemicolon]
          rfl
    · obtain ⟨rest, hrest⟩ := exists_ampersandStep_name last hnumber r
      exact hinert rest hrest

/-- Character data in front of a tag ends there. -/
theorem exists_settlesStep_plain (last : Bool) {c : Char} (hless : c ≠ '<') (hamp : c ≠ '&')
    (r : Text) : ∃ step, SettlesStep last none (c :: r) step := by
  refine ⟨.inert (c :: r) (r.dropWhile isPlain), Firm.settlesStep fun z _ => ?_⟩
  have hstep : step last none (c :: r ++ '<' :: z) =
      .ok (.inert (c :: (r ++ '<' :: z)) ((r ++ '<' :: z).dropWhile isPlain)) := by
    simp [step, plainStep, hless, hamp]
  rw [hstep, dropWhile_append_tag (by decide)]
  exact congrArg Except.ok (Step.append_inert (c :: r) _ _)

theorem stripWord?_append_tag {word : Text} (hword : ∀ w ∈ word, Text.sameLetter w '<' = false)
    (s z : Text) :
    Text.stripWord? word (s ++ '<' :: z) = (Text.stripWord? word s).map (· ++ '<' :: z) := by
  induction word generalizing s with
  | nil => rfl
  | cons w ws ih =>
    cases s with
    | nil => simp [Text.stripWord?, hword w List.mem_cons_self]
    | cons c r =>
      rw [List.cons_append, Text.stripWord?, Text.stripWord?]
      split
      · exact ih (fun w hw => hword w (List.mem_cons_of_mem _ hw)) r
      · rfl

theorem startsRawEnd_append_tag (raw : RawElement) {s : Text} (hs : s ≠ []) (z : Text) :
    startsRawEnd raw (s ++ '<' :: z) = startsRawEnd raw s := by
  have hnone : raw.name.any (Text.sameLetter · '<') = false := by
    cases raw <;> decide
  have hname : ∀ w ∈ raw.name, Text.sameLetter w '<' = false := fun w hw =>
    Bool.eq_false_iff.2 (List.any_eq_false.1 hnone w hw)
  obtain ⟨c, r, rfl⟩ := List.exists_cons_of_ne_nil hs
  by_cases hc : c = '<'
  · subst hc
    cases r with
    | nil => rfl
    | cons d t =>
      by_cases hd : d = '/'
      · subst hd
        simp only [List.cons_append, startsRawEnd,
          dropWhile_append_tag (show Text.isBlank '<' = false by decide),
          stripWord?_append_tag hname]
        cases Text.stripWord? raw.name (t.dropWhile Text.isBlank) with
        | none => rfl
        | some rest => simp [blanksThenClose?_append_tag]
      · simp [startsRawEnd, hd]
  · simp [startsRawEnd, hc]

theorem rawEnd?_append_tag (raw : RawElement) {z : Text} (hz : BeginsTag z) (s : Text) :
    rawEnd? raw (s ++ '<' :: z) =
      ((rawEnd? raw s).map (· ++ '<' :: z)).or (rawEnd? raw z) := by
  refine search_append_tag (fun t => ?_) s
  cases t with
  | nil =>
    obtain ⟨⟨c, r, rfl, hc⟩, -⟩ := hz
    have hslash : c ≠ '/' := fun h => absurd (h ▸ hc) (by decide)
    simp [startsRawEnd, hslash]
  | cons d t =>
    rw [startsRawEnd_append_tag raw (List.cons_ne_nil d t)]
    split <;> rfl

theorem startsRawEnd_eq_true {raw : RawElement} {s : Text} (h : startsRawEnd raw s = true) :
    ∃ t, s = '<' :: '/' :: t ∧ '>' ∈ t := by
  unfold startsRawEnd at h
  split at h
  · rename_i t
    split at h
    · rename_i rest hword
      refine ⟨t, rfl, ?_⟩
      obtain ⟨left, hleft⟩ := Option.isSome_iff_exists.1 h
      unfold blanksThenClose? at hleft
      split at hleft
      · rename_i left' hdrop
        have hmem : '>' ∈ rest := (List.dropWhile_suffix _).subset (hdrop ▸ List.mem_cons_self)
        exact (List.dropWhile_suffix _).subset ((Text.stripWord?_isSuffix hword).subset hmem)
      · cases hleft
    · cases h
  · cases h

theorem rawEnd?_eq_some {raw : RawElement} {s found : Text} (h : rawEnd? raw s = some found) :
    startsRawEnd raw found = true := by
  unfold rawEnd? at h
  induction s with
  | nil => cases h
  | cons c r ih =>
    rw [Text.search, Option.or_eq_some_iff] at h
    rcases h with h | ⟨-, h⟩
    · split at h
      · rename_i hstarts
        exact Option.some.inj h ▸ hstarts
      · cases h
    · exact ih h

/-- Raw text whose end is found in front of a tag is read without the tag. -/
theorem rawStep_append_tag {raw : RawElement} {s found z : Text} (hfound : rawEnd? raw s = some found)
    (hend : rawEnd? raw (s ++ '<' :: z) = some (found ++ '<' :: z)) :
    rawStep raw (s ++ '<' :: z) = (rawStep raw s).append ('<' :: z) := by
  simp only [rawStep, hend, hfound, List.length_append, Nat.add_lt_add_iff_right]
  split
  · exact Step.append_inert s found _
  · rename_i hshort
    have hsame : found = s := (rawEnd?_isSuffix hfound).eq_of_length
      (Nat.le_antisymm (rawEnd?_isSuffix hfound).length_le (Nat.le_of_not_lt hshort))
    subst hsame
    obtain ⟨t, rfl, hmem⟩ := startsRawEnd_eq_true (rawEnd?_eq_some hfound)
    obtain ⟨rest, hrest⟩ := exists_after?_of_mem hmem
    have hdrop := dropWhile_of_after? hrest
    have hclosed : t.dropWhile (· ≠ '>') ≠ [] := hdrop ▸ List.cons_ne_nil '>' rest
    have hname := plainCloseName?_append_tag t z
    have hupTo : Text.upTo ('<' :: '/' :: (t ++ '<' :: z)) (rest ++ '<' :: z) =
        Text.upTo ('<' :: '/' :: t) rest := upTo_append_append ('<' :: '/' :: t) rest _
    simp only [List.cons_append, List.drop_succ_cons, List.drop_zero,
      dropWhile_append_of_ne_nil hclosed, hname, hdrop]
    split
    · rw [hupTo]
      rfl
    · exact Step.append_inert ('<' :: '/' :: t) rest _

/-- Raw text that has no end in front of a tag takes the tag in. -/
theorem lost_of_rawEnd?_eq_none {last : Bool} {raw : RawElement} {s z : Text} (hs : s ≠ [])
    (hz : BeginsTag z) (hnone : rawEnd? raw s = none) :
    Lost ⟨last, some raw, s ++ '<' :: z⟩ z := by
  have hne := append_tag_ne hs z
  have hstep (last : Bool) : step last (some raw) (s ++ '<' :: z) =
      .ok (rawStep raw (s ++ '<' :: z)) := rfl
  have hend : rawEnd? raw (s ++ '<' :: z) = rawEnd? raw z := by
    rw [rawEnd?_append_tag raw hz, hnone]
    rfl
  cases hlater : rawEnd? raw z with
  | none =>
    refine lost_of_stop hne fun last => ⟨[], ?_⟩
    rw [hstep, rawStep, hend, hlater]
  | some found =>
    have hle := (rawEnd?_isSuffix hlater).length_le
    have hlt : found.length < (s ++ '<' :: z).length := by
      rw [List.length_append, List.length_cons]
      omega
    refine lost_of_token (t := .inert (Text.upTo (s ++ '<' :: z) found)) hne ?_ hle
    rw [hstep, rawStep, hend, hlater]
    simp only [hlt, if_true]
    rfl

/-- Raw text in front of a tag: its end is found there, or the tag is raw text too. -/
theorem exists_settlesStep_raw (last : Bool) (raw : RawElement) {s : Text} (hs : s ≠ []) :
    ∃ step, SettlesStep last (some raw) s step := by
  cases hfound : rawEnd? raw s with
  | some found =>
    refine ⟨rawStep raw s, Firm.settlesStep fun z hz => ?_⟩
    have hend := rawEnd?_append_tag raw hz s
    rw [hfound] at hend
    exact congrArg Except.ok (rawStep_append_tag hfound hend)
  | none =>
    exact ⟨.stop [] s, fun z hz => .inr (.inl (lost_of_rawEnd?_eq_none hs hz hfound)),
      fun _ _ _ heq => by cases heq⟩

/-- What a step in front of a start tag comes out as. -/
theorem exists_settlesStep (last : Bool) (raw : Option RawElement) {s : Text} (hs : s ≠ []) :
    ∃ step, SettlesStep last raw s step := by
  cases raw with
  | some raw => exact exists_settlesStep_raw last raw hs
  | none =>
    obtain ⟨c, r, rfl⟩ := List.exists_cons_of_ne_nil hs
    by_cases hless : c = '<'
    · subst hless
      exact exists_settlesStep_markup last r
    · by_cases hamp : c = '&'
      · subst hamp
        exact exists_settlesStep_reference last r
      · exact exists_settlesStep_plain last hless hamp r

-- ---------------------------------------------------------------------------
-- Readings with the same front
-- ---------------------------------------------------------------------------

theorem le_of_mem_starts {offset n : Nat} {tag : StartTag} {tokens : List Token}
    (h : (n, tag) ∈ starts offset tokens) : offset ≤ n := by
  induction tokens generalizing offset with
  | nil => cases h
  | cons t rest ih =>
    rw [starts_cons, List.mem_append] at h
    rcases h with h | h
    · cases t with
      | inert source => cases h
      | close name source => cases h
      | start tag' =>
        cases List.mem_singleton.1 h
        exact Nat.le_refl _
    · exact Nat.le_trans (Nat.le_add_right _ _) (ih h)

/-- A start tag that is read at a place is what the step there comes out as. -/
theorem Reads.start_of_mem_starts {c c' : Cursor} {tokens : List Token} (h : Reads c tokens c')
    {n : Nat} {tag : StartTag} (hmem : (n, tag) ∈ starts n tokens) :
    ∃ rest, step c.last c.raw c.rest = .ok (.token (.start tag) rest) := by
  induction h with
  | refl => cases hmem
  | @token last raw s rest t tokens c' hstep _ _ =>
    rw [starts_cons, List.mem_append] at hmem
    rcases hmem with hmem | hmem
    · cases t with
      | inert source => cases hmem
      | close name source => cases hmem
      | start tag' =>
        cases List.mem_singleton.1 hmem
        exact ⟨rest, hstep⟩
    · have hpos := List.length_pos_iff.2 (step_cuts hstep).1
      exact absurd (le_of_mem_starts hmem) (by omega)
  | @again raw s skipped rest tokens c' hstep _ ih =>
    have hcuts : skipped ++ rest = s := step_cuts hstep
    by_cases hskipped : skipped = []
    · subst hskipped
      obtain ⟨rest', hstart⟩ := ih hmem
      obtain ⟨rfl, z, hz, hbegins⟩ := beginsTag_of_step hstart
      obtain ⟨tag', rest'', hstep'⟩ := hbegins.step
      have hs : s = '<' :: z := hcuts.symm.trans hz
      rw [hs, hstep' false] at hstep
      cases hstep
    · rw [skippedTokens, if_neg hskipped, List.singleton_append, starts_cons] at hmem
      have hpos := List.length_pos_iff.2 hskipped
      have hle := le_of_mem_starts hmem
      exact absurd hle (by simp only [Token.source]; omega)

theorem Reads.mem_starts {c c' : Cursor} {tokens : List Token} (h : Reads c tokens c')
    (hne : c.rest ≠ c'.rest) {tag : StartTag} {rest : Text}
    (hstart : step c.last c.raw c.rest = .ok (.token (.start tag) rest)) {n : Nat} :
    (n, tag) ∈ starts n tokens := by
  cases h with
  | refl => exact absurd rfl hne
  | token hstep _ =>
    cases hstart.symm.trans hstep
    exact List.mem_cons_self
  | again hstep _ => cases hstart.symm.trans hstep

theorem BeginsTag.reads_self {z : Text} (hz : BeginsTag z) {last last' : Bool}
    {raw raw' : Option RawElement} (hraw : raw' = none) {tokens : List Token}
    (h : Reads ⟨last, raw, '<' :: z⟩ tokens ⟨last', raw', '<' :: z⟩) :
    tokens = [] ∧ last = last' := by
  cases h with
  | refl => exact ⟨rfl, rfl⟩
  | token hstep tail =>
    have hlt := length_lt_of_step hstep
    exact absurd tail.length_le (Nat.not_le_of_lt hlt)
  | @again _ _ skipped rest _ _ hstep tail =>
    have hcuts : skipped ++ rest = '<' :: z := step_cuts hstep
    have hle := tail.length_le
    have hlength := congrArg List.length hcuts
    rw [List.length_append] at hlength
    have hnil : skipped = [] := List.length_eq_zero_iff.1 (by simp only at hle; omega)
    subst hnil
    have hrest : rest = '<' :: z := hcuts
    subst hrest
    obtain ⟨tag, rest', hbegins⟩ := hz.step
    have hnone : raw = none := by
      cases tail with
      | refl => exact hraw
      | token hstep' tail' => exact absurd tail'.length_le (Nat.not_le_of_lt (length_lt_of_step hstep'))
    subst hnone
    cases (hbegins false).symm.trans hstep

theorem not_lost {c : Cursor} {z : Text} {tokens : List Token} {last : Bool}
    {raw : Option RawElement} (h : Reads c tokens ⟨last, raw, '<' :: z⟩) : ¬ Lost c z :=
  fun hlost => hlost _ _ _ h

theorem not_start_append_unread (last : Bool) (s t : Text) (tag : StartTag) (rest : Text) :
    (unread last s).append t ≠ .token (.start tag) rest := by
  intro h
  cases hunread : unread last s with
  | stop skipped rest' =>
    rw [hunread] at h
    cases h
  | token tok rest' =>
    rw [hunread] at h
    cases h
    exact not_start_unread last s tag rest' hunread

theorem Reads.of_token {c c' : Cursor} {tokens : List Token} (h : Reads c tokens c')
    (hne : c.rest ≠ c'.rest) {t : Token} {rest : Text}
    (hstep : step c.last c.raw c.rest = .ok (.token t rest)) :
    ∃ tail, tokens = t :: tail ∧ Reads ⟨c.last, t.rawAfter c.raw, rest⟩ tail c' := by
  cases h with
  | refl => exact absurd rfl hne
  | token hstep' tail =>
    cases hstep.symm.trans hstep'
    exact ⟨_, rfl, tail⟩
  | again hstep' _ => cases hstep.symm.trans hstep'

theorem Reads.of_stop {c c' : Cursor} {tokens : List Token} (h : Reads c tokens c')
    (hne : c.rest ≠ c'.rest) {skipped rest : Text}
    (hstep : step c.last c.raw c.rest = .ok (.stop skipped rest)) :
    c.last = false ∧ ∃ tail, tokens = skippedTokens skipped ++ tail ∧
      Reads ⟨true, c.raw, rest⟩ tail c' := by
  cases h with
  | refl => exact absurd rfl hne
  | token hstep' _ => cases hstep.symm.trans hstep'
  | again hstep' tail =>
    cases hstep.symm.trans hstep'
    exact ⟨rfl, _, rfl, tail⟩

/-- Where two readings of a front come to the tags behind it and find the same start tags, the first
steps come out alike. -/
theorem exists_step_alike {last last₁ last₂ : Bool} {raw : Option RawElement} {s x y : Text}
    {tokens others : List Token} {n : Nat} (hs : s ≠ []) (hx : BeginsTag x) (hy : BeginsTag y)
    (h : Reads ⟨last, raw, s ++ '<' :: x⟩ tokens ⟨last₁, none, '<' :: x⟩)
    (h' : Reads ⟨last, raw, s ++ '<' :: y⟩ others ⟨last₂, none, '<' :: y⟩)
    (hstarts : starts n tokens = starts n others) :
    ∃ found : Step, step last raw (s ++ '<' :: x) = .ok (found.append ('<' :: x)) ∧
      step last raw (s ++ '<' :: y) = .ok (found.append ('<' :: y)) := by
  obtain ⟨found, hfound⟩ := exists_settlesStep last raw hs
  -- A start tag that only one of the readings finds.
  have hdiffer {z w : Text} {ts us : List Token} {l l' : Bool}
      (hz : Reads ⟨last, raw, s ++ '<' :: z⟩ ts ⟨l, none, '<' :: z⟩)
      (hw : Reads ⟨last, raw, s ++ '<' :: w⟩ us ⟨l', none, '<' :: w⟩)
      (hsame : starts n ts = starts n us) {tag : StartTag} {rest t : Text}
      (hstart : step last raw (s ++ '<' :: z) = .ok (.token (.start tag) rest))
      (hunread : step last raw (s ++ '<' :: w) = .ok ((unread last t).append ('<' :: w))) :
      False := by
    have hmem : (n, tag) ∈ starts n us := hsame ▸ hz.mem_starts (append_tag_ne hs z) hstart
    obtain ⟨rest', hstep⟩ := hw.start_of_mem_starts hmem
    exact not_start_append_unread last t _ tag rest' (Except.ok.inj (hunread.symm.trans hstep))
  rcases hfound.settles x hx with hstep | hlost | ⟨tag, rest, t, rfl, rfl, hunread⟩
  · rcases hfound.settles y hy with hstep' | hlost' | ⟨tag, rest, t, rfl, rfl, hunread'⟩
    · exact ⟨found, hstep, hstep'⟩
    · exact absurd hlost' (not_lost h')
    · exact absurd (hdiffer h h' hstarts hstep hunread') id
  · exact absurd hlost (not_lost h)
  · rcases hfound.settles y hy with hstep' | hlost' | ⟨tag', rest', t', heq, hcons, hunread'⟩
    · exact absurd (hdiffer h' h hstarts.symm hstep' hunread) id
    · exact absurd hlost' (not_lost h')
    · cases hcons
      exact ⟨unread last t, hunread, hunread'⟩

/-- Two texts with the same front that are read up to the start tags behind it are read alike there,
if the same start tags are found. -/
theorem Reads.front_unique {x y : Text} (hx : BeginsTag x) (hy : BeginsTag y)
    {last last₁ last₂ : Bool} {raw : Option RawElement} {s : Text} {tokens others : List Token}
    {n : Nat} (h : Reads ⟨last, raw, s ++ '<' :: x⟩ tokens ⟨last₁, none, '<' :: x⟩)
    (h' : Reads ⟨last, raw, s ++ '<' :: y⟩ others ⟨last₂, none, '<' :: y⟩)
    (hstarts : starts n tokens = starts n others) : tokens = others ∧ last₁ = last₂ := by
  generalize hc : (⟨last, raw, s ++ '<' :: x⟩ : Cursor) = c at h
  generalize hd : (⟨last₁, none, '<' :: x⟩ : Cursor) = d at h
  induction h generalizing last raw s others n with
  | refl c =>
    obtain ⟨hlast, hraw, hrest⟩ := Cursor.mk.inj (hc.trans hd.symm)
    subst hlast hraw
    by_cases hs : s = []
    · subst hs
      obtain ⟨rfl, hlast⟩ := hy.reads_self rfl h'
      exact ⟨rfl, hlast⟩
    · exact absurd hrest (append_tag_ne hs x)
  | @token last' raw' text rest t tokens d hstep tail ih =>
    cases hc
    subst hd
    have hs : s ≠ [] := by
      rintro rfl
      exact absurd tail.length_le (Nat.not_le_of_lt (length_lt_of_step hstep))
    obtain ⟨found, hfound, hfound'⟩ :=
      exists_step_alike hs hx hy (.token hstep tail) h' hstarts
    cases found with
    | stop skipped left => cases hfound.symm.trans hstep
    | token tok left =>
      cases hfound.symm.trans hstep
      obtain ⟨tail', rfl, htail'⟩ := h'.of_token (append_tag_ne hs y) hfound'
      rw [starts_cons, starts_cons] at hstarts
      obtain ⟨rfl, hlast⟩ := ih htail' (List.append_cancel_left hstarts) rfl rfl
      exact ⟨rfl, hlast⟩
  | @again raw' text skipped rest tokens d hstep tail ih =>
    cases hc
    subst hd
    by_cases hs : s = []
    · subst hs
      obtain ⟨hnil, hlast⟩ := hx.reads_self rfl (.again hstep tail)
      obtain ⟨hnil', hlast'⟩ := hy.reads_self rfl h'
      exact ⟨hnil.trans hnil'.symm, hlast.symm.trans hlast'⟩
    · obtain ⟨found, hfound, hfound'⟩ :=
        exists_step_alike hs hx hy (.again hstep tail) h' hstarts
      cases found with
      | token tok left => cases hfound.symm.trans hstep
      | stop skipped left =>
        cases hfound.symm.trans hstep
        obtain ⟨-, tail', rfl, htail'⟩ := h'.of_stop (append_tag_ne hs y) hfound'
        rw [starts_append, starts_append] at hstarts
        obtain ⟨rfl, hlast⟩ := ih htail' (List.append_cancel_left hstarts) rfl rfl
        exact ⟨rfl, hlast⟩

end PageSplice.Html
