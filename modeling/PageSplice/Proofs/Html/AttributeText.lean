-- SUMMARY: A plain tag in which an attribute is set is a plain tag with the attribute set.
import PageSplice.Proofs.Html.Attributes
import PageSplice.Proofs.Html.PlainTag

/-!
# The text of a set attribute

An escaped value is read back as it was. So a plain tag stays plain when an
attribute is set: the attribute that is written takes the place of a piece, or
comes last behind a blank, and no other piece is read otherwise.
-/

namespace PageSplice.Html

-- ---------------------------------------------------------------------------
-- Escaped values
-- ---------------------------------------------------------------------------

namespace CharRef

theorem unescape_cons_of_ne {c : Char} (hc : c ≠ '&') (s : Text) :
    unescape (c :: s) = (c :: ·) <$> unescape s := by
  rw [unescape.eq_def]
  exact if_neg hc

theorem unescape_reference {s rest value : Text} {ref : CharRef} (h : scan? s = some (ref, rest))
    (hvalue : ref.resolve = .ok value) :
    unescape ('&' :: s) = (value ++ ·) <$> unescape rest := by
  rw [unescape.eq_def]
  simp only [if_true]
  split
  · rename_i ref' rest' h'
    cases h.symm.trans h'
    rw [hvalue]
    cases unescape rest <;> rfl
  · rename_i h'
    cases h.symm.trans h'

theorem unescape_escapeChar (c : Char) (s : Text) :
    unescape (escapeChar c ++ s) = (c :: ·) <$> unescape s := by
  unfold escapeChar
  split
  · rename_i hc
    subst hc
    exact unescape_reference (s := "amp;".toList ++ s) rfl rfl
  · rename_i hamp
    split
    · rename_i hc
      subst hc
      exact unescape_reference (s := "lt;".toList ++ s) rfl rfl
    · split
      · rename_i hc
        subst hc
        exact unescape_reference (s := "gt;".toList ++ s) rfl rfl
      · split
        · rename_i hc
          subst hc
          exact unescape_reference (s := "quot;".toList ++ s) rfl rfl
        · split
          · rename_i hc
            subst hc
            exact unescape_reference (s := "#x27;".toList ++ s) rfl rfl
          · exact unescape_cons_of_ne hamp s

/-- A text that is escaped stands for itself. -/
theorem unescape_escape (s : Text) : unescape (escape s) = .ok s := by
  induction s with
  | nil => rw [escape, List.flatMap_nil, unescape.eq_def]
  | cons c r ih =>
    rw [escape, List.flatMap_cons, unescape_escapeChar, ← escape, ih]
    rfl

theorem quote_not_mem_escape (s : Text) : '"' ∉ escape s := by
  intro h
  obtain ⟨c, -, hc⟩ := List.mem_flatMap.1 h
  by_cases hquote : c = '"'
  · subst hquote
    exact absurd hc (by decide)
  · unfold escapeChar at hc
    repeat' split at hc
    all_goals first
      | exact absurd hc (by decide)
      | exact hquote (List.mem_singleton.1 hc).symm

end CharRef

-- ---------------------------------------------------------------------------
-- Written attributes
-- ---------------------------------------------------------------------------

namespace Attributes

/-- Sets the first attribute called `name` among those of a tag, or the last one if there is none,
to a value as it is written. -/
def setWritten (name value : Text) : WrittenAttributes → WrittenAttributes
  | [] => [(name, some value)]
  | (own, v) :: rest =>
    if Text.lower own = name then (name, some value) :: rest
    else (own, v) :: setWritten name value rest

theorem setWritten_of_named {name value own : Text} {v : Option Text} {before : WrittenAttributes}
    (hbefore : ∀ entry ∈ before, ¬ Text.lower entry.1 = name) (hown : Text.lower own = name)
    (after : WrittenAttributes) :
    setWritten name value (before ++ (own, v) :: after) = before ++ (name, some value) :: after := by
  induction before with
  | nil => exact if_pos hown
  | cons entry before ih =>
    have hentry := hbefore entry List.mem_cons_self
    have htail := ih fun e he => hbefore e (List.mem_cons_of_mem entry he)
    exact (if_neg hentry).trans (congrArg (entry :: ·) htail)

theorem setWritten_of_not_named {name value : Text} {l : WrittenAttributes}
    (h : ∀ entry ∈ l, ¬ Text.lower entry.1 = name) :
    setWritten name value l = l ++ [(name, some value)] := by
  induction l with
  | nil => rfl
  | cons entry l ih =>
    have hentry := h entry List.mem_cons_self
    have htail := ih fun e he => h e (List.mem_cons_of_mem entry he)
    exact (if_neg hentry).trans (congrArg (entry :: ·) htail)

theorem exists_of_mapM_cons {ε α β : Type} {f : α → Except ε β} {x : α} {l : List α}
    {found : List β} (h : (x :: l).mapM f = .ok found) :
    ∃ y more, f x = .ok y ∧ l.mapM f = .ok more ∧ found = y :: more := by
  rw [List.mapM_cons] at h
  cases hx : f x with
  | error e =>
    rw [hx] at h
    cases h
  | ok y =>
    rw [hx] at h
    cases hl : l.mapM f with
    | error e =>
      rw [hl] at h
      cases h
    | ok more =>
      rw [hl] at h
      cases h
      exact ⟨y, more, rfl, rfl, rfl⟩

theorem lower_of_resolveAttribute {own name : Text} {v value : Option Text}
    (h : StartTag.resolveAttribute (own, v) = .ok (name, value)) : Text.lower own = name := by
  unfold StartTag.resolveAttribute at h
  cases hv : v.mapM CharRef.unescape with
  | error e =>
    rw [hv] at h
    cases h
  | ok w =>
    rw [hv] at h
    cases h
    rfl

/-- Resolving the references of a value that is set yields the attributes with the value set. -/
theorem mapM_setWritten {name value written : Text} (hname : Text.lower name = name)
    (hvalue : CharRef.unescape written = .ok value) {l : WrittenAttributes} {attributes : Attributes}
    (h : l.mapM StartTag.resolveAttribute = .ok attributes) :
    (setWritten name written l).mapM StartTag.resolveAttribute =
      .ok (attributes.set name (some value)) := by
  have hset : StartTag.resolveAttribute (name, some written) = .ok (name, some value) := by
    simp only [StartTag.resolveAttribute, Option.mapM_some, hvalue, hname]
    rfl
  induction l generalizing attributes with
  | nil =>
    cases h
    rw [setWritten, List.mapM_cons, hset]
    rfl
  | cons entry rest ih =>
    obtain ⟨own, v⟩ := entry
    obtain ⟨⟨n, w⟩, more, hentry, hrest, rfl⟩ := exists_of_mapM_cons h
    have hlower := lower_of_resolveAttribute hentry
    by_cases hown : Text.lower own = name
    · rw [setWritten, if_pos hown, List.mapM_cons, hset, hrest, set, if_pos (hlower.symm.trans hown),
        ← hlower, hown]
      rfl
    · rw [setWritten, if_neg hown, List.mapM_cons, hentry, ih hrest, set,
        if_neg fun heq => hown (hlower.trans heq)]
      rfl

section Set

variable {name : Text} {value : Option Text} {found l : Attributes}

theorem set_append (h : found.lookup name = none) :
    (found ++ l).set name value = found ++ l.set name value := by
  induction found with
  | nil => rfl
  | cons entry rest ih =>
    obtain ⟨n, v⟩ := entry
    rw [List.lookup_cons] at h
    split at h
    · cases h
    · rename_i hne
      have hne : n ≠ name := fun heq => by simp [heq] at hne
      rw [List.cons_append, set, if_neg hne, ih h]
      rfl

theorem set_append_of_isSome (h : (found.lookup name).isSome = true) :
    (found ++ l).set name value = found.set name value ++ l := by
  induction found with
  | nil => cases h
  | cons entry rest ih =>
    obtain ⟨n, v⟩ := entry
    rw [List.cons_append, set, set]
    split
    · rfl
    · rename_i hne
      rw [List.lookup_cons, beq_false_of_ne (Ne.symm hne)] at h
      exact congrArg ((n, v) :: ·) (ih h)

theorem ofTag_set_found (h : (found.lookup name).isSome = true) :
    ofTag l (found.set name value) = (ofTag l found).set name value := by
  induction l generalizing found with
  | nil => rfl
  | cons entry rest ih =>
    obtain ⟨n, v⟩ := entry
    have hsame : ((found.set name value).lookup n).isSome = (found.lookup n).isSome := by
      rw [lookup_set]
      split
      · rename_i heq
        rw [heq, h]
        rfl
      · rfl
    rw [ofTag, ofTag, hsame]
    split
    · exact ih h
    · rw [← set_append_of_isSome h]
      refine ih ?_
      obtain ⟨w, hw⟩ := Option.isSome_iff_exists.1 h
      rw [List.lookup_append, hw]
      rfl

/-- The first occurrence of a name counts, so the set one does. -/
theorem ofTag_set (h : found.lookup name = none) :
    ofTag (l.set name value) found = (ofTag l found).set name value := by
  induction l generalizing found with
  | nil =>
    have happend : (found ++ []).set name value = _ := set_append h
    rw [List.append_nil] at happend
    have hlast : ofTag [(name, value)] found = found ++ [(name, value)] := by
      rw [ofTag, h]
      rfl
    exact hlast.trans happend.symm
  | cons entry rest ih =>
    obtain ⟨n, v⟩ := entry
    rw [set]
    split
    · rename_i heq
      subst heq
      have happend : (found ++ [(n, v)]).set n value = _ := set_append h
      rw [set, if_pos rfl] at happend
      rw [ofTag, ofTag, h]
      simp only [Option.isSome_none, Bool.false_eq_true, if_false]
      rw [← happend]
      refine ofTag_set_found ?_
      rw [List.lookup_append, h, List.lookup_cons_self]
      rfl
    · rename_i hne
      rw [ofTag, ofTag]
      split
      · exact ih h
      · refine ih ?_
        rw [List.lookup_append, h, List.lookup_cons, beq_false_of_ne (Ne.symm hne)]
        rfl

end Set

end Attributes

-- ---------------------------------------------------------------------------
-- Pieces in other places
-- ---------------------------------------------------------------------------

namespace TagText

section Pieces

variable {prev stop : Char} {pieces more : List Piece}

theorem headD_append (s t : Text) (c : Char) : (s ++ t).headD c = s.headD (t.headD c) := by
  cases s <;> rfl

theorem fit_append : Fit prev stop (pieces ++ more) ↔
    Fit prev ((textOf more).headD stop) pieces ∧ Fit ((textOf pieces).getLastD prev) stop more := by
  induction pieces generalizing prev with
  | nil => exact ⟨fun h => ⟨trivial, h⟩, fun h => h.2⟩
  | cons p pieces ih =>
    rw [List.cons_append, Fit, Fit, textOf_append, headD_append, ih, textOf_cons, getLastD_append]
    exact and_assoc.symm

theorem exists_source {p : Piece} {next : Char} (h : p.Fits prev next) :
    ∃ c r, p.source = c :: r := by
  cases p with
  | separator c => exact ⟨c, [], rfl⟩
  | named name a =>
    obtain ⟨-, hne, -⟩ := h
    obtain ⟨c, r, rfl⟩ := List.exists_cons_of_ne_nil hne
    exact ⟨c, r ++ a.source, rfl⟩

/-- What may follow one character may follow any other one that an attribute may follow. -/
theorem Fit.of_precedesAttribute (h : Fit prev stop pieces) {prev' : Char}
    (hprev : StartTag.precedesAttribute prev' = true) : Fit prev' stop pieces := by
  cases pieces with
  | nil => trivial
  | cons p pieces =>
    obtain ⟨hpiece, htail⟩ := h
    obtain ⟨c, r, hsource⟩ := exists_source hpiece
    have hlast : p.source.getLastD prev' = p.source.getLastD prev := by
      rw [hsource, List.getLastD_cons, List.getLastD_cons]
    refine ⟨?_, hlast ▸ htail⟩
    cases p with
    | separator c => exact hpiece
    | named name a => exact ⟨hprev, hpiece.2⟩

theorem Fit.imp_stop (h : Fit prev stop pieces) {stop' : Char}
    (hstop : ∀ p ∈ pieces, ∀ prev, p.Fits prev stop → p.Fits prev stop') : Fit prev stop' pieces := by
  induction pieces generalizing prev with
  | nil => trivial
  | cons p pieces ih =>
    obtain ⟨hpiece, htail⟩ := h
    refine ⟨?_, ih htail fun q hq => hstop q (List.mem_cons_of_mem p hq)⟩
    cases htext : textOf pieces with
    | nil =>
      rw [htext] at hpiece
      exact hstop p List.mem_cons_self prev hpiece
    | cons c r =>
      rw [htext] at hpiece
      exact hpiece

/-- Everything may stand in front of a blank. -/
theorem Fit.blank (h : Fit prev stop pieces) : Fit prev ' ' pieces := by
  refine h.imp_stop fun p _ prev hp => ?_
  cases p with
  | separator c => exact hp.imp_right fun hslash => ⟨hslash.1, by decide⟩
  | named name a =>
    obtain ⟨hprev, hne, hname, hfits⟩ := hp
    refine ⟨hprev, hne, hname, ?_⟩
    cases a with
    | missing => rfl
    | bare before after value =>
      obtain ⟨hbefore, hafter, hvalue, hhead, -⟩ := hfits
      exact ⟨hbefore, hafter, hvalue, hhead, rfl, fun heq => absurd heq (by decide)⟩
    | quoted before after quote value => exact hfits

/-- What may stand in front of one name may stand in front of another one. -/
theorem Fit.of_isNameChar (h : Fit prev stop pieces) (hstop : isNameChar stop = true) {stop' : Char}
    (hstop' : isNameChar stop' = true) : Fit prev stop' pieces := by
  obtain ⟨-, -, hgt, -⟩ := isNameChar_eq hstop'
  refine h.imp_stop fun p _ prev hp => ?_
  cases p with
  | separator c => exact hp.imp_right fun hslash => ⟨hslash.1, hgt⟩
  | named name a =>
    obtain ⟨hprev, hne, hname, hfits⟩ := hp
    refine ⟨hprev, hne, hname, ?_⟩
    cases a with
    | missing =>
      have hnot : StartTag.startsAttribute stop = false := hfits
      exact absurd (hnot.symm.trans (startsAttribute_of_isNameChar hstop)) Bool.false_ne_true
    | bare before after value =>
      obtain ⟨-, -, -, -, hnot, -⟩ := hfits
      exact absurd (hnot.symm.trans (isBareChar_of_isNameChar hstop)) Bool.false_ne_true
    | quoted before after quote value => exact hfits

end Pieces

-- ---------------------------------------------------------------------------
-- The last character
-- ---------------------------------------------------------------------------

def Piece.isSpace : Piece → Bool
  | separator c => Text.isBlank c
  | named _ _ => false

theorem exists_concat {s : Text} (h : s ≠ []) : ∃ before c, s = before ++ [c] :=
  ⟨s.dropLast, s.getLast h, (List.dropLast_concat_getLast h).symm⟩

/-- A piece ends in white space only as a blank, and not in a slash in front of `>`. -/
theorem Piece.exists_last {p : Piece} {prev next : Char} (h : p.Fits prev next) :
    ∃ before c, p.source = before ++ [c] ∧ (p.isSpace = false → Text.isBlank c = false) ∧
      (next = '>' → c ≠ '/') := by
  cases p with
  | separator c =>
    refine ⟨[], c, rfl, id, ?_⟩
    rintro hnext rfl
    rcases h with hblank | ⟨-, hne⟩
    · exact absurd hblank (by decide)
    · exact hne hnext
  | named name a =>
    obtain ⟨-, hne, hname, hfits⟩ := h
    cases a with
    | missing =>
      obtain ⟨before, c, rfl⟩ := exists_concat hne
      obtain ⟨hblank, hslash, -⟩ := isNameChar_eq (hname c (List.mem_append_right before List.mem_cons_self))
      exact ⟨before, c, List.append_nil _, fun _ => hblank, fun _ => hslash⟩
    | bare before after value =>
      obtain ⟨-, -, hvalue, hhead, -, hlast⟩ := hfits
      obtain ⟨d, t, hd, -⟩ := exists_value hhead
      obtain ⟨front, c, rfl⟩ := exists_concat (hd ▸ List.cons_ne_nil d t)
      have hc := hvalue c (List.mem_append_right front List.mem_cons_self)
      refine ⟨name ++ (before ++ '=' :: (after ++ front)), c, ?_, fun _ => not_isBlank_of_isBareChar hc, ?_⟩
      · simp only [Piece.source, Assignment.source, List.append_assoc, List.cons_append]
      · rintro hnext rfl
        exact hlast hnext List.getLast?_concat
    | quoted before after quote value =>
      obtain ⟨-, -, hquote, -⟩ := hfits
      refine ⟨name ++ (before ++ '=' :: (after ++ quote :: value)), quote, ?_,
        fun _ => not_isBlank_of_isQuote hquote, ?_⟩
      · simp only [Piece.source, Assignment.source, List.append_assoc, List.cons_append]
      · rintro - rfl
        cases hquote

theorem exists_last_textOf {prev stop : Char} {pieces : List Piece} (h : Fit prev stop pieces)
    (hne : pieces ≠ []) :
    ∃ p before c, pieces.getLast? = some p ∧ textOf pieces = before ++ [c] ∧
      (p.isSpace = false → Text.isBlank c = false) ∧ (stop = '>' → c ≠ '/') := by
  obtain ⟨front, p, rfl⟩ : ∃ front p, pieces = front ++ [p] :=
    ⟨_, _, (List.dropLast_concat_getLast hne).symm⟩
  obtain ⟨before, c, hsource, hblank, hslash⟩ := Piece.exists_last (fit_append.1 h).2.1
  refine ⟨p, textOf front ++ before, c, List.getLast?_concat, ?_, hblank, hslash⟩
  have hlast : textOf [p] = before ++ [c] := (List.append_nil p.source).trans hsource
  rw [textOf_append, hlast, List.append_assoc]

/-- The blanks at the end of a tag can be told from the other pieces. -/
theorem exists_trimmed (pieces : List Piece) :
    ∃ kept blanks, pieces = kept ++ blanks ∧ (∀ p ∈ blanks, p.isSpace = true) ∧
      ∀ p, kept.getLast? = some p → p.isSpace = false := by
  induction pieces with
  | nil => exact ⟨[], [], rfl, fun p hp => (nomatch hp), fun p hp => (nomatch hp)⟩
  | cons p pieces ih =>
    obtain ⟨kept, blanks, rfl, hblanks, hlast⟩ := ih
    cases kept with
    | cons q kept => exact ⟨p :: q :: kept, blanks, rfl, hblanks, fun r hr => hlast r hr⟩
    | nil =>
      cases hp : p.isSpace with
      | true =>
        refine ⟨[], p :: blanks, rfl, fun q hq => ?_, fun q hq => (nomatch hq)⟩
        rcases List.mem_cons.1 hq with rfl | hq
        · exact hp
        · exact hblanks q hq
      | false =>
        refine ⟨[p], blanks, rfl, hblanks, fun q hq => ?_⟩
        cases hq
        exact hp

theorem isBlank_textOf {blanks : List Piece} (h : ∀ p ∈ blanks, p.isSpace = true) :
    ∀ c ∈ textOf blanks, Text.isBlank c = true := by
  intro c hc
  obtain ⟨p, hp, hmem⟩ := List.mem_flatMap.1 hc
  have hspace := h p hp
  cases p with
  | separator d =>
    cases List.mem_singleton.1 hmem
    exact hspace
  | named name a => cases hspace

theorem trimRight_append {p : Char → Bool} {before : Text} {c : Char} (hc : p c = false) {blanks : Text}
    (hblanks : ∀ c ∈ blanks, p c = true) :
    Text.trimRight p (before ++ [c] ++ blanks) = before ++ [c] := by
  have hreverse : ∀ c ∈ blanks.reverse, p c = true := fun c hc => hblanks c (List.mem_reverse.1 hc)
  rw [Text.trimRight, List.reverse_append, List.reverse_append, List.reverse_singleton,
    List.singleton_append, dropWhile_run hreverse hc, List.reverse_cons, List.reverse_reverse]

end TagText

-- ---------------------------------------------------------------------------
-- Plain tags with an attribute set
-- ---------------------------------------------------------------------------

open TagText

/-- An attribute as it is written when it is set. -/
def TagText.rendered (name value : Text) : Piece :=
  .named name (.quoted [] [] '"' (CharRef.escape value))

theorem TagText.source_rendered (name value : Text) :
    (rendered name value).source = render name value := by
  simp only [rendered, Piece.source, Assignment.source, render, List.append_assoc, List.nil_append]
  rfl

namespace PlainTag

section SetAttribute

variable (t : PlainTag) {name : Text} (hne : name ≠ []) (hname : ∀ c ∈ name, isNameChar c = true)

include hne hname

theorem fits_rendered {prev : Char} (hprev : StartTag.precedesAttribute prev = true) (value : Text)
    (next : Char) : (rendered name value).Fits prev next :=
  ⟨hprev, hne, hname, fun _ hc => (nomatch hc), fun _ hc => (nomatch hc), rfl,
    CharRef.quote_not_mem_escape value⟩

theorem exists_render (value : Text) :
    ∃ c r, render name value = c :: r ∧ isNameChar c = true := by
  obtain ⟨c, r, rfl⟩ := List.exists_cons_of_ne_nil hne
  exact ⟨c, _, rfl, hname c List.mem_cons_self⟩

/-- An attribute that stands in the tag can give way to the one that is set. -/
theorem exists_replaced {before after : List Piece} {own : Text} {a : Assignment}
    (hpieces : t.pieces = before ++ .named own a :: after) (value : Text) :
    ∃ t' : PlainTag, t'.name = t.name ∧ t'.selfClosing = t.selfClosing ∧
      t'.pieces = before ++ rendered name value :: after := by
  have hfit := t.fit
  have hends := t.name_ends
  rw [hpieces] at hfit hends
  obtain ⟨hfront, ⟨hprev, hown, hchars, -⟩, hback⟩ := fit_append.1 hfit
  obtain ⟨c, r, rfl⟩ := List.exists_cons_of_ne_nil hown
  obtain ⟨d, u, hrender, hd⟩ := exists_render hne hname value
  have hc := hchars c List.mem_cons_self
  have hlast : (rendered name value).source.getLastD ((textOf before).getLastD (t.name.getLastD '<')) =
      '"' := by
    rw [source_rendered, render]
    exact List.getLastD_concat
  rw [textOf_append, headD_append] at hends
  refine ⟨⟨t.name, before ++ rendered name value :: after, t.selfClosing, t.name_alpha, t.name_chars,
    t.element_chars, ?_, ?_⟩, rfl, rfl, rfl⟩
  · rw [textOf_append, headD_append]
    cases htext : textOf before with
    | cons e w =>
      rw [htext] at hends
      exact hends
    | nil =>
      -- The name of the element would end in front of the name of an attribute.
      rw [htext] at hends
      have hnot : isElementChar c = false := hends.2
      obtain ⟨hblank, hslash, hgt, -⟩ := isNameChar_eq hc
      simp [isElementChar, hblank, hslash, hgt] at hnot
  · refine fit_append.2 ⟨?_, fits_rendered hne hname hprev value _, ?_⟩
    · rw [textOf_cons, source_rendered, hrender]
      exact hfront.of_isNameChar hc hd
    · rw [hlast]
      exact hback.of_precedesAttribute rfl

/-- The attribute that is set can come behind all pieces but the blanks at the end. -/
theorem exists_appended {kept blanks : List Piece} (hpieces : t.pieces = kept ++ blanks)
    (value : Text) :
    ∃ t' : PlainTag, t'.name = t.name ∧ t'.selfClosing = t.selfClosing ∧
      t'.pieces = kept ++ [.separator ' ', rendered name value] := by
  have hfit := t.fit
  have hends := t.name_ends
  rw [hpieces] at hfit hends
  rw [textOf_append, headD_append] at hends
  refine ⟨⟨t.name, kept ++ [.separator ' ', rendered name value], t.selfClosing, t.name_alpha,
    t.name_chars, t.element_chars, ?_, ?_⟩, rfl, rfl, rfl⟩
  · rw [textOf_append, headD_append]
    cases htext : textOf kept with
    | cons c r =>
      rw [htext] at hends
      exact hends
    | nil => exact ⟨rfl, rfl⟩
  · exact fit_append.2 ⟨(fit_append.1 hfit).1.blank, .inl rfl,
      fits_rendered hne hname rfl value _, trivial⟩

omit hne hname in
theorem exists_last_name : ∃ before c, t.name = before ++ [c] ∧ isElementChar c = true := by
  obtain ⟨c, r, hname, -⟩ := t.name_alpha
  obtain ⟨before, d, hconcat⟩ := exists_concat (hname ▸ List.cons_ne_nil c r)
  have hd : d ∈ t.name := hconcat ▸ List.mem_append_right before List.mem_cons_self
  exact ⟨before, d, hconcat, t.element_chars d hd⟩

omit hne hname in
/-- The text of the tag in front of its end does not end in a slash where the tag is not
self-closing. -/
theorem exists_last : ∃ before c, '<' :: (t.name ++ textOf t.pieces) = before ++ [c] ∧
    (t.selfClosing = false → c ≠ '/') := by
  by_cases hpieces : t.pieces = []
  · obtain ⟨before, d, hconcat, hd⟩ := t.exists_last_name
    refine ⟨'<' :: before, d, ?_, ?_⟩
    · rw [hpieces, hconcat]
      exact congrArg ('<' :: ·) (List.append_nil _)
    · rintro - rfl
      exact absurd hd (by decide)
  · obtain ⟨p, before, c, -, htext, -, hslash⟩ := exists_last_textOf t.fit hpieces
    refine ⟨'<' :: (t.name ++ before), c, ?_, fun hself => hslash ?_⟩
    · rw [htext, ← List.append_assoc]
      rfl
    · rw [hself]
      rfl

omit hne hname in
theorem endsWith_closing : Text.endsWith ('<' :: t.interior) "/>".toList = t.selfClosing := by
  obtain ⟨before, c, hlast, hslash⟩ := t.exists_last
  have hsource : '<' :: t.interior = before ++ [c] ++ closing t.selfClosing := by
    rw [← hlast, interior, ← List.append_assoc]
    rfl
  rw [hsource]
  cases hself : t.selfClosing with
  | true => exact List.isSuffixOf_iff_suffix.2 (List.suffix_append _ _)
  | false =>
    refine Bool.eq_false_iff.2 fun hends => ?_
    have hsuffix : ['/'] ++ ['>'] <:+ before ++ [c] ++ ['>'] := List.isSuffixOf_iff_suffix.1 hends
    obtain ⟨u, hu⟩ := hsuffix
    rw [← List.append_assoc] at hu
    have hinit := List.append_cancel_right hu
    exact hslash hself (List.append_inj_right' hinit rfl |> List.singleton_inj.1).symm

omit hne hname in
theorem trimRight_textOf {kept blanks : List Piece} (hpieces : t.pieces = kept ++ blanks)
    (hblanks : ∀ p ∈ blanks, p.isSpace = true)
    (hkept : ∀ p, kept.getLast? = some p → p.isSpace = false) :
    Text.trimRight Text.isBlank ('<' :: (t.name ++ textOf t.pieces)) =
      '<' :: (t.name ++ textOf kept) := by
  have hfit := t.fit
  rw [hpieces] at hfit
  obtain ⟨before, c, hconcat, hc⟩ : ∃ before c, '<' :: (t.name ++ textOf kept) = before ++ [c] ∧
      Text.isBlank c = false := by
    by_cases hnil : kept = []
    · obtain ⟨before, d, hconcat, hd⟩ := t.exists_last_name
      simp only [isElementChar, Bool.not_eq_true', Bool.or_eq_false_iff] at hd
      refine ⟨'<' :: before, d, ?_, hd.1.1⟩
      rw [hnil, hconcat]
      exact congrArg ('<' :: ·) (List.append_nil _)
    · obtain ⟨p, before, c, hp, htext, hblank, -⟩ := exists_last_textOf (fit_append.1 hfit).1 hnil
      refine ⟨'<' :: (t.name ++ before), c, ?_, hblank (hkept p hp)⟩
      rw [htext, ← List.append_assoc]
      rfl
  have htext : '<' :: (t.name ++ textOf t.pieces) = before ++ [c] ++ textOf blanks := by
    rw [← hconcat, hpieces, textOf_append, ← List.append_assoc]
    rfl
  rw [htext, trimRight_append hc (isBlank_textOf hblanks), hconcat]

omit hne hname in
theorem setAttribute_of_missing {kept blanks : List Piece} (hpieces : t.pieces = kept ++ blanks)
    (hblanks : ∀ p ∈ blanks, p.isSpace = true)
    (hkept : ∀ p, kept.getLast? = some p → p.isSpace = false)
    (hfind : find? name (textOf t.pieces ++ closing t.selfClosing) = none) (value : Text) :
    TagText.setAttribute name value ('<' :: t.interior) =
      '<' :: (t.name ++ (textOf kept ++ ' ' :: (render name value ++ closing t.selfClosing))) := by
  have hsource : '<' :: t.interior = '<' :: (t.name ++ textOf t.pieces) ++ closing t.selfClosing := by
    rw [interior, ← List.append_assoc]
    rfl
  have hlength : ('<' :: t.interior).length - (if t.selfClosing then 2 else 1) =
      ('<' :: (t.name ++ textOf t.pieces)).length := by
    rw [hsource, List.length_append]
    cases t.selfClosing <;> exact Nat.add_sub_cancel _ _
  rw [TagText.setAttribute, afterElementName, hfind, endsWith_closing]
  simp only [hlength]
  rw [hsource, List.take_left, List.drop_left, t.trimRight_textOf hpieces hblanks hkept]
  simp only [List.cons_append, List.append_assoc]

omit hne hname in
theorem setAttribute_of_found {before after : List Piece} {own : Text} {a : Assignment}
    (hpieces : t.pieces = before ++ .named own a :: after)
    (hfind : find? name (textOf t.pieces ++ closing t.selfClosing) =
      some (textOf (.named own a :: after) ++ closing t.selfClosing,
        textOf after ++ closing t.selfClosing)) (value : Text) :
    TagText.setAttribute name value ('<' :: t.interior) =
      '<' :: (t.name ++ (textOf before ++ (render name value ++
        (textOf after ++ closing t.selfClosing)))) := by
  have hsource : '<' :: t.interior = '<' :: (t.name ++ textOf before) ++
      (textOf (.named own a :: after) ++ closing t.selfClosing) := by
    rw [interior, hpieces, textOf_append]
    simp only [List.cons_append, List.append_assoc]
  have hupTo : Text.upTo ('<' :: t.interior) (textOf (.named own a :: after) ++ closing t.selfClosing) =
      '<' :: (t.name ++ textOf before) := by
    rw [hsource]
    simp only [Text.upTo, List.length_append, Nat.add_sub_cancel, List.take_left]
  rw [TagText.setAttribute, afterElementName, hfind]
  simp only [hupTo]
  simp only [List.cons_append, List.append_assoc]

/-- Setting an attribute of a plain tag yields the text of a plain tag, with the same name and end,
and with the attribute set. -/
theorem exists_setAttribute (value : Text) :
    ∃ t' : PlainTag, t'.name = t.name ∧ t'.selfClosing = t.selfClosing ∧
      TagText.setAttribute name value ('<' :: t.interior) = '<' :: t'.interior ∧
      written t'.pieces =
        Attributes.setWritten name (CharRef.escape value) (written t.pieces) := by
  rcases find?_textOf t.fit name with
    ⟨hnone, hfind⟩ | ⟨before, own, a, after, hpieces, hown, hbefore, hfind⟩
  · obtain ⟨kept, blanks, hpieces, hblanks, hkept⟩ := exists_trimmed t.pieces
    obtain ⟨t', hname', hself, hpieces'⟩ := t.exists_appended hne hname hpieces value
    refine ⟨t', hname', hself, ?_, ?_⟩
    · rw [t.setAttribute_of_missing hpieces hblanks hkept hfind, interior, hname', hself, hpieces',
        textOf_append, textOf_cons, textOf_cons, source_rendered, List.append_assoc]
      simp only [Piece.source, textOf, List.flatMap_nil, List.append_nil, List.cons_append,
        List.nil_append]
    · have hspaces : written blanks = [] := by
        refine List.filterMap_eq_nil_iff.2 fun p hp => ?_
        have hspace := hblanks p hp
        cases p with
        | separator c => rfl
        | named name a => cases hspace
      rw [Attributes.setWritten_of_not_named hnone, hpieces', hpieces, written, written,
        List.filterMap_append, List.filterMap_append, show blanks.filterMap Piece.written? = [] from hspaces,
        List.append_nil]
      rfl
  · obtain ⟨t', hname', hself, hpieces'⟩ := t.exists_replaced hne hname hpieces value
    refine ⟨t', hname', hself, ?_, ?_⟩
    · rw [t.setAttribute_of_found hpieces hfind, interior, hname', hself, hpieces', textOf_append,
        textOf_cons, source_rendered]
      simp only [List.append_assoc]
    · have hwritten (p : Piece) : written (before ++ p :: after) =
          written before ++ written (p :: after) := List.filterMap_append
      rw [hpieces, hpieces', hwritten, hwritten]
      exact (Attributes.setWritten_of_named hbefore hown (written after)).symm

end SetAttribute

end PlainTag

end PageSplice.Html
