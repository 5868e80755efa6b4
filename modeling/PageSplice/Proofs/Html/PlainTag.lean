-- SUMMARY: Start tags in which both readers of attributes find the same ones: their pieces, and how each reader takes them.
import PageSplice.Proofs.Html.Front

/-!
# Plain tags

Attributes are read in two ways: markup is read with quotes and equals signs
nearly everywhere, and the place of an attribute that is set is looked for with
stricter names and looser values. In a plain tag, whose pieces follow a plain
grammar, the two find the same attributes at the same places.
-/

namespace PageSplice.Html

namespace TagText

-- ---------------------------------------------------------------------------
-- Pieces
-- ---------------------------------------------------------------------------

/-- How the value of an attribute is written, with the white space around its equals sign. -/
inductive Assignment
  | missing
  | bare (before after value : Text)
  | quoted (before after : Text) (quote : Char) (value : Text)
  deriving DecidableEq, Repr

/-- A piece of a tag behind the name of its element. -/
inductive Piece
  | separator (c : Char)
  | named (name : Text) (assignment : Assignment)
  deriving DecidableEq, Repr

/-- What is asked of the characters of a text is looked up in the text, not among all characters. -/
instance (priority := 2000) decidableAll (p : Char → Bool) (s : Text) :
    Decidable (∀ c ∈ s, p c = true) :=
  decidable_of_iff (s.all p = true) List.all_eq_true

namespace Assignment

def source : Assignment → Text
  | missing => []
  | bare before after value => before ++ '=' :: (after ++ value)
  | quoted before after quote value => before ++ '=' :: (after ++ quote :: (value ++ [quote]))

/-- The value without quotes behind an equals sign and white space. Equals signs that come at once
do not belong to it. -/
def bareValue (after value : Text) : Text :=
  if after = [] then value.dropWhile (· = '=') else value

def value? : Assignment → Option Text
  | missing => none
  | bare _ after value => some (bareValue after value)
  | quoted _ _ _ value => some value

/-- Whether the assignment may stand in front of `next`. -/
def Fits (next : Char) : Assignment → Prop
  | missing => StartTag.startsAttribute next = false
  | bare before after value =>
    (∀ c ∈ before, Text.isBlank c = true) ∧ (∀ c ∈ after, Text.isBlank c = true) ∧
      (∀ c ∈ value, StartTag.isBareChar c = true) ∧
      ((bareValue after value).head?.map StartTag.isQuote) = some false ∧
      StartTag.isBareChar next = false ∧ (next = '>' → value.getLast? ≠ some '/')
  | quoted before after quote value =>
    (∀ c ∈ before, Text.isBlank c = true) ∧ (∀ c ∈ after, Text.isBlank c = true) ∧
      StartTag.isQuote quote = true ∧ quote ∉ value

instance (next : Char) : DecidablePred (Fits next)
  | missing => inferInstanceAs (Decidable (StartTag.startsAttribute next = false))
  | bare before after value => inferInstanceAs (Decidable
      ((∀ c ∈ before, Text.isBlank c = true) ∧ (∀ c ∈ after, Text.isBlank c = true) ∧
        (∀ c ∈ value, StartTag.isBareChar c = true) ∧
        ((bareValue after value).head?.map StartTag.isQuote) = some false ∧
        StartTag.isBareChar next = false ∧ (next = '>' → value.getLast? ≠ some '/')))
  | quoted before after quote value => inferInstanceAs (Decidable
      ((∀ c ∈ before, Text.isBlank c = true) ∧ (∀ c ∈ after, Text.isBlank c = true) ∧
        StartTag.isQuote quote = true ∧ quote ∉ value))

end Assignment

namespace Piece

def source : Piece → Text
  | separator c => [c]
  | named name assignment => name ++ assignment.source

def written? : Piece → Option (Text × Option Text)
  | separator _ => none
  | named name assignment => some (name, assignment.value?)

/-- Whether the piece may stand between `prev` and `next`. -/
def Fits (prev next : Char) : Piece → Prop
  | separator c => Text.isBlank c = true ∨ c = '/' ∧ next ≠ '>'
  | named name assignment =>
    StartTag.precedesAttribute prev = true ∧ name ≠ [] ∧ (∀ c ∈ name, isNameChar c = true) ∧
      assignment.Fits next

instance (prev next : Char) : DecidablePred (Fits prev next)
  | separator c => inferInstanceAs (Decidable (Text.isBlank c = true ∨ c = '/' ∧ next ≠ '>'))
  | named name assignment => inferInstanceAs (Decidable
      (StartTag.precedesAttribute prev = true ∧ name ≠ [] ∧ (∀ c ∈ name, isNameChar c = true) ∧
        assignment.Fits next))

end Piece

def textOf (pieces : List Piece) : Text := pieces.flatMap Piece.source

def written (pieces : List Piece) : WrittenAttributes := pieces.filterMap Piece.written?

/-- Whether pieces may stand one behind the other between `prev` and `stop`. -/
def Fit (prev stop : Char) : List Piece → Prop
  | [] => True
  | p :: pieces =>
    p.Fits prev ((textOf pieces).headD stop) ∧ Fit (p.source.getLastD prev) stop pieces

instance decidableFit (prev stop : Char) : (pieces : List Piece) → Decidable (Fit prev stop pieces)
  | [] => inferInstanceAs (Decidable True)
  | p :: pieces =>
    have := decidableFit (p.source.getLastD prev) stop pieces
    inferInstanceAs (Decidable
      (p.Fits prev ((textOf pieces).headD stop) ∧ Fit (p.source.getLastD prev) stop pieces))

def closing (selfClosing : Bool) : Text := if selfClosing then ['/', '>'] else ['>']

def stop (selfClosing : Bool) : Char := if selfClosing then '/' else '>'

theorem textOf_cons (p : Piece) (pieces : List Piece) :
    textOf (p :: pieces) = p.source ++ textOf pieces :=
  List.flatMap_cons

theorem textOf_append (pieces more : List Piece) :
    textOf (pieces ++ more) = textOf pieces ++ textOf more :=
  List.flatMap_append

/-- What stands behind pieces, with the character that it begins with. -/
theorem exists_next (pieces : List Piece) (selfClosing : Bool) (back : Text) :
    ∃ r, textOf pieces ++ (closing selfClosing ++ back) =
      (textOf pieces).headD (stop selfClosing) :: r := by
  cases textOf pieces with
  | nil => cases selfClosing <;> exact ⟨_, rfl⟩
  | cons c r => exact ⟨_, rfl⟩

-- ---------------------------------------------------------------------------
-- Characters
-- ---------------------------------------------------------------------------

theorem isNameChar_eq {c : Char} (h : isNameChar c = true) :
    Text.isBlank c = false ∧ c ≠ '/' ∧ c ≠ '>' ∧ c ≠ '=' ∧ StartTag.isQuote c = false := by
  simp only [isNameChar, Bool.not_eq_true', Bool.or_eq_false_iff, decide_eq_false_iff_not] at h
  obtain ⟨⟨⟨⟨⟨hblank, hslash⟩, hgt⟩, hquote⟩, hapostrophe⟩, hsign⟩ := h
  exact ⟨hblank, hslash, hgt, hsign, by simp [StartTag.isQuote, hquote, hapostrophe]⟩

theorem startsAttribute_of_isNameChar {c : Char} (h : isNameChar c = true) :
    StartTag.startsAttribute c = true := by
  obtain ⟨hblank, hslash, hgt, -⟩ := isNameChar_eq h
  simp [StartTag.startsAttribute, hblank, hslash, hgt]

theorem isAttributeChar_of_isNameChar {c : Char} (h : isNameChar c = true) :
    StartTag.isAttributeChar c = true := by
  obtain ⟨hblank, hslash, hgt, hsign, -⟩ := isNameChar_eq h
  simp [StartTag.isAttributeChar, hblank, hslash, hgt, hsign]

theorem not_isNameChar_of_not_isAttributeChar {c : Char} (h : StartTag.isAttributeChar c = false) :
    isNameChar c = false := by
  cases hname : isNameChar c with
  | false => rfl
  | true => exact absurd (h.symm.trans (isAttributeChar_of_isNameChar hname)) Bool.false_ne_true

theorem isBareChar_of_isNameChar {c : Char} (h : isNameChar c = true) :
    StartTag.isBareChar c = true := by
  obtain ⟨hblank, -, hgt, -⟩ := isNameChar_eq h
  simp [StartTag.isBareChar, hblank, hgt]

theorem not_isBlank_of_isQuote {c : Char} (h : StartTag.isQuote c = true) :
    Text.isBlank c = false := by
  simp only [StartTag.isQuote, Bool.or_eq_true, decide_eq_true_eq] at h
  rcases h with rfl | rfl <;> decide

theorem ne_sign_of_isQuote {c : Char} (h : StartTag.isQuote c = true) : c ≠ '=' := by
  rintro rfl
  cases h

theorem ne_sign_of_isBlank {c : Char} (h : Text.isBlank c = true) : c ≠ '=' := by
  rintro rfl
  exact absurd h (by decide)

theorem not_isBlank_of_isBareChar {c : Char} (h : StartTag.isBareChar c = true) :
    Text.isBlank c = false := by
  cases hblank : Text.isBlank c with
  | false => rfl
  | true => simp [StartTag.isBareChar, hblank] at h

-- ---------------------------------------------------------------------------
-- Assignments
-- ---------------------------------------------------------------------------

section Assignments

variable {a : Assignment} {next : Char} {r : Text}

theorem exists_bareValue {after value : Text}
    (h : (Assignment.bareValue after value).head?.map StartTag.isQuote = some false) :
    ∃ d t, Assignment.bareValue after value = d :: t ∧ StartTag.isQuote d = false := by
  cases hvalue : Assignment.bareValue after value with
  | nil =>
    rw [hvalue] at h
    cases h
  | cons d t =>
    rw [hvalue] at h
    exact ⟨d, t, rfl, Option.some.inj h⟩

/-- A value without quotes begins with no quote. -/
theorem exists_value {after value : Text}
    (h : (Assignment.bareValue after value).head?.map StartTag.isQuote = some false) :
    ∃ d t, value = d :: t ∧ StartTag.isQuote d = false := by
  obtain ⟨d, t, hvalue, hquote⟩ := exists_bareValue h
  unfold Assignment.bareValue at hvalue
  split at hvalue
  · cases value with
    | nil => cases hvalue
    | cons c r =>
      by_cases hc : c = '='
      · exact ⟨c, r, rfl, by rw [hc]; rfl⟩
      · rw [List.dropWhile_cons_of_neg (by simp [hc])] at hvalue
        exact ⟨d, t, hvalue, hquote⟩
  · exact ⟨d, t, hvalue, hquote⟩

/-- What follows the name of an attribute ends the name for both readers. -/
theorem exists_cons_assignment (h : a.Fits next) :
    ∃ c t, a.source ++ next :: r = c :: t ∧ StartTag.isAttributeChar c = false := by
  have hsigned {before : Text} (hbefore : ∀ c ∈ before, Text.isBlank c = true) (back : Text) :
      ∃ c t, before ++ '=' :: back = c :: t ∧ StartTag.isAttributeChar c = false := by
    cases before with
    | nil => exact ⟨'=', back, rfl, rfl⟩
    | cons c t =>
      refine ⟨c, t ++ '=' :: back, rfl, ?_⟩
      simp [StartTag.isAttributeChar, hbefore c List.mem_cons_self]
  cases a with
  | missing =>
    refine ⟨next, r, rfl, ?_⟩
    have hnext : StartTag.startsAttribute next = false := h
    simp only [StartTag.startsAttribute, Bool.not_eq_false', Bool.or_eq_true] at hnext
    simp only [StartTag.isAttributeChar, Bool.not_eq_false', Bool.or_eq_true]
    rcases hnext with (hblank | hslash) | hgt
    · exact .inl (.inl (.inl hblank))
    · exact .inl (.inl (.inr hslash))
    · exact .inr hgt
  | bare before after value =>
    simp only [Assignment.source, List.append_assoc, List.cons_append]
    exact hsigned h.1 _
  | quoted before after quote value =>
    simp only [Assignment.source, List.append_assoc, List.cons_append]
    exact hsigned h.1 _

/-- What the reader of markup finds behind the equals sign of a value without quotes. -/
theorem dropWhile_gap {after value : Text} (hafter : ∀ c ∈ after, Text.isBlank c = true)
    (hvalue : ∀ c ∈ value, StartTag.isBareChar c = true) {d : Char} {t : Text}
    (hd : Assignment.bareValue after value = d :: t) (back : Text) :
    (('=' :: (after ++ (value ++ back))).dropWhile (· = '=')).dropWhile Text.isBlank =
      d :: (t ++ back) := by
  rw [List.dropWhile_cons_of_pos (by simp)]
  cases after with
  | nil =>
    have hdrop : value.dropWhile (· = '=') = d :: t := hd
    have hmem : d ∈ value := (List.dropWhile_suffix _).subset (hdrop ▸ List.mem_cons_self)
    rw [List.nil_append, dropWhile_append_of_ne_nil (by rw [hdrop]; exact List.cons_ne_nil d t), hdrop,
      List.cons_append, List.dropWhile_cons_of_neg]
    simp [not_isBlank_of_isBareChar (hvalue d hmem)]
  | cons c r =>
    have hdrop : value = d :: t := hd
    have hmem : d ∈ value := hdrop ▸ List.mem_cons_self
    have hc := hafter c List.mem_cons_self
    rw [List.cons_append, List.dropWhile_cons_of_neg (by simp [ne_sign_of_isBlank hc]),
      ← List.cons_append, hdrop, List.cons_append]
    exact dropWhile_run hafter (not_isBlank_of_isBareChar (hvalue d hmem)) _

theorem dropWhile_quote {after : Text} (hafter : ∀ c ∈ after, Text.isBlank c = true) {quote : Char}
    (hquote : StartTag.isQuote quote = true) (back : Text) :
    (('=' :: (after ++ quote :: back)).dropWhile (· = '=')).dropWhile Text.isBlank =
      quote :: back := by
  have hgap : ('=' :: (after ++ quote :: back)).dropWhile (· = '=') = after ++ quote :: back := by
    rw [List.dropWhile_cons_of_pos (by simp)]
    cases after with
    | nil => exact List.dropWhile_cons_of_neg (by simp [ne_sign_of_isQuote hquote])
    | cons c r =>
      have hc := hafter c List.mem_cons_self
      exact List.dropWhile_cons_of_neg (by simp [ne_sign_of_isBlank hc])
  rw [hgap]
  exact dropWhile_run hafter (not_isBlank_of_isQuote hquote) _

/-- The reader of markup takes an assignment for what it assigns. -/
theorem valueAt_assignment (h : a.Fits next)
    (hnext : ((next :: r).dropWhile Text.isBlank).head? ≠ some '=') :
    StartTag.valueAt (a.source ++ next :: r) = (a.value?, next :: r) := by
  have hsign : Text.isBlank '=' = false := by decide
  cases a with
  | missing =>
    have hnone : StartTag.scanValue? (next :: r) = none := if_pos hnext
    rw [Assignment.source, List.nil_append, StartTag.valueAt, hnone]
    rfl
  | bare before after value =>
    obtain ⟨hbefore, hafter, hvalue, hhead, hstop, -⟩ := h
    obtain ⟨d, t, hd, hquote⟩ := exists_bareValue hhead
    have hbare : ∀ c ∈ d :: t, StartTag.isBareChar c = true := by
      intro c hc
      refine hvalue c ?_
      rw [← hd] at hc
      unfold Assignment.bareValue at hc
      split at hc
      · exact (List.dropWhile_suffix _).subset hc
      · exact hc
    have hscan : StartTag.scanValue? (before ++ '=' :: (after ++ (value ++ next :: r))) =
        some (d :: t, next :: r) := by
      unfold StartTag.scanValue?
      rw [dropWhile_run hbefore hsign]
      simp only [dropWhile_gap hafter hvalue hd, hquote]
      refine congrArg some (Prod.ext ?_ ?_)
      · exact takeWhile_run hbare hstop r
      · exact dropWhile_run hbare hstop r
    simp only [Assignment.source, List.append_assoc, List.cons_append, StartTag.valueAt, hscan,
      Assignment.value?, hd]
  | quoted before after quote value =>
    obtain ⟨hbefore, hafter, hquote, hmem⟩ := h
    have hvalue : ∀ c ∈ value, decide (c ≠ quote) = true := by
      intro c hc
      exact decide_eq_true fun heq => hmem (heq ▸ hc)
    have hscan : StartTag.scanValue? (before ++ '=' :: (after ++ quote :: (value ++ quote :: next :: r))) =
        some (value, next :: r) := by
      unfold StartTag.scanValue?
      rw [dropWhile_run hbefore hsign]
      simp only [dropWhile_quote hafter hquote, hquote]
      rw [dropWhile_run hvalue (by simp)]
      exact congrArg some (Prod.ext (takeWhile_run hvalue (by simp) _) rfl)
    simp only [Assignment.source, List.append_assoc, List.cons_append, List.nil_append,
      StartTag.valueAt, hscan, Assignment.value?]

/-- The reader that looks for the place of an attribute skips an assignment. -/
theorem skipValue_assignment (h : a.Fits next)
    (hnext : ((next :: r).dropWhile Text.isBlank).head? ≠ some '=') :
    skipValue (a.source ++ next :: r) = next :: r := by
  have hsign : Text.isBlank '=' = false := by decide
  cases a with
  | missing =>
    rw [Assignment.source, List.nil_append, skipValue]
    split
    · rename_i heq
      rw [heq] at hnext
      exact absurd rfl hnext
    · rfl
  | bare before after value =>
    obtain ⟨hbefore, hafter, hvalue, hhead, hstop, -⟩ := h
    obtain ⟨d, t, rfl, hquote⟩ := exists_value hhead
    have hd := not_isBlank_of_isBareChar (hvalue d List.mem_cons_self)
    have hquoted : stripQuoted? (d :: (t ++ next :: r)) = none := by
      rw [stripQuoted?, hquote]
      rfl
    have hskip : (d :: (t ++ next :: r)).dropWhile StartTag.isBareChar = next :: r :=
      dropWhile_run hvalue hstop r
    have hlength : (next :: r).length < (d :: (t ++ next :: r)).length := by
      simp only [List.length_cons, List.length_append]
      omega
    simp only [Assignment.source, List.append_assoc, List.cons_append, skipValue,
      dropWhile_run hbefore hsign, dropWhile_run hafter hd, hquoted, hskip, if_pos hlength]
  | quoted before after quote value =>
    obtain ⟨hbefore, hafter, hquote, hmem⟩ := h
    have hvalue : ∀ c ∈ value, decide (c ≠ quote) = true := by
      intro c hc
      exact decide_eq_true fun heq => hmem (heq ▸ hc)
    have hquoted : stripQuoted? (quote :: (value ++ quote :: next :: r)) = some (next :: r) := by
      rw [stripQuoted?, hquote, if_pos rfl, dropWhile_run hvalue (by simp)]
    simp only [Assignment.source, List.append_assoc, List.cons_append, List.nil_append, skipValue,
      dropWhile_run hbefore hsign, dropWhile_run hafter (not_isBlank_of_isQuote hquote), hquoted]

end Assignments

-- ---------------------------------------------------------------------------
-- The reader of markup
-- ---------------------------------------------------------------------------

/-- The attributes behind the character `last`, where separators may come first. -/
def scanFrom (last : Char) (s : Text) : WrittenAttributes × Text :=
  StartTag.scanAttributes ((Text.upTo s (StartTag.skipSeparators s)).getLastD last)
    (StartTag.skipSeparators s)

theorem upTo_append_of_suffix {t rest : Text} (s : Text) (h : rest <:+ t) :
    Text.upTo (s ++ t) rest = s ++ Text.upTo t rest := by
  obtain ⟨u, rfl⟩ := h
  have happend (v : Text) : Text.upTo (v ++ rest) rest = v := by simp [Text.upTo]
  rw [← List.append_assoc, happend, happend]

theorem getLastD_append (s t : Text) (c : Char) :
    (s ++ t).getLastD c = t.getLastD (s.getLastD c) := by
  induction s generalizing c with
  | nil => rfl
  | cons d r ih => rw [List.cons_append, List.getLastD_cons, List.getLastD_cons, ih]

theorem getLastD_skipSeparators (before s : Text) (last : Char) :
    (Text.upTo (before ++ s) (StartTag.skipSeparators s)).getLastD last =
      (Text.upTo s (StartTag.skipSeparators s)).getLastD (before.getLastD last) := by
  rw [upTo_append_of_suffix before (StartTag.skipSeparators_isSuffix s), getLastD_append]

theorem scanFrom_separator {c : Char} {s : Text}
    (h : Text.isBlank c = true ∨ c = '/' ∧ s.head? ≠ some '>') (last : Char) :
    scanFrom last (c :: s) = scanFrom c s := by
  have hskip : StartTag.skipSeparators (c :: s) = StartTag.skipSeparators s := by
    rw [StartTag.skipSeparators]
    split
    · rfl
    · rename_i hblank
      exact if_pos (h.resolve_left hblank)
  have hlast := getLastD_skipSeparators [c] s last
  rw [scanFrom, hskip]
  exact congrArg (StartTag.scanAttributes · _) hlast

theorem scanFrom_of_skipSeparators {s : Text} (h : StartTag.skipSeparators s = s) (last : Char) :
    scanFrom last s = StartTag.scanAttributes last s := by
  have hlast := upTo_append_of_suffix s (List.suffix_refl ([] : Text))
  rw [scanFrom, h, Text.upTo, Nat.sub_self]
  rfl

theorem scanFrom_closing (last : Char) (selfClosing : Bool) (back : Text) :
    scanFrom last (closing selfClosing ++ back) = ([], closing selfClosing ++ back) := by
  cases selfClosing with
  | false =>
    rw [scanFrom_of_skipSeparators (by rfl)]
    exact (StartTag.scanAttributes_cons last '>' back).trans (if_neg (by simp [StartTag.startsAttribute]))
  | true =>
    rw [scanFrom_of_skipSeparators (by rfl)]
    exact (StartTag.scanAttributes_cons last '/' ('>' :: back)).trans
      (if_neg (by simp [StartTag.startsAttribute]))

theorem scanFrom_attribute {last first : Char} {s before rest : Text} {found : Text × Option Text}
    (hlast : StartTag.precedesAttribute last = true)
    (hfirst : StartTag.startsAttribute first = true)
    (hfound : StartTag.scanAttribute first s = (found, rest)) (hbefore : first :: s = before ++ rest) :
    scanFrom last (first :: s) =
      (found :: (scanFrom (before.getLastD last) rest).1, (scanFrom (before.getLastD last) rest).2) := by
  have hskip : StartTag.skipSeparators (first :: s) = first :: s := by
    simp only [StartTag.startsAttribute, Bool.not_eq_true', Bool.or_eq_false_iff,
      decide_eq_false_iff_not] at hfirst
    obtain ⟨⟨hblank, hslash⟩, -⟩ := hfirst
    rw [StartTag.skipSeparators, hblank, if_neg Bool.false_ne_true, if_neg fun h => hslash h.1]
  rw [scanFrom_of_skipSeparators hskip, StartTag.scanAttributes_cons, hlast, hfirst]
  simp only [Bool.and_self, if_true, hfound, hbefore, getLastD_skipSeparators]
  rfl

theorem head_textOf {prev : Char} {selfClosing : Bool} {pieces : List Piece}
    (h : Fit prev (stop selfClosing) pieces) (back : Text) :
    ((textOf pieces ++ (closing selfClosing ++ back)).dropWhile Text.isBlank).head? ≠ some '=' := by
  induction pieces generalizing prev with
  | nil => cases selfClosing <;> exact fun heq => nomatch heq
  | cons p pieces ih =>
    obtain ⟨hpiece, htail⟩ := h
    rw [textOf_cons, List.append_assoc]
    cases p with
    | separator c =>
      rcases hpiece with hblank | ⟨rfl, -⟩
      · rw [Piece.source, List.singleton_append, List.dropWhile_cons_of_pos hblank]
        exact ih htail
      · exact fun heq => nomatch heq
    | named name a =>
      obtain ⟨-, hne, hname, -⟩ := hpiece
      obtain ⟨c, t, rfl⟩ := List.exists_cons_of_ne_nil hne
      obtain ⟨hblank, -, -, hsign, -⟩ := isNameChar_eq (hname c List.mem_cons_self)
      simp only [Piece.source, List.cons_append]
      rw [List.dropWhile_cons_of_neg (by simp [hblank])]
      exact fun heq => hsign (Option.some.inj heq)

/-- The reader of markup finds the attributes that the pieces stand for. -/
theorem scanFrom_textOf {prev : Char} {selfClosing : Bool} {pieces : List Piece}
    (h : Fit prev (stop selfClosing) pieces) (back : Text) :
    scanFrom prev (textOf pieces ++ (closing selfClosing ++ back)) =
      (written pieces, closing selfClosing ++ back) := by
  induction pieces generalizing prev with
  | nil => exact scanFrom_closing prev selfClosing back
  | cons p pieces ih =>
    obtain ⟨hpiece, htail⟩ := h
    have ih := ih htail
    have hhead := head_textOf htail back
    obtain ⟨r, hr⟩ := exists_next pieces selfClosing back
    rw [textOf_cons, List.append_assoc]
    rw [hr] at ih hhead ⊢
    cases p with
    | separator c =>
      simp only [Piece.source, List.singleton_append, List.getLastD_cons, List.getLastD_nil] at ih ⊢
      rw [scanFrom_separator (by simpa [Piece.Fits] using hpiece), ih]
      rfl
    | named name a =>
      obtain ⟨hprev, hne, hname, hfits⟩ := hpiece
      obtain ⟨first, t, rfl⟩ := List.exists_cons_of_ne_nil hne
      have hfirst := startsAttribute_of_isNameChar (hname first List.mem_cons_self)
      have ht : ∀ c ∈ t, StartTag.isAttributeChar c = true := fun c hc =>
        isAttributeChar_of_isNameChar (hname c (List.mem_cons_of_mem first hc))
      have hfound : StartTag.scanAttribute first
          (t ++ (a.source ++ (textOf pieces).headD (stop selfClosing) :: r)) =
            ((first :: t, a.value?), (textOf pieces).headD (stop selfClosing) :: r) := by
        obtain ⟨c, u, hcons, hc⟩ := exists_cons_assignment hfits (r := r)
        have hvalue := valueAt_assignment hfits hhead
        rw [hcons] at hvalue ⊢
        rw [StartTag.scanAttribute_eq, takeWhile_run ht hc, dropWhile_run ht hc, hvalue]
      simp only [Piece.source, List.append_assoc, List.cons_append] at ih ⊢
      have hbefore : first :: (t ++ (a.source ++ (textOf pieces).headD (stop selfClosing) :: r)) =
          first :: (t ++ a.source) ++ (textOf pieces).headD (stop selfClosing) :: r := by simp
      rw [scanFrom_attribute hprev hfirst hfound hbefore, ih]
      rfl

-- ---------------------------------------------------------------------------
-- The reader that looks for a place
-- ---------------------------------------------------------------------------

theorem find?_nil (name : Text) : find? name [] = none := by
  rw [find?.eq_def]

theorem find?_cons (name : Text) (c : Char) (r : Text) :
    find? name (c :: r) =
      if isNameChar c then
        if Text.lower (c :: r.takeWhile isNameChar) = name then
          some (c :: r, skipValue (r.dropWhile isNameChar))
        else find? name (skipValue (r.dropWhile isNameChar))
      else find? name r := by
  rw [find?.eq_def]

theorem find?_cons_of_not_isNameChar {c : Char} (hc : isNameChar c = false) (name s : Text) :
    find? name (c :: s) = find? name s := by
  rw [find?_cons, if_neg (by simp [hc])]

/-- An attribute is what is looked for, or it is skipped with its value. -/
theorem find?_named {written : Text} (hne : written ≠ [])
    (hwritten : ∀ c ∈ written, isNameChar c = true) {a : Assignment} {next : Char} (hfits : a.Fits next)
    {r : Text} (hnext : ((next :: r).dropWhile Text.isBlank).head? ≠ some '=') (name : Text) :
    find? name (written ++ (a.source ++ next :: r)) =
      if Text.lower written = name then some (written ++ (a.source ++ next :: r), next :: r)
      else find? name (next :: r) := by
  obtain ⟨c, t, rfl⟩ := List.exists_cons_of_ne_nil hne
  have ht : ∀ d ∈ t, isNameChar d = true := fun d hd => hwritten d (List.mem_cons_of_mem c hd)
  have hskip := skipValue_assignment hfits hnext
  obtain ⟨d, u, hcons, hd⟩ := exists_cons_assignment hfits (r := r)
  have hd := not_isNameChar_of_not_isAttributeChar hd
  rw [hcons] at hskip ⊢
  rw [List.cons_append, find?_cons, if_pos (hwritten c List.mem_cons_self), takeWhile_run ht hd,
    dropWhile_run ht hd, hskip]

theorem find?_closing (name : Text) (selfClosing : Bool) : find? name (closing selfClosing) = none := by
  have hslash : isNameChar '/' = false := by decide
  have hgt : isNameChar '>' = false := by decide
  cases selfClosing with
  | false =>
    rw [closing, if_neg Bool.false_ne_true, find?_cons_of_not_isNameChar hgt, find?_nil]
  | true =>
    rw [closing, if_pos rfl, find?_cons_of_not_isNameChar hslash, find?_cons_of_not_isNameChar hgt,
      find?_nil]

/-- Whether the name of an attribute is `name` in letters of either case. -/
def IsNamed (name : Text) (entry : Text × Option Text) : Prop := Text.lower entry.1 = name

/-- Whether the reader that looks for `name` comes to the first attribute of the name among those of
the pieces, or finds none where there is none. -/
def Locates (name : Text) (selfClosing : Bool) (pieces : List Piece) : Prop :=
  ((∀ entry ∈ written pieces, ¬ IsNamed name entry) ∧
    find? name (textOf pieces ++ closing selfClosing) = none) ∨
  ∃ before own a after, pieces = before ++ Piece.named own a :: after ∧ Text.lower own = name ∧
    (∀ entry ∈ written before, ¬ IsNamed name entry) ∧
    find? name (textOf pieces ++ closing selfClosing) =
      some (textOf (.named own a :: after) ++ closing selfClosing,
        textOf after ++ closing selfClosing)

/-- A piece that is not what is looked for is skipped. -/
theorem Locates.cons {name : Text} {selfClosing : Bool} {p : Piece} {pieces : List Piece}
    (h : Locates name selfClosing pieces)
    (hskip : find? name (textOf (p :: pieces) ++ closing selfClosing) =
      find? name (textOf pieces ++ closing selfClosing))
    (hp : ∀ entry, p.written? = some entry → ¬ IsNamed name entry) :
    Locates name selfClosing (p :: pieces) := by
  have hcons {others : List Piece} (hothers : ∀ entry ∈ written others, ¬ IsNamed name entry) :
      ∀ entry ∈ written (p :: others), ¬ IsNamed name entry := by
    intro entry hmem
    obtain ⟨q, hq, hwritten⟩ := List.mem_filterMap.1 hmem
    rcases List.mem_cons.1 hq with rfl | hq
    · exact hp entry hwritten
    · exact hothers entry (List.mem_filterMap.2 ⟨q, hq, hwritten⟩)
  rw [Locates, hskip]
  rcases h with ⟨hnone, hfind⟩ | ⟨before, own, a, after, rfl, hown, hbefore, hfind⟩
  · exact .inl ⟨hcons hnone, hfind⟩
  · exact .inr ⟨p :: before, own, a, after, rfl, hown, hcons hbefore, hfind⟩

/-- What is looked for is the first attribute of the name among those of the pieces. -/
theorem find?_textOf {prev : Char} {selfClosing : Bool} {pieces : List Piece}
    (h : Fit prev (stop selfClosing) pieces) (name : Text) : Locates name selfClosing pieces := by
  induction pieces generalizing prev with
  | nil => exact .inl ⟨List.forall_mem_nil _, find?_closing name selfClosing⟩
  | cons p pieces ih =>
    obtain ⟨hpiece, htail⟩ := h
    have ih := ih htail
    cases p with
    | separator c =>
      have hc : isNameChar c = false := by
        rcases hpiece with hblank | ⟨rfl, -⟩
        · simp [isNameChar, hblank]
        · decide
      exact ih.cons (find?_cons_of_not_isNameChar hc name _) fun entry h => by cases h
    | named own a =>
      obtain ⟨-, hne, hown, hfits⟩ := hpiece
      have hhead := head_textOf htail []
      obtain ⟨r, hr⟩ := exists_next pieces selfClosing []
      rw [List.append_nil] at hhead hr
      have hfind := find?_named hne hown hfits (hr ▸ hhead) name
      rw [← hr] at hfind
      have htext : textOf (.named own a :: pieces) ++ closing selfClosing =
          own ++ (a.source ++ (textOf pieces ++ closing selfClosing)) := by
        rw [textOf_cons, Piece.source, List.append_assoc, List.append_assoc]
      by_cases hlower : Text.lower own = name
      · rw [if_pos hlower, ← htext] at hfind
        exact .inr ⟨[], own, a, pieces, rfl, hlower, List.forall_mem_nil _, hfind⟩
      · rw [if_neg hlower, ← htext] at hfind
        refine ih.cons hfind fun entry h => ?_
        cases h
        exact hlower

end TagText

-- ---------------------------------------------------------------------------
-- Tags
-- ---------------------------------------------------------------------------

open TagText

/-- A start tag whose pieces may stand one behind the other. -/
structure PlainTag where
  name : Text
  pieces : List Piece
  selfClosing : Bool
  name_alpha : ∃ c r, name = c :: r ∧ c.isAlpha = true
  name_chars : ∀ c ∈ name, StartTag.isNameChar c = true
  element_chars : ∀ c ∈ name, isElementChar c = true
  name_ends : StartTag.isNameChar ((textOf pieces).headD (stop selfClosing)) = false ∧
    isElementChar ((textOf pieces).headD (stop selfClosing)) = false
  fit : Fit (name.getLastD '<') (stop selfClosing) pieces

namespace PlainTag

/-- The text of the tag behind its first character, `<`. -/
def interior (t : PlainTag) : Text := t.name ++ (textOf t.pieces ++ closing t.selfClosing)

theorem exists_interior (t : PlainTag) (back : Text) :
    ∃ c r, t.interior ++ back = c :: r ∧ c.isAlpha = true := by
  obtain ⟨c, r, hname, hc⟩ := t.name_alpha
  refine ⟨c, r ++ (textOf t.pieces ++ closing t.selfClosing) ++ back, ?_, hc⟩
  rw [interior, hname]
  rfl

/-- The reader of markup finds the name and the attributes of the tag. -/
theorem scanHead (t : PlainTag) (back : Text) :
    StartTag.scanHead (t.interior ++ back) =
      (⟨Text.lower t.name, written t.pieces⟩, closing t.selfClosing ++ back) := by
  have hscan := scanFrom_textOf t.fit back
  obtain ⟨r, hr⟩ := exists_next t.pieces t.selfClosing back
  rw [hr] at hscan
  simp only [interior, List.append_assoc, hr, StartTag.scanHead, takeWhile_run t.name_chars t.name_ends.1,
    dropWhile_run t.name_chars t.name_ends.1, getLastD_skipSeparators]
  rw [scanFrom] at hscan
  rw [hscan]

/-- The step at the tag, given that the references in its values can be resolved. -/
theorem startStep? (t : PlainTag) (back : Text) :
    Html.startStep? (t.interior ++ back) =
      match (written t.pieces).mapM StartTag.resolveAttribute with
      | .error e => .error (.overlongReference e.digits)
      | .ok attributes => .ok (some (.token
          (.start ⟨t.interior, Text.lower t.name, attributes, t.selfClosing⟩) back)) := by
  have hinterior : Text.upTo (t.interior ++ back) back = t.interior := by simp [Text.upTo]
  rw [startStep?_eq, scanHead]
  cases h : (written t.pieces).mapM StartTag.resolveAttribute with
  | error e =>
    cases t.selfClosing with
    | false => simp [closing, headStep?, h]
    | true => simp [closing, headStep?, h]
  | ok attributes =>
    cases t.selfClosing with
    | false => simp [closing, headStep?, h, hinterior]
    | true => simp [closing, headStep?, h, hinterior]

/-- The reader that looks for a place begins behind the name of the element. -/
theorem afterElementName (t : PlainTag) :
    TagText.afterElementName ('<' :: t.interior) = textOf t.pieces ++ closing t.selfClosing := by
  obtain ⟨c, r, hname, -⟩ := t.name_alpha
  obtain ⟨u, hu⟩ := exists_next t.pieces t.selfClosing []
  rw [List.append_nil] at hu
  have hne : t.name.isEmpty = false := by
    rw [hname]
    rfl
  simp only [TagText.afterElementName, interior, hu, takeWhile_run t.element_chars t.name_ends.2,
    dropWhile_run t.element_chars t.name_ends.2, hne, Bool.false_eq_true, if_false]

theorem step (t : PlainTag) (last : Bool) (back : Text) :
    Html.step last none ('<' :: (t.interior ++ back)) =
      match (written t.pieces).mapM StartTag.resolveAttribute with
      | .error e => .error (.overlongReference e.digits)
      | .ok attributes => .ok (.token
          (.start ⟨t.interior, Text.lower t.name, attributes, t.selfClosing⟩) back) := by
  obtain ⟨c, r, hinterior, hc⟩ := t.exists_interior back
  have hstep := t.startStep? back
  rw [hinterior] at hstep ⊢
  rw [step_markup, markupStep?_alpha hc, hstep]
  cases (written t.pieces).mapM StartTag.resolveAttribute <;> rfl

/-- The start tag that is read at a plain one has its attributes. -/
theorem of_step {t : PlainTag} {last : Bool} {back rest : Text} {tag : StartTag}
    (h : Html.step last none ('<' :: (t.interior ++ back)) = .ok (.token (.start tag) rest)) :
    (written t.pieces).mapM StartTag.resolveAttribute = .ok tag.attributes ∧
      tag = ⟨t.interior, Text.lower t.name, tag.attributes, t.selfClosing⟩ := by
  rw [t.step] at h
  cases hattributes : (written t.pieces).mapM StartTag.resolveAttribute with
  | error e =>
    rw [hattributes] at h
    cases h
  | ok attributes =>
    rw [hattributes] at h
    cases h
    exact ⟨rfl, rfl⟩

end PlainTag

def StartTag.IsPlain (tag : StartTag) : Prop := ∃ t : PlainTag, tag.interior = t.interior

/-- A start tag of a name and pieces that may stand behind it is plain. -/
theorem StartTag.isPlain_of_fit {tag : StartTag} {c : Char} {r : Text} (pieces : List Piece)
    (h : tag.interior = c :: r ++ (textOf pieces ++ ['>'])) (hc : c.isAlpha = true)
    (hchars : (c :: r).all StartTag.isNameChar = true)
    (helement : (c :: r).all isElementChar = true)
    (hends : StartTag.isNameChar ((textOf pieces).headD '>') = false ∧
      isElementChar ((textOf pieces).headD '>') = false)
    (hfit : Fit ((c :: r).getLastD '<') '>' pieces) : tag.IsPlain :=
  ⟨⟨c :: r, pieces, false, ⟨c, r, rfl, hc⟩, List.all_eq_true.1 hchars,
    List.all_eq_true.1 helement, hends, hfit⟩, h⟩

/-- A start tag of nothing but a name is plain. -/
theorem StartTag.isPlain_of_name {tag : StartTag} {c : Char} {r : Text}
    (h : tag.interior = c :: r ++ ['>']) (hc : c.isAlpha = true)
    (hchars : (c :: r).all StartTag.isNameChar = true)
    (helement : (c :: r).all isElementChar = true) : tag.IsPlain :=
  isPlain_of_fit [] h hc hchars helement ⟨rfl, rfl⟩ trivial

end PageSplice.Html
