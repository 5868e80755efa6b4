-- SUMMARY: Start tags: names, attributes and values as a tolerant reader of HTML sees them.
import PageSplice.Html.CharRef
import PageSplice.Text.Blank
import PageSplice.Text.Case

/-!
# Start tags

A start tag is read from left to right without ever going back: the name, then
attributes between separators. Nearly every character may stand in a name, and
a value without quotes runs up to the next white space or `>`. What decides
whether a further attribute begins is the character in front of it.
-/

namespace PageSplice.Html

/-- The attributes of a tag as they are written, each with its value where it has one. -/
abbrev WrittenAttributes := List (Text × Option Text)

namespace StartTag

-- ---------------------------------------------------------------------------
-- Names and separators
-- ---------------------------------------------------------------------------

def isNameChar (c : Char) : Bool :=
  !(c = '\t' || c = '\n' || c = '\r' || c = '\x0c' || c = ' ' || c = '/' || c = '>' || c = '\x00')

/-- `s` without the white space and slashes in front of it. A slash right before `>` stays: it
belongs to the end of the tag. -/
def skipSeparators : Text → Text
  | [] => []
  | c :: r =>
    if Text.isBlank c then skipSeparators r
    else if c = '/' ∧ r.head? ≠ some '>' then skipSeparators r
    else c :: r

theorem skipSeparators_isSuffix (s : Text) : skipSeparators s <:+ s := by
  fun_induction skipSeparators s with
  | case1 => exact List.suffix_refl _
  | case2 c r _ ih => exact ih.trans (List.suffix_cons c r)
  | case3 c r _ _ ih => exact ih.trans (List.suffix_cons c r)
  | case4 => exact List.suffix_refl _

-- ---------------------------------------------------------------------------
-- Attributes
-- ---------------------------------------------------------------------------

def isQuote (c : Char) : Bool := c = '"' || c = '\''

/-- Whether an attribute may begin right behind `c`. -/
def precedesAttribute (c : Char) : Bool := isQuote c || Text.isBlank c || c = '/'

/-- Whether `c` may begin the name of an attribute. -/
def startsAttribute (c : Char) : Bool := !(Text.isBlank c || c = '/' || c = '>')

/-- Whether `c` may stand in the name of an attribute behind its first character. -/
def isAttributeChar (c : Char) : Bool := !(Text.isBlank c || c = '/' || c = '=' || c = '>')

def isBareChar (c : Char) : Bool := !(Text.isBlank c || c = '>')

/-- A value without quotes at the front of `s`, and what follows it. -/
def scanBare (s : Text) : Text × Text := (s.takeWhile isBareChar, s.dropWhile isBareChar)

/-- The value that stands behind an attribute's name, and what follows it. It comes after one or
more equals signs with white space around them. A quote that is never closed opens no value: the
value is then empty where white space stands in front of the quote, else it begins with the last of
several equals signs, and behind a single equals sign there is no value at all. -/
def scanValue? (s : Text) : Option (Text × Text) :=
  let signs := s.dropWhile Text.isBlank
  let gap := signs.dropWhile (· = '=')
  if signs.head? ≠ some '=' then none
  else
    match gap.dropWhile Text.isBlank with
    | [] => some ([], [])
    | c :: r =>
      if isQuote c then
        match r.dropWhile (· ≠ c) with
        | _ :: rest => some (r.takeWhile (· ≠ c), rest)
        | [] =>
          if (gap.head?.map Text.isBlank).getD false then
            some ([], gap.drop ((gap.takeWhile Text.isBlank).length - 1))
          else if (signs.drop 1).head? = some '=' then some (scanBare ('=' :: gap))
          else none
      else some (scanBare (c :: r))

theorem scanBare_isSuffix (s : Text) : (scanBare s).2 <:+ s := List.dropWhile_suffix _

theorem cons_dropWhile_eq_isSuffix {s : Text} (h : (s.drop 1).head? = some '=')
    (h₀ : s.head? = some '=') : '=' :: s.dropWhile (· = '=') <:+ s := by
  induction s with
  | nil => simp at h₀
  | cons c r ih =>
    simp only [List.head?_cons, Option.some.injEq] at h₀
    subst h₀
    simp only [List.drop_one, List.tail_cons] at h
    cases r with
    | nil => simp at h
    | cons d t =>
      simp only [List.head?_cons, Option.some.injEq] at h
      subst h
      cases t with
      | nil => simp
      | cons e u =>
        by_cases he : e = '='
        · subst he
          have := ih (by simp) (by simp)
          simp only [List.dropWhile_cons, decide_true, if_true] at this ⊢
          exact this.trans (List.suffix_cons _ _)
        · simp only [List.dropWhile_cons, decide_true, if_true, he, decide_false]
          exact List.suffix_cons _ _

theorem scanValue?_isSuffix {s value rest : Text} (h : scanValue? s = some (value, rest)) :
    rest <:+ s := by
  have hsigns : s.dropWhile Text.isBlank <:+ s := List.dropWhile_suffix _
  have hgap : (s.dropWhile Text.isBlank).dropWhile (· = '=') <:+ s :=
    (List.dropWhile_suffix _).trans hsigns
  unfold scanValue? at h
  simp only at h
  split at h
  · simp at h
  · rename_i hsign
    split at h
    · simp only [Option.some.injEq, Prod.mk.injEq] at h
      exact h.2 ▸ List.nil_suffix
    · rename_i c r hc
      have hr : c :: r <:+ s := hc ▸ (List.dropWhile_suffix _).trans hgap
      split at h
      · split at h
        · rename_i q t ht
          simp only [Option.some.injEq, Prod.mk.injEq] at h
          have hq : q :: t <:+ r := ht ▸ List.dropWhile_suffix _
          exact h.2 ▸ ((List.suffix_cons q t).trans hq).trans ((List.suffix_cons c r).trans hr)
        · split at h
          · simp only [Option.some.injEq, Prod.mk.injEq] at h
            exact h.2 ▸ (List.drop_suffix _ _).trans hgap
          · split at h
            · rename_i hsecond
              simp only [Option.some.injEq] at h
              have hb := scanBare_isSuffix ('=' :: (s.dropWhile Text.isBlank).dropWhile (· = '='))
              rw [h] at hb
              exact (hb.trans (cons_dropWhile_eq_isSuffix hsecond (by simpa using hsign))).trans
                hsigns
            · simp at h
      · simp only [Option.some.injEq] at h
        have hb := scanBare_isSuffix (c :: r)
        rw [h] at hb
        exact hb.trans hr

/-- The attribute at the front of `first :: s`, and what follows it. -/
def scanAttribute (first : Char) (s : Text) : (Text × Option Text) × Text :=
  let name := first :: s.takeWhile isAttributeChar
  let rest := s.dropWhile isAttributeChar
  match scanValue? rest with
  | some (value, rest) => ((name, some value), rest)
  | none => ((name, none), rest)

theorem scanAttribute_isSuffix (first : Char) (s : Text) : (scanAttribute first s).2 <:+ s := by
  unfold scanAttribute
  simp only
  split
  · rename_i h
    exact (scanValue?_isSuffix h).trans (List.dropWhile_suffix _)
  · exact List.dropWhile_suffix _

/-- The attributes at the front of `s`, which follows the character `last`, and what follows
them. -/
def scanAttributes (last : Char) (s : Text) : WrittenAttributes × Text :=
  match s with
  | [] => ([], [])
  | c :: r =>
    if precedesAttribute last && startsAttribute c then
      let found := (scanAttribute c r).1
      let rest := skipSeparators (scanAttribute c r).2
      let more := scanAttributes ((Text.upTo (c :: r) rest).getLastD last) rest
      (found :: more.1, more.2)
    else ([], c :: r)
termination_by s.length
decreasing_by
  have h := ((skipSeparators_isSuffix _).trans (scanAttribute_isSuffix c r)).length_le
  simp only [List.length_cons]
  omega

theorem scanAttributes_isSuffix (last : Char) (s : Text) : (scanAttributes last s).2 <:+ s := by
  fun_induction scanAttributes last s with
  | case1 => exact List.suffix_refl _
  | case2 last c r _ found rest more ih =>
    exact (ih.trans ((skipSeparators_isSuffix _).trans (scanAttribute_isSuffix c r))).trans
      (List.suffix_cons c r)
  | case3 => exact List.suffix_refl _

-- ---------------------------------------------------------------------------
-- Whole tags
-- ---------------------------------------------------------------------------

structure Head where
  name : Text
  attributes : WrittenAttributes
  deriving DecidableEq, Repr

/-- The head of the start tag whose text behind `<` is `s`, and what follows the head. -/
def scanHead (s : Text) : Head × Text :=
  let name := s.takeWhile isNameChar
  let rest := skipSeparators (s.dropWhile isNameChar)
  let attributes := scanAttributes ((Text.upTo s rest).getLastD '<') rest
  (⟨Text.lower name, attributes.1⟩, attributes.2)

theorem scanHead_isSuffix (s : Text) : (scanHead s).2 <:+ s :=
  ((scanAttributes_isSuffix _ _).trans (skipSeparators_isSuffix _)).trans (List.dropWhile_suffix _)

/-- A written attribute with its name in lower case and the references of its value resolved. -/
def resolveAttribute (written : Text × Option Text) :
    Except CharRef.Overlong (Text × Option Text) := do
  let value ← written.2.mapM CharRef.unescape
  return (Text.lower written.1, value)

end StartTag

end PageSplice.Html
