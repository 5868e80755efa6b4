-- SUMMARY: Character references in attribute values: recognising, resolving, and escaping.
import PageSplice.Html.CharRefTable

/-!
# Character references

An attribute value may write a character by number or by name. Names are those
of HTML5; a name that is not known stands for its longest known beginning of at
least two characters, and for itself where there is none.
-/

namespace PageSplice.Html

/-- A reference, without the ampersand. A name includes the semicolon where there is one. -/
inductive CharRef
  | decimal (digits : Text)
  | hexadecimal (digits : Text)
  | named (name : Text)
  deriving DecidableEq, Repr

namespace CharRef

-- ---------------------------------------------------------------------------
-- Recognising
-- ---------------------------------------------------------------------------

def maxNameLength : Nat := 32

def isNameChar (c : Char) : Bool :=
  !(c = '\t' || c = '\n' || c = '\x0c' || c = ' ' || c = '<' || c = '&' || c = '#' || c = ';')

def skipSemicolon : Text → Text
  | ';' :: r => r
  | s => s

/-- The reference by number that stands behind `&#`, and what follows it. -/
def scanNumber? (s : Text) : Option (CharRef × Text) :=
  match s with
  | [] => none
  | c :: r =>
    if c.isDigit then
      some (.decimal (s.takeWhile Char.isDigit), skipSemicolon (s.dropWhile Char.isDigit))
    else if c = 'x' ∨ c = 'X' then
      let digits := r.takeWhile Text.isHexDigit
      if digits = [] then none
      else some (.hexadecimal digits, skipSemicolon (r.dropWhile Text.isHexDigit))
    else none

/-- The reference that stands behind an ampersand, and what follows it. -/
def scan? (s : Text) : Option (CharRef × Text) :=
  match s with
  | '#' :: r => scanNumber? r
  | _ =>
    let name := (s.takeWhile isNameChar).take maxNameLength
    if name = [] then none
    else match s.drop name.length with
      | ';' :: rest => some (.named (name ++ [';']), rest)
      | rest => some (.named name, rest)

theorem length_dropWhile_le (p : Char → Bool) (s : Text) : (s.dropWhile p).length ≤ s.length :=
  (List.dropWhile_sublist p).length_le

theorem length_skipSemicolon_le (s : Text) : (skipSemicolon s).length ≤ s.length := by
  unfold skipSemicolon
  split <;> simp

theorem length_scanNumber? {s rest : Text} {ref : CharRef}
    (h : scanNumber? s = some (ref, rest)) : rest.length ≤ s.length := by
  unfold scanNumber? at h
  split at h
  · simp at h
  · rename_i c r
    split at h
    · simp only [Option.some.injEq, Prod.mk.injEq] at h
      rw [← h.2]
      exact Nat.le_trans (length_skipSemicolon_le _) (length_dropWhile_le _ _)
    · split at h
      · simp only at h
        split at h
        · simp at h
        · simp only [Option.some.injEq, Prod.mk.injEq] at h
          rw [← h.2]
          exact Nat.le_succ_of_le
            (Nat.le_trans (length_skipSemicolon_le _) (length_dropWhile_le _ _))
      · simp at h

theorem length_scan? {s rest : Text} {ref : CharRef} (h : scan? s = some (ref, rest)) :
    rest.length ≤ s.length := by
  unfold scan? at h
  split at h
  · exact Nat.le_succ_of_le (length_scanNumber? h)
  · simp only at h
    split at h
    · simp at h
    · split at h
      · rename_i hd
        simp only [Option.some.injEq, Prod.mk.injEq] at h
        have := congrArg List.length hd
        simp only [List.length_drop, List.length_cons] at this
        rw [← h.2]; omega
      · simp only [Option.some.injEq, Prod.mk.injEq] at h
        rw [← h.2]; simp

-- ---------------------------------------------------------------------------
-- Resolving
-- ---------------------------------------------------------------------------

/-- What the numbers from 0x80 to 0x9F stand for: the characters of Windows-1252 at these places,
and the number itself where Windows-1252 has none. -/
def windows1252 : List Nat :=
  [0x20ac, 0x81, 0x201a, 0x192, 0x201e, 0x2026, 0x2020, 0x2021, 0x2c6, 0x2030, 0x160, 0x2039, 0x152,
   0x8d, 0x17d, 0x8f, 0x90, 0x2018, 0x2019, 0x201c, 0x201d, 0x2022, 0x2013, 0x2014, 0x2dc, 0x2122,
   0x161, 0x203a, 0x153, 0x9d, 0x17e, 0x178]

/-- Whether a reference to code point `n` stands for nothing: controls and noncharacters. -/
def isVoidCode (n : Nat) : Bool :=
  (1 ≤ n && n ≤ 8) || n = 0x0B || (0x0E ≤ n && n ≤ 0x1F) || n = 0x7F ||
  (0xFDD0 ≤ n && n ≤ 0xFDEF) || n % 0x10000 ≥ 0xFFFE

def ofCode (n : Nat) : Text :=
  if n = 0 then ['\uFFFD']
  else if 0x80 ≤ n ∧ n < 0xA0 then [Char.ofNat (windows1252.getD (n - 0x80) n)]
  else if (0xD800 ≤ n ∧ n ≤ 0xDFFF) ∨ n > 0x10FFFF then ['\uFFFD']
  else if isVoidCode n then []
  else [Char.ofNat n]

/-- Names that occur in most pages, which are looked up before all others. -/
def frequent : List (Text × Text) :=
  [("amp;", '&'), ("lt;", '<'), ("gt;", '>'), ("quot;", '"')].map
    fun (name, c) => (name.toList, [c])

def ofName? (name : Text) : Option Text := (frequent.lookup name).or (charRefTable.lookup name)

/-- What the longest known beginning of `name` with at most `length` characters, and at least two,
stands for, followed by the rest of the name; the name behind an ampersand where there is none. -/
def ofBeginning (name : Text) : Nat → Text
  | 0 | 1 => '&' :: name
  | length + 1 =>
    match ofName? (name.take (length + 1)) with
    | some value => value ++ name.drop (length + 1)
    | none => ofBeginning name length

/-- A decimal reference with more digits than are read. -/
structure Overlong where
  digits : Nat
  deriving DecidableEq, Repr

def resolve : CharRef → Except Overlong Text
  | decimal digits =>
    if digits.length > Text.maxDigits then .error ⟨digits.length⟩
    else .ok (ofCode (Text.toNat 10 digits))
  | hexadecimal digits => .ok (ofCode (Text.toNat 16 digits))
  | named name => .ok ((ofName? name).getD (ofBeginning name (name.length - 1)))

/-- `s` with every reference replaced by what it stands for. -/
def unescape (s : Text) : Except Overlong Text :=
  match s with
  | [] => .ok []
  | c :: r =>
    if c = '&' then
      match h : scan? r with
      | some (ref, rest) => do
        have := length_scan? h
        return (← ref.resolve) ++ (← unescape rest)
      | none => (c :: ·) <$> unescape r
    else (c :: ·) <$> unescape r
termination_by s.length
decreasing_by all_goals (simp only [List.length_cons]; omega)

-- ---------------------------------------------------------------------------
-- Escaping
-- ---------------------------------------------------------------------------

/-- A character as it may stand in an attribute value between quotes of either kind. -/
def escapeChar (c : Char) : Text :=
  if c = '&' then "&amp;".toList
  else if c = '<' then "&lt;".toList
  else if c = '>' then "&gt;".toList
  else if c = '"' then "&quot;".toList
  else if c = '\'' then "&#x27;".toList
  else [c]

/-- A text as it may stand in an attribute value. -/
def escape (s : Text) : Text := s.flatMap escapeChar

end CharRef

end PageSplice.Html
