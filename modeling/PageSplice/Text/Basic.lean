-- SUMMARY: Texts as lists of characters: cutting, splitting, searching and decimal numerals.

/-!
# Texts

Markup, paths, mime types and messages are sequences of Unicode scalar values.
They are kept as lists of characters, so that every offset and length counts
characters and every operation below is a plain recursion.
-/

namespace PageSplice

/-- A sequence of Unicode scalar values. -/
abbrev Text := List Char

namespace Text

-- ---------------------------------------------------------------------------
-- Cutting
-- ---------------------------------------------------------------------------

def slice (s : Text) (i j : Nat) : Text := (s.take j).drop i

theorem length_slice (s : Text) (i j : Nat) : (slice s i j).length = min j s.length - i := by
  simp [slice]

/-- What precedes the first `c`, or all of `s` where `c` does not occur. -/
def before (c : Char) (s : Text) : Text := s.takeWhile (· ≠ c)

/-- What follows the first `c`; `none` where `c` does not occur. -/
def after? (c : Char) (s : Text) : Option Text :=
  match s.dropWhile (· ≠ c) with
  | [] => none
  | _ :: r => some r

/-- What follows the last `c`, or all of `s` where `c` does not occur. -/
def afterLast (c : Char) (s : Text) : Text := (s.reverse.takeWhile (· ≠ c)).reverse

/-- What precedes the last `c`; empty where `c` does not occur. -/
def beforeLast (c : Char) (s : Text) : Text :=
  ((s.reverse.dropWhile (· ≠ c)).drop 1).reverse

/-- The pieces between the separators: there is one more piece than there are separators. -/
def splitBy (isSeparator : Char → Bool) : Text → List Text
  | [] => [[]]
  | c :: r =>
    if isSeparator c then [] :: splitBy isSeparator r
    else (splitBy isSeparator r).modifyHead (c :: ·)

def splitOn (c : Char) (s : Text) : List Text := splitBy (· = c) s

/-- The pieces of `parts` with `separator` between any two of them. -/
def joinWith (separator : Text) (parts : List Text) : Text := separator.intercalate parts

def trimLeft (p : Char → Bool) (s : Text) : Text := s.dropWhile p

def trimRight (p : Char → Bool) (s : Text) : Text := (s.reverse.dropWhile p).reverse

-- ---------------------------------------------------------------------------
-- Searching
-- ---------------------------------------------------------------------------

def occursIn (t : Text) : Text → Bool
  | [] => t.isEmpty
  | c :: r => t.isPrefixOf (c :: r) || occursIn t r

def endsWith (s t : Text) : Bool := t.isSuffixOf s

/-- Tries `m` at each suffix of `s` in turn, the longest first. `m` answers with what it leaves
over, and so does the search. -/
def search (m : Text → Option Text) : Text → Option Text
  | [] => m []
  | c :: r => (m (c :: r)).or (search m r)

/-- What `s` holds in front of its suffix `rest`. -/
def upTo (s rest : Text) : Text := s.take (s.length - rest.length)

theorem upTo_append {s rest : Text} (h : rest <:+ s) : upTo s rest ++ rest = s := by
  obtain ⟨t, rfl⟩ := h
  simp [upTo]

theorem search_isSuffix {m : Text → Option Text}
    (hm : ∀ {s rest : Text}, m s = some rest → rest <:+ s) {s rest : Text}
    (h : search m s = some rest) : rest <:+ s := by
  induction s with
  | nil => exact hm h
  | cons c r ih =>
    rw [search, Option.or_eq_some_iff] at h
    rcases h with h | ⟨_, h⟩
    · exact hm h
    · exact (ih h).trans (List.suffix_cons c r)

-- ---------------------------------------------------------------------------
-- Numerals
-- ---------------------------------------------------------------------------

def ofNat (n : Nat) : Text := Nat.toDigits 10 n

/-- The decimal numeral of `i`, with a minus sign where `i` is negative. -/
def ofInt : Int → Text
  | .ofNat n => ofNat n
  | .negSucc n => '-' :: ofNat (n + 1)

/-- The most decimal digits of an integer that is read or written. -/
def maxDigits : Nat := 4300

/-- Whether the numeral of `n` has at most that many digits. -/
def fitsIn (digits n : Nat) : Bool := n < Nat.pow 10 digits

/-- The number written by `digits` in the given base, for digits below the base. -/
def toNat (base : Nat) (digits : Text) : Nat :=
  digits.foldl (fun n c => n * base + hexValue c) 0
where
  /-- The value of a hexadecimal digit; letters of either case. -/
  hexValue (c : Char) : Nat :=
    if c.isDigit then c.toNat - 48
    else if 'a' ≤ c ∧ c ≤ 'f' then c.toNat - 87
    else if 'A' ≤ c ∧ c ≤ 'F' then c.toNat - 55
    else 0

/-- The lower-case hexadecimal numeral of `n` with at least `width` digits. -/
def hex (width n : Nat) : Text :=
  let digits := Nat.toDigits 16 n
  List.replicate (width - digits.length) '0' ++ digits

def isHexDigit (c : Char) : Bool :=
  c.isDigit || ('a' ≤ c && c ≤ 'f') || ('A' ≤ c && c ≤ 'F')

/-- Strict order of texts by code point, a shorter text before its extensions. -/
def precedes : Text → Text → Bool
  | [], [] => false
  | [], _ :: _ => true
  | _ :: _, [] => false
  | a :: r, b :: s => if a = b then precedes r s else a.toNat < b.toNat

end Text

end PageSplice
