-- SUMMARY: Texts in quotes, as messages show them.
import PageSplice.Text.PrintableTable

/-!
# Quoted texts

Messages show a text between quotes. The quote is single, unless the text
holds a single quote and no double one. A backslash stands before a backslash
and before the chosen quote; line feed, carriage return and tab have short
escapes, and every other character without a printed form is written by its
code point, in two, four or eight hexadecimal digits.
-/

namespace PageSplice.Text

def isPrintable (c : Char) : Bool :=
  if c.toNat < 0x7F then 0x20 ≤ c.toNat else !unprintableRanges.any (·.contains c)

/-- A code point as an escape of two, four or eight digits. -/
def codeEscape (c : Char) : Text :=
  let n := c.toNat
  if n < 0x100 then "\\x".toList ++ hex 2 n
  else if n < 0x10000 then "\\u".toList ++ hex 4 n
  else "\\U".toList ++ hex 8 n

/-- One character inside `quote`s. -/
def quotedChar (quote c : Char) : Text :=
  if c = quote ∨ c = '\\' then ['\\', c]
  else if c = '\n' then "\\n".toList
  else if c = '\r' then "\\r".toList
  else if c = '\t' then "\\t".toList
  else if isPrintable c then [c]
  else codeEscape c

def quoted (s : Text) : Text :=
  let quote := if s.contains '\'' && !s.contains '"' then '"' else '\''
  quote :: s.flatMap (quotedChar quote) ++ [quote]

end PageSplice.Text
