-- SUMMARY: Blank characters, and trimming and splitting texts at them.
import PageSplice.Text.Basic

/-!
# Blanks

The characters that count as white space wherever text is trimmed, split into
words or skipped: the Unicode characters of bidirectional type B, S or WS or of
category Zs. The zero-width space and the byte-order mark are not among them.
-/

namespace PageSplice.Text

def isBlank (c : Char) : Bool :=
  let n := c.toNat
  n = 0x20 || (0x09 ≤ n && n ≤ 0x0D) || (0x1C ≤ n && n ≤ 0x1F) || n = 0x85 || n = 0xA0 ||
  n = 0x1680 || (0x2000 ≤ n && n ≤ 0x200A) || n = 0x2028 || n = 0x2029 || n = 0x202F ||
  n = 0x205F || n = 0x3000

def trim (s : Text) : Text := trimRight isBlank (trimLeft isBlank s)

/-- Whether `s` holds nothing but white space. -/
def blank (s : Text) : Bool := s.all isBlank

/-- The words of `s`: its longest runs of characters that are not white space. -/
def words (s : Text) : List Text := (splitBy isBlank s).filter (· ≠ [])

end PageSplice.Text
