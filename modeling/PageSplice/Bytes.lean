-- SUMMARY: Byte strings and their hexadecimal form.
import PageSplice.Text.Basic

/-!
# Bytes

Bodies, files and digests are lists of bytes.
-/

namespace PageSplice

abbrev Bytes := List UInt8

namespace Bytes

/-- Two lower-case hexadecimal digits for each byte. -/
def toHex (b : Bytes) : Text := b.flatMap fun byte => Text.hex 2 byte.toNat

def ofHex : Text → Bytes
  | a :: b :: r => (Text.toNat 16 [a, b]).toUInt8 :: ofHex r
  | _ => []

end Bytes

end PageSplice
