-- SUMMARY: Percent-decoding of URL paths.
import PageSplice.Charset.Utf8

/-!
# Percent-decoding

An escape `%XX` stands for a byte. The bytes of a stretch of ASCII characters
are read together as UTF-8, with the replacement character for what is no
UTF-8; an escape without two hexadecimal digits stands for itself.
-/

namespace PageSplice.Url

/-- The bytes of a stretch of ASCII characters. -/
def unescapeBytes : Text → Bytes
  | '%' :: a :: b :: r =>
    if Text.isHexDigit a && Text.isHexDigit b then
      (Text.toNat 16 [a, b]).toUInt8 :: unescapeBytes r
    else '%'.toNat.toUInt8 :: unescapeBytes (a :: b :: r)
  | c :: r => c.toNat.toUInt8 :: unescapeBytes r
  | [] => []

/-- Decodes `s` after the stretch of ASCII characters `ascii`, which is reversed. -/
def percentDecodeAfter (ascii : Text) : Text → Text
  | [] => Charset.Utf8.decodeLossy (unescapeBytes ascii.reverse)
  | c :: r =>
    if c.toNat < 0x80 then percentDecodeAfter (c :: ascii) r
    else Charset.Utf8.decodeLossy (unescapeBytes ascii.reverse) ++ c :: percentDecodeAfter [] r

def percentDecode (s : Text) : Text := percentDecodeAfter [] s

end PageSplice.Url
