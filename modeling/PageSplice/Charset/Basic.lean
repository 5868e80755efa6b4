-- SUMMARY: The charsets of bodies and files: their names, decoding and encoding.
import PageSplice.Charset.Utf8
import PageSplice.Text.PrintableTable
import PageSplice.Text.Quoted

/-!
# Charsets

A body is decoded and encoded under the charset that its header names. The
two single-byte charsets give each byte the code point of its value; US-ASCII
stops at 128.
-/

namespace PageSplice

inductive Charset
  | utf8
  | latin1
  | ascii
  deriving DecidableEq, Repr

namespace Charset

/-- The name under which messages mention the charset. -/
def name : Charset → Text
  | utf8 => "utf-8".toList
  | latin1 => "latin-1".toList
  | ascii => "ascii".toList

/-- The number of code points of a single-byte charset. -/
def limit : Charset → Nat
  | utf8 => 0x110000
  | latin1 => 0x100
  | ascii => 0x80

-- ---------------------------------------------------------------------------
-- Names
-- ---------------------------------------------------------------------------

/-- A charset name in lower case, with an underscore for each run of characters other than ASCII
letters, digits and dots. -/
def canonicalName (name : Text) : Text :=
  let parts := Text.splitBy (fun c => !(c.isAlphanum || c = '.')) (name.map Char.toLower)
  Text.joinWith ['_'] (parts.filter (· ≠ []))

def utf8Names : List String :=
  ["utf_8", "utf8", "u8", "utf", "utf8_ucs2", "utf8_ucs4", "cp65001"]

def latin1Names : List String :=
  ["latin_1", "iso_8859_1", "iso8859_1", "iso8859", "8859", "cp819", "csisolatin1", "ibm819",
   "iso_8859_1_1987", "iso_ir_100", "l1", "latin", "latin1"]

def asciiNames : List String :=
  ["ascii", "us_ascii", "us", "646", "ansi_x3.4_1968", "ansi_x3_4_1968", "ansi_x3.4_1986", "cp367",
   "csascii", "ibm367", "iso646_us", "iso_646.irv_1991", "iso_ir_6"]

def ofName? (name : Text) : Option Charset :=
  let n := String.ofList (canonicalName name)
  if utf8Names.contains n then some utf8
  else if latin1Names.contains n then some latin1
  else if asciiNames.contains n then some ascii
  else none

-- ---------------------------------------------------------------------------
-- Errors
-- ---------------------------------------------------------------------------

/-- Why bytes are not a text of a charset. -/
inductive DecodeError
  | utf8 (bad : Utf8.BadBytes)
  | ascii (position : Nat) (byte : UInt8)
  deriving DecidableEq, Repr

/-- Characters from `position` on that a charset lacks. -/
structure EncodeError where
  charset : Charset
  position : Nat
  characters : Text
  deriving DecidableEq, Repr

namespace DecodeError

/-- Names the charset, the bytes and their place. -/
def located (charset : Charset) (position : Nat) (bytes : Bytes) (reason : Text) : Text :=
  let place :=
    match bytes with
    | [b] => " byte 0x".toList ++ Text.hex 2 b.toNat ++ " in position ".toList ++
        Text.ofNat position
    | _ => " bytes in position ".toList ++ Text.ofNat position ++ "-".toList ++
        Text.ofNat (position + bytes.length - 1)
  "'".toList ++ charset.name ++ "' codec can't decode".toList ++ place ++ ": ".toList ++ reason

/-- The wording of a decoding error. -/
def message : DecodeError → Text
  | utf8 bad =>
    located .utf8 bad.position bad.bytes <| match bad.fault with
      | .startByte => "invalid start byte".toList
      | .continuation => "invalid continuation byte".toList
      | .truncated => "unexpected end of data".toList
  | ascii position byte =>
    located .ascii position [byte] "ordinal not in range(128)".toList

end DecodeError

/-- The wording of an encoding error. -/
def EncodeError.message (e : EncodeError) : Text :=
  let place :=
    match e.characters with
    | [c] => " character '".toList ++ Text.codeEscape c ++ "' in position ".toList ++
        Text.ofNat e.position
    | _ => " characters in position ".toList ++ Text.ofNat e.position ++ "-".toList ++
        Text.ofNat (e.position + e.characters.length - 1)
  "'".toList ++ e.charset.name ++ "' codec can't encode".toList ++ place ++
    ": ordinal not in range(".toList ++ Text.ofNat e.charset.limit ++ ")".toList

-- ---------------------------------------------------------------------------
-- Decoding and encoding
-- ---------------------------------------------------------------------------

/-- The text of `bytes`. -/
def decode (charset : Charset) (bytes : Bytes) : Except DecodeError Text :=
  match charset with
  | utf8 => (Utf8.decode bytes).mapError .utf8
  | latin1 => .ok (bytes.map fun b => Char.ofNat b.toNat)
  | ascii =>
    match bytes.findIdx? (fun b => 0x80 ≤ b) with
    | some i => .error (.ascii i (bytes.getD i 0))
    | none => .ok (bytes.map fun b => Char.ofNat b.toNat)

/-- The bytes of `text`; an error covers the first run of characters that the charset lacks. -/
def encode (charset : Charset) (text : Text) : Except EncodeError Bytes :=
  match charset with
  | utf8 => .ok (Utf8.encode text)
  | _ =>
    let fits := fun c : Char => decide (c.toNat < charset.limit)
    match text.dropWhile fits with
    | [] => .ok (text.map fun c => c.toNat.toUInt8)
    | misfits =>
      .error ⟨charset, (text.takeWhile fits).length, misfits.takeWhile (!fits ·)⟩

end Charset

end PageSplice
