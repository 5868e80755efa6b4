-- SUMMARY: JSON values as compact ASCII text.
import PageSplice.Json.Value

/-!
# Printing JSON

The text has no blanks between its tokens and is pure ASCII: characters from
U+007F on are written as UTF-16 code units, in two escapes where the character
lies above U+FFFF. A value with an integer of too many digits has a text but is
not printed.
-/

namespace PageSplice.Json

def unitEscape (n : Nat) : Text := "\\u".toList ++ Text.hex 4 n

/-- One character of a string. -/
def escapeChar (c : Char) : Text :=
  if c = '"' then "\\\"".toList
  else if c = '\\' then "\\\\".toList
  else if c = '\n' then "\\n".toList
  else if c = '\r' then "\\r".toList
  else if c = '\t' then "\\t".toList
  else if c = '\x08' then "\\b".toList
  else if c = '\x0c' then "\\f".toList
  else if 0x20 ≤ c.toNat ∧ c.toNat < 0x7F then [c]
  else if c.toNat < 0x10000 then unitEscape c.toNat
  else
    unitEscape (0xD800 + (c.toNat - 0x10000) / 0x400) ++
      unitEscape (0xDC00 + (c.toNat - 0x10000) % 0x400)

def renderString (s : Text) : Text := '"' :: s.flatMap escapeChar ++ ['"']

mutual

/-- The text of a value. -/
def Value.render : Value → Text
  | .null => "null".toList
  | .bool true => "true".toList
  | .bool false => "false".toList
  | .int i => Text.ofInt i
  | .decimal d => d.render
  | .str s => renderString s
  | .arr items => '[' :: renderItems items ++ [']']
  | .obj members => '\x7b' :: renderMembers members ++ ['\x7d']

/-- The items of an array, with commas between them. -/
def renderItems : List Value → Text
  | [] => []
  | [v] => v.render
  | v :: rest => v.render ++ ',' :: renderItems rest

/-- The members of an object, with commas between them. -/
def renderMembers : List (Text × Value) → Text
  | [] => []
  | [(key, v)] => renderString key ++ ':' :: v.render
  | (key, v) :: rest => renderString key ++ ':' :: v.render ++ ',' :: renderMembers rest

end

-- ---------------------------------------------------------------------------
-- Integers that are too long
-- ---------------------------------------------------------------------------

inductive PrintError
  | longInteger
  deriving DecidableEq, Repr

def PrintError.message : PrintError → Text
  | longInteger =>
    "Exceeds the limit (".toList ++ Text.ofNat Text.maxDigits ++
      " digits) for integer string conversion; ".toList ++
      "use sys.set_int_max_str_digits() to increase the limit".toList

mutual

/-- Whether no integer in a value has too many digits. -/
def Value.isPrintable : Value → Bool
  | .int i => Text.fitsIn Text.maxDigits i.natAbs
  | .arr items => itemsPrintable items
  | .obj members => membersPrintable members
  | .null | .bool _ | .decimal _ | .str _ => true

def itemsPrintable : List Value → Bool
  | [] => true
  | v :: rest => v.isPrintable && itemsPrintable rest

def membersPrintable : List (Text × Value) → Bool
  | [] => true
  | (_, v) :: rest => v.isPrintable && membersPrintable rest

end

/-- Objects to a value that is not printed. -/
def Value.check (v : Value) : Except PrintError Unit :=
  if v.isPrintable then .ok () else .error .longInteger

end PageSplice.Json
