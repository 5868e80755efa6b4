-- SUMMARY: JSON values, with objects that keep the order of their members.
import PageSplice.Json.Decimal

/-!
# JSON values

Source maps and settings hold JSON values. Numbers are integers or decimal
fractions of any size, and an object is the list of its members in their order.
-/

namespace PageSplice.Json

/-- A JSON value. -/
inductive Value
  | null
  | bool (b : Bool)
  | int (i : Int)
  | decimal (d : Decimal)
  | str (s : Text)
  | arr (items : List Value)
  | obj (members : List (Text × Value))

instance : Inhabited Value := ⟨.null⟩

namespace Value

/-- The name of the kind of a value, as messages call it. -/
def kind : Value → Text
  | null => "NoneType".toList
  | bool _ => "bool".toList
  | int _ => "int".toList
  | decimal _ => "float".toList
  | str _ => "str".toList
  | arr _ => "list".toList
  | obj _ => "dict".toList

/-- Whether a value is null, false, zero or without characters, items or members. -/
def isEmpty : Value → Bool
  | null => true
  | bool b => !b
  | int i => i = 0
  | decimal d => d.isZero
  | str s => s.isEmpty
  | arr items => items.isEmpty
  | obj members => members.isEmpty

end Value

end PageSplice.Json
