-- SUMMARY: Decimal digits of all scripts, and reading the integers that people type.
import PageSplice.Text.Blank

/-!
# Numerals

Every script with decimal digits has its ten digits in a row of code points, so
the zeros say which characters are digits and what each is worth. An integer
that somebody types may be written in any of them, with a sign in front, single
underscores between its digits and blanks around it.
-/

namespace PageSplice.Text

/-- The code points of the zeros. -/
def zeros : List Nat :=
  ["30 660 6f0 7c0 966 9e6 a66 ae6 b66 be6 c66 ce6 d66 de6 e50 ed0 f20 1040 1090 17e0 1810 1946",
   "19d0 1a80 1a90 1b50 1bb0 1c40 1c50 a620 a8d0 a900 a9d0 a9f0 aa50 abf0 ff10 104a0 10d30 11066",
   "110f0 11136 111d0 112f0 11450 114d0 11650 116c0 11730 118e0 11950 11c50 11d50 11da0 16a60",
   "16ac0 16b50 1d7ce 1d7d8 1d7e2 1d7ec 1d7f6 1e140 1e2f0 1e950 1fbf0"].flatMap
    fun line => (splitOn ' ' line.toList).map (toNat 16)

/-- What a decimal digit is worth; `none` for any other character. -/
def digitValue? (c : Char) : Option Nat :=
  (zeros.find? fun first => first ≤ c.toNat && c.toNat < first + 10).map (c.toNat - ·)

/-- Whether `c` is a decimal digit of some script. -/
def isDecimalDigit (c : Char) : Bool := (digitValue? c).isSome

/-- What the digits of a numeral are worth, one by one. A single underscore may stand between two
digits. -/
def numeralDigits? : Text → Option (List Nat)
  | [] => none
  | [c] => (digitValue? c).map ([·])
  | c :: '_' :: r => return (← digitValue? c) :: (← numeralDigits? r)
  | c :: r => return (← digitValue? c) :: (← numeralDigits? r)

/-- The number that a numeral writes. -/
def readNatural? (s : Text) : Option Nat := do
  let digits ← numeralDigits? s
  if digits.length ≤ maxDigits then some (digits.foldl (fun n digit => n * 10 + digit) 0) else none

/-- Whether `c` may stand around an integer: the blanks without the separators of information. -/
def isPadding (c : Char) : Bool := isBlank c && !(0x1C ≤ c.toNat && c.toNat ≤ 0x1F)

def readInteger? (s : Text) : Option Int :=
  match trimRight isPadding (trimLeft isPadding s) with
  | '-' :: r => (readNatural? r).map fun n => -(n : Int)
  | '+' :: r => (readNatural? r).map fun n => (n : Int)
  | s => (readNatural? s).map fun n => (n : Int)

end PageSplice.Text
