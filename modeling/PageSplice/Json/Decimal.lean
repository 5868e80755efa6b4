-- SUMMARY: Decimal fractions in JSON texts: their form without trailing zeros, their text, and rounding up.
import PageSplice.Text.Basic

/-!
# Decimal fractions

A number with a point or an exponent is a decimal fraction, and stays one where
its value is an integer. A fraction is kept as the digits that write it and the
power of ten behind them, so that equal numbers have one form. The text has a
point; very large and very small numbers have an exponent instead of zeros. A
zero keeps its sign.
-/

namespace PageSplice.Json

/-- The number `coefficient * 10 ^ exponent`, below zero where it is negative. -/
structure Decimal where
  isNegative : Bool
  coefficient : Nat
  exponent : Int
  deriving DecidableEq, Repr

namespace Decimal

/-- The same coefficient without trailing zeros, which the exponent takes up; a zero has the
exponent zero. -/
def strip (coefficient : Nat) (exponent : Int) : Nat × Int :=
  if coefficient = 0 then (0, 0)
  else if coefficient % 10 = 0 then strip (coefficient / 10) (exponent + 1)
  else (coefficient, exponent)
termination_by coefficient
decreasing_by omega

/-- The fraction that those digits write. -/
def ofDigits (isNegative : Bool) (coefficient : Nat) (exponent : Int) : Decimal :=
  let (coefficient, exponent) := strip coefficient exponent
  ⟨isNegative, coefficient, exponent⟩

def isZero (d : Decimal) : Bool := d.coefficient = 0

/-- The least integer that is not below the number. -/
def ceiling (d : Decimal) : Int :=
  if 0 ≤ d.exponent then
    let n := d.coefficient * Nat.pow 10 d.exponent.toNat
    if d.isNegative then -(n : Int) else n
  else
    let divisor := Nat.pow 10 (-d.exponent).toNat
    if d.isNegative then -((d.coefficient / divisor : Nat) : Int)
    else ((d.coefficient + (divisor - 1)) / divisor : Nat)

/-- An exponent of ten in at least two digits, with its sign. -/
def renderExponent (e : Int) : Text :=
  let digits := Text.ofNat e.natAbs
  (if e < 0 then '-' else '+') :: List.replicate (2 - digits.length) '0' ++ digits

/-- Digits with a point behind the first `point` of them, and zeros where digits are missing. -/
def renderPlain (digits : Text) (point : Int) : Text :=
  if point ≤ 0 then "0.".toList ++ List.replicate (-point).toNat '0' ++ digits
  else if digits.length ≤ point.toNat then
    digits ++ List.replicate (point.toNat - digits.length) '0' ++ ".0".toList
  else digits.take point.toNat ++ '.' :: digits.drop point.toNat

/-- Digits with a point behind the first of them, and an exponent. -/
def renderScientific (digits : Text) (exponent : Int) : Text :=
  digits.take 1 ++ (if digits.length = 1 then [] else '.' :: digits.drop 1) ++
    'e' :: renderExponent exponent

/-- The text of a fraction. The exponent is written out in zeros as long as the first digit stands
for at least one ten-thousandth and at most `10 ^ 15`. -/
def render (d : Decimal) : Text :=
  let digits := Text.ofNat d.coefficient
  let point := digits.length + d.exponent
  (if d.isNegative then ['-'] else []) ++
    if -3 ≤ point ∧ point ≤ 16 then renderPlain digits point
    else renderScientific digits (point - 1)

end Decimal

end PageSplice.Json
