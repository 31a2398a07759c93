/-
# Decimal numerals

A numeral with an optional sign, fraction and exponent stands for an exact number:
some digits times a power of ten. Nothing is rounded in reading it; how close a
floating-point number comes to it is a question of its own.
-/

import LineGuard.Text.Basic

namespace LineGuard

/-- The number `± digits · 10 ^ exponent`. -/
structure Decimal where
  isNegative : Bool
  digits : Nat
  exponent : Int
deriving DecidableEq, Repr

namespace Decimal

/-- Reads an optional sign: whether it is a minus, and what follows. -/
def readSign : Text → Bool × Text
  | '-' :: rest => (true, rest)
  | '+' :: rest => (false, rest)
  | t => (false, t)

/-- Reads an optional fraction: its digits, and what follows. A point without
digits is a fraction too. -/
def readFraction : Text → Text × Text
  | '.' :: rest => (rest.takeWhile Text.isAsciiDigit, rest.dropWhile Text.isAsciiDigit)
  | t => ([], t)

/-- The exponent that the end of a numeral spells, zero if there is nothing. -/
def exponent? : Text → Option Int
  | [] => some 0
  | mark :: rest =>
    if mark = 'e' ∨ mark = 'E' then
      let (isNegative, digits) := readSign rest
      if digits.isEmpty || digits.any (!Text.isAsciiDigit ·) then none
      else
        let magnitude : Int := Text.numberOf digits
        some (if isNegative then -magnitude else magnitude)
    else none

/-- The number a numeral spells. There has to be a digit, before the point or
behind it. -/
def ofText? (t : Text) : Option Decimal :=
  let (isNegative, t) := readSign t
  let whole := t.takeWhile Text.isAsciiDigit
  let (fraction, rest) := readFraction (t.dropWhile Text.isAsciiDigit)
  if whole.isEmpty && fraction.isEmpty then none
  else
    (exponent? rest).map fun exponent =>
      { isNegative
        digits := Text.numberOf (whole ++ fraction)
        exponent := exponent - fraction.length }

/-- A bound on the size of a number: it is less than ten to this power. -/
def magnitude (d : Decimal) : Int := (Text.numeral d.digits).length + d.exponent

example : (ofText? "-12.50e1".toList) = some ⟨true, 1250, -1⟩ := by decide

example : (ofText? ".5".toList).isSome ∧ (ofText? "5.".toList).isSome ∧
    (ofText? ".".toList).isNone ∧ (ofText? "1_000".toList).isNone := by decide

end Decimal

end LineGuard
