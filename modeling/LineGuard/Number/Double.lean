/-
# Floating-point numbers

A floating-point number of 64 bits is an integer below `2 ^ 53` times a power of
two, an infinity, or not a number. The number nearest to a decimal numeral is
found by exact integer arithmetic, a tie going to the even mantissa.
-/

import LineGuard.Number.Decimal

namespace LineGuard

/-- A floating-point number of 64 bits. -/
inductive Double where
  | nan
  | infinite (isNegative : Bool)
  /-- The number `± mantissa · 2 ^ exponent`. The mantissa is below `2 ^ 53`, and
  below `2 ^ 52` only with the least exponent. -/
  | finite (isNegative : Bool) (mantissa : Nat) (exponent : Int)
deriving DecidableEq, Repr

namespace Double

/-- The least exponent. -/
def minExponent : Int := -1074

/-- The greatest exponent. -/
def maxExponent : Int := 971

/-- The zero of a sign. -/
def zero (isNegative : Bool) : Double := finite isNegative 0 minExponent

/-- Whether a number is neither infinite nor missing. -/
def isFinite : Double → Bool
  | finite .. => true
  | _ => false

/-- Whether a number is one of the two zeros. -/
def isZero : Double → Bool
  | finite _ mantissa _ => mantissa == 0
  | _ => false

/-! ## Rounding -/

/-- The integer nearest to a quotient; a tie goes to the even one. -/
def roundEven (num den : Nat) : Nat :=
  let low := num / den
  let rest := num % den
  if 2 * rest < den ∨ (2 * rest = den ∧ low % 2 = 0) then low else low + 1

/-- The quotient `num / (den · 2 ^ exponent)` as a quotient of integers. -/
def scale (num den : Nat) : (exponent : Int) → Nat × Nat
  | .ofNat e => (num, den * Nat.pow 2 e)
  | .negSucc e => (num * Nat.pow 2 (e + 1), den)

/-- The exponent with which a quotient fills 53 bits, or the least exponent. The
estimate by the lengths of the two integers is right or one too small. -/
def exponentOf (num den : Nat) : Int :=
  let estimate := max ((num.log2 : Int) - den.log2 - 53) minExponent
  let (n, d) := scale num den estimate
  if Nat.pow 2 53 ≤ n / d then estimate + 1 else estimate

/-- The number nearest to a quotient of positive integers. -/
def ofQuotient (isNegative : Bool) (num den : Nat) : Double :=
  let exponent := exponentOf num den
  let (n, d) := scale num den exponent
  let mantissa := roundEven n d
  let (mantissa, exponent) :=
    if mantissa = Nat.pow 2 53 then (Nat.pow 2 52, exponent + 1) else (mantissa, exponent)
  if maxExponent < exponent then infinite isNegative else finite isNegative mantissa exponent

/-- The number nearest to a decimal one. Numbers that are far too great or far too
small are told by their length. -/
def ofDecimal (d : Decimal) : Double :=
  if d.digits = 0 ∨ d.magnitude < -330 then zero d.isNegative
  else if 320 < d.magnitude then infinite d.isNegative
  else
    match d.exponent with
    | .ofNat e => ofQuotient d.isNegative (d.digits * Nat.pow 10 e) 1
    | .negSucc e => ofQuotient d.isNegative d.digits (Nat.pow 10 (e + 1))

/-- The integer nearest to a number that is not negative, a half going up. -/
def roundUp (mantissa : Nat) : (exponent : Int) → Nat
  | .ofNat e => mantissa * Nat.pow 2 e
  | .negSucc e => (mantissa + Nat.pow 2 e) / Nat.pow 2 (e + 1)

/-- The integer of 64 bits without sign that is nearest to a number; whatever is
not a number counts as zero. -/
def toWord : Double → Nat
  | nan => 0
  | infinite isNegative => if isNegative then 0 else Nat.pow 2 64 - 1
  | finite isNegative mantissa exponent =>
    if isNegative then 0 else min (roundUp mantissa exponent) (Nat.pow 2 64 - 1)

end Double

end LineGuard
