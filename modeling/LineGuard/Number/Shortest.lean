/-
# The shortest numeral

A floating-point number stands for all numbers that are rounded to it, and is
written with as few digits as tell it apart: the fewest that lie in the interval
around it, and among numerals of that length the nearest. The interval reaches
half way to the two neighbours; its ends belong to it when the mantissa is even.

All is done on integers. A quarter of the last bit is the unit, in which the
number, both ends of the interval and the decimal grid are whole.
-/

import LineGuard.Number.Double

namespace LineGuard.Double

/-- A number between the ends of the numbers rounded to it, all in one unit that
is a power of ten. -/
structure Interval where
  low : Nat
  value : Nat
  high : Nat
  /-- Whether the ends belong to the interval. -/
  isClosed : Bool
  /-- The power of ten that is the unit. -/
  unit : Int
deriving DecidableEq, Repr

namespace Interval

/-- The interval of a positive number. Below a power of two the neighbour is only
half as far away. -/
def of (mantissa : Nat) (exponent : Int) : Interval :=
  let below := if mantissa = Nat.pow 2 52 ∧ minExponent < exponent then 1 else 2
  let (factor, unit) : Nat × Int :=
    match exponent - 2 with
    | .ofNat e => (Nat.pow 2 e, 0)
    | .negSucc e => (Nat.pow 5 (e + 1), .negSucc e)
  { low := (4 * mantissa - below) * factor
    value := 4 * mantissa * factor
    high := (4 * mantissa + 2) * factor
    isClosed := mantissa % 2 == 0
    unit }

/-- Whether a number is rounded to the number of the interval. -/
def holds (i : Interval) (n : Nat) : Bool :=
  (i.low < n && n < i.high) || (i.isClosed && (n == i.low || n == i.high))

/-- The best numeral of a number of digits, if there is one: some digits and the
power of ten they count. -/
def numeral? (i : Interval) (count : Nat) : Option (Nat × Int) :=
  let places := (Text.numeral i.value).length - count
  let step := Nat.pow 10 places
  let digits := i.value / step
  let below := digits * step
  let above := below + step
  let power := i.unit + places
  match i.holds below, i.holds above with
  | true, true =>
    some (if i.value - below < above - i.value then digits else digits + 1, power)
  | true, false => some (digits, power)
  | false, true => some (digits + 1, power)
  | false, false => none

/-- The shortest numeral. Seventeen digits always suffice. -/
def shortest (i : Interval) : Nat × Int :=
  ((List.range' 1 17).findSome? i.numeral?).getD (i.value, i.unit)

end Interval

/-- Some digits times a power of ten without exponent. Zeros at the end of a
fraction are left out. -/
def positional (digits : Nat) : (power : Int) → Text
  | .ofNat e => Text.numeral (digits * Nat.pow 10 e)
  | .negSucc e =>
    let unit := Nat.pow 10 (e + 1)
    let fraction := (Text.digitsOfWidth 10 (e + 1) (digits % unit)).reverse.dropWhile
      (· == '0') |>.reverse
    Text.numeral (digits / unit) ++ if fraction.isEmpty then [] else '.' :: fraction

/-- A number as it is written: its shortest numeral, without exponent. -/
def text : Double → Text
  | nan => "NaN".toList
  | infinite isNegative => if isNegative then "-inf".toList else "inf".toList
  | finite isNegative mantissa exponent =>
    (if isNegative then ['-'] else []) ++
      if mantissa = 0 then ['0']
      else
        let (digits, power) := (Interval.of mantissa exponent).shortest
        positional digits power

end LineGuard.Double
