/-
# Dates and times of TOML

A date, a time, or both with an optional offset. No setting is a date, so a date is
kept as the text it is written as in the usual form: a `T` between date and time,
no zeros at the end of the fraction of a second and no more than nine digits in it,
and an offset of less than sixty minutes behind its hours.

A date may stand for itself, and then the clock bounds both numbers of its offset. It
may also be given as a string, as the only thing that counts of a table whose first
name is the mark of a date; then the offset may be any that is no longer than a day.
-/

import LineGuard.Text.Basic

namespace LineGuard.Toml.DateTime

/-- How far the numbers of an offset may go. -/
structure OffsetBounds where
  hour : Nat
  minute : Nat

/-- The bounds in a date that stands for itself. -/
def OffsetBounds.clock : OffsetBounds := ⟨23, 59⟩

/-- The bounds in a date that is given as a string: none but those of two digits. -/
def OffsetBounds.string : OffsetBounds := ⟨99, 99⟩

/-- Reads a number of exactly so many digits within bounds, and what follows. -/
def readNumber? (count low high : Nat) (t : Text) : Option (Nat × Text) :=
  let digits := t.take count
  let n := Text.numberOf digits
  if digits.length = count ∧ digits.all Text.isAsciiDigit ∧ low ≤ n ∧ n ≤ high then
    some (n, t.drop count)
  else none

/-- Whether a year has a leap day. -/
def isLeap (year : Nat) : Bool := year % 4 == 0 && (year % 100 != 0 || year % 400 == 0)

/-- The number of days of a month. -/
def daysOf (year month : Nat) : Nat :=
  if month = 2 then if isLeap year then 29 else 28
  else if month = 4 ∨ month = 6 ∨ month = 9 ∨ month = 11 then 30
  else 31

/-- Reads a date, and what follows. -/
def readDate? (t : Text) : Option (Text × Text) := do
  let (year, rest) ← readNumber? 4 0 9999 t
  let (month, rest) ← readNumber? 2 1 12 (← Text.after? ['-'] rest)
  let (_, rest) ← readNumber? 2 1 (daysOf year month) (← Text.after? ['-'] rest)
  return (t.take 10, rest)

/-- Reads an optional fraction of a second, and what follows. -/
def readFraction? : Text → Option (Text × Text)
  | '.' :: rest =>
    let digits := rest.takeWhile Text.isAsciiDigit
    let kept := ((digits.take 9).reverse.dropWhile (· == '0')).reverse
    if digits.isEmpty then none
    else some (if kept.isEmpty then [] else '.' :: kept, rest.dropWhile Text.isAsciiDigit)
  | t => some ([], t)

/-- Reads a time, and what follows. A minute may have a leap second. -/
def readTime? (t : Text) : Option (Text × Text) := do
  let (_, rest) ← readNumber? 2 0 23 t
  let (_, rest) ← readNumber? 2 0 59 (← Text.after? [':'] rest)
  let (_, rest) ← readNumber? 2 0 60 (← Text.after? [':'] rest)
  let (fraction, rest) ← readFraction? rest
  return (t.take 8 ++ fraction, rest)

/-- An offset of some minutes in the usual form. None at all has a plus. -/
def offsetText (isNegative : Bool) (minutes : Nat) : Text :=
  (if isNegative && minutes != 0 then '-' else '+') ::
    Text.digitsOfWidth 10 2 (minutes / 60) ++ ':' :: Text.digitsOfWidth 10 2 (minutes % 60)

/-- The offset that a text is. It is no longer than a day. -/
def offset? (bounds : OffsetBounds) : Text → Option Text
  | [] => some []
  | [c] => if c = 'Z' ∨ c = 'z' then some ['Z'] else none
  | sign :: t => do
    let (hours, rest) ← readNumber? 2 0 bounds.hour t
    let (minutes, rest) ← readNumber? 2 0 bounds.minute (← Text.after? [':'] rest)
    let total := 60 * hours + minutes
    if rest.isEmpty && (sign == '+' || sign == '-') && total ≤ 24 * 60 then
      some (offsetText (sign == '-') total)
    else none

/-- Whether a character may stand between a date and a time. -/
def isTimeMark (c : Char) : Bool := c == 'T' || c == 't' || c == ' '

/-- The usual form of the date or time that a text is, with its offset in some
bounds. -/
def within? (bounds : OffsetBounds) (word : Text) : Option Text :=
  match readDate? word with
  | some (date, []) => some date
  | some (date, mark :: rest) => do
    let (time, rest) ← readTime? rest
    if isTimeMark mark then return date ++ 'T' :: time ++ (← offset? bounds rest) else none
  | none => do
    let (time, rest) ← readTime? word
    if rest.isEmpty then some time else none

/-- The usual form of the date or time that a word is. -/
def ofWord? (word : Text) : Option Text := within? .clock word

/-- The usual form of the date or time that a string is. -/
def ofString? (t : Text) : Option Text := within? .string t

/-- The name that marks a table as a date. -/
def mark : Text := "$__toml_private_datetime".toList

example : ofWord? "1979-05-27 07:32:00.1200-07:00".toList =
    some "1979-05-27T07:32:00.12-07:00".toList := by decide

example : ofWord? "2023-02-29".toList = none ∧ ofWord? "07:32".toList = none ∧
    ofWord? "24:00:00".toList = none := by decide

example : ofString? "23:59:60".toList = some "23:59:60".toList ∧
    ofString? "24:00:00".toList = none ∧
    ofString? "1979-05-27t07:32:00+22:99".toList = some "1979-05-27T07:32:00+23:39".toList ∧
    ofString? "1979-05-27t07:32:00+24:01".toList = none := by decide

end LineGuard.Toml.DateTime
