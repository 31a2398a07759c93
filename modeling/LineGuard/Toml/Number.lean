/-
# Numbers of TOML

Integers are decimal with an optional sign, or hexadecimal, octal or binary behind
their mark, and have to fit 64 bits. Floats have a fraction or an exponent, or are
one of the two names. Digits may be grouped by single underscores between them.
-/

import LineGuard.Number.Double

namespace LineGuard.Toml

/-- The digits of a number whose groups are separated by underscores. -/
def ungrouped? (isDigit : Char → Bool) (t : Text) : Option Text :=
  let groups := Text.splitAt (· == '_') t
  if groups.all fun group => !group.isEmpty && group.all isDigit then some groups.flatten else none

/-- The number that grouped digits spell in a base. -/
def radix? (base : Nat) (t : Text) : Option Nat := do
  let digits ← ungrouped? (fun c => (Text.hexValue? c).any (· < base)) t
  return digits.foldl (fun n c => base * n + (Text.hexValue? c).getD 0) 0

/-- The digits of a decimal integer, which has no leading zeros. -/
def wholeDigits? (t : Text) : Option Text := do
  let digits ← ungrouped? Text.isAsciiDigit t
  match digits with
  | '0' :: _ :: _ => none
  | _ => some digits

/-- An integer that fits 64 bits. -/
def bounded? (n : Int) : Option Int :=
  if -(Nat.pow 2 63 : Int) ≤ n ∧ n < Nat.pow 2 63 then some n else none

/-- The integer a word spells. -/
def int? : Text → Option Int
  | '0' :: 'x' :: digits => (radix? 16 digits).bind fun n => bounded? n
  | '0' :: 'o' :: digits => (radix? 8 digits).bind fun n => bounded? n
  | '0' :: 'b' :: digits => (radix? 2 digits).bind fun n => bounded? n
  | word => do
    let (isNegative, t) := Decimal.readSign word
    let digits ← wholeDigits? t
    let n : Int := Text.numberOf digits
    bounded? (if isNegative then -n else n)

/-- Whether a text is an exponent with its mark. -/
def isExponent : Text → Bool
  | [] => false
  | mark :: rest =>
    (mark == 'e' || mark == 'E') &&
      (ungrouped? Text.isAsciiDigit (Decimal.readSign rest).2).isSome

/-- Whether a text is a fraction, an exponent, or one behind the other. -/
def isFloatTail (t : Text) : Bool :=
  match t with
  | '.' :: rest =>
    let isGrouped (c : Char) : Bool := Text.isAsciiDigit c || c == '_'
    let tail := rest.dropWhile isGrouped
    (ungrouped? Text.isAsciiDigit (rest.takeWhile isGrouped)).isSome && (tail.isEmpty || isExponent tail)
  | _ => isExponent t

/-- The float a word spells. One that is too great is an error, but one that is too
far below zero is negative infinity. -/
def float? (word : Text) : Option Double :=
  let (isNegative, t) := Decimal.readSign word
  if t = "inf".toList then some (.infinite isNegative)
  else if t = "nan".toList then some .nan
  else
    let isGrouped (c : Char) : Bool := Text.isAsciiDigit c || c == '_'
    if (wholeDigits? (t.takeWhile isGrouped)).isSome && isFloatTail (t.dropWhile isGrouped) then
      match (Decimal.ofText? (word.filter (· != '_'))).map Double.ofDecimal with
      | some (.infinite false) => none
      | x => x
    else none

example : int? "0xDEAD_beef".toList = some 0xDEADBEEF ∧ int? "-1_000".toList = some (-1000) ∧
    int? "007".toList = none ∧ int? "1__0".toList = none ∧ int? "-0x1".toList = none := by decide

example : (float? "6.5e-1".toList).isSome ∧ (float? "1.".toList).isNone ∧
    (float? ".5".toList).isNone ∧ (float? "1".toList).isNone ∧
    (float? "1e07".toList).isSome := by decide

end LineGuard.Toml
