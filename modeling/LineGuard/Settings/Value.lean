/-
# Values of settings

What a source of settings can say about a key. Sources differ in how precise they
are: a file tells numbers from text, the environment knows only text. So a value
is read when it is wanted, as what is wanted: a number where a text is wanted is
its numeral, and a text where a number is wanted is read as one.
-/

import LineGuard.Number.Shortest
import LineGuard.Text.Dict

namespace LineGuard.Settings

/-- A value of a setting, or a table of values. -/
inductive Value where
  /-- A position of a list that has been skipped. -/
  | missing
  | bool (value : Bool)
  | int (value : Int)
  | float (value : Double)
  | text (value : Text)
  | list (items : List Value)
  | table (entries : List (Text × Value))

namespace Value

/-- The numeral of an integer. -/
def numeral (n : Int) : Text :=
  match n with
  | .ofNat n => Text.numeral n
  | .negSucc n => '-' :: Text.numeral (n + 1)

/-- The text that a value is. Lists and tables are none. -/
def toText? : Value → Option Text
  | text t => some t
  | bool true => some "true".toList
  | bool false => some "false".toList
  | int n => some (numeral n)
  | float x => some x.text
  | missing | list _ | table _ => none

/-- Words for yes that count where a number or a choice is wanted. -/
def affirmative : List Text := ["true".toList, "on".toList, "yes".toList]

/-- Words for no that count where a number or a choice is wanted. -/
def negative : List Text := ["false".toList, "off".toList, "no".toList]

/-- The natural number of 64 bits that digits spell, behind an optional plus. -/
def wordOfText? (t : Text) : Option Nat :=
  let digits := (Text.after? ['+'] t).getD t
  if digits.isEmpty || digits.any (!Text.isAsciiDigit ·) then none
  else
    let n := Text.numberOf digits
    if n < Nat.pow 2 64 then some n else none

/-- The natural number of 64 bits that a value is. A float counts as the nearest
one, an answer as one or zero. -/
def toNat? : Value → Option Nat
  | int n => if 0 ≤ n then some n.toNat else none
  | bool value => some value.toNat
  | float x => some x.toWord
  | text t =>
    let word := Text.lower t
    if affirmative.contains word then some 1
    else if negative.contains word then some 0
    else wordOfText? t
  | missing | list _ | table _ => none

/-- The choice that a value is. Every number but zero counts as yes. -/
def toBool? : Value → Option Bool
  | bool value => some value
  | int n => some (n != 0)
  | float x => some (!x.isZero)
  | text t =>
    let word := Text.lower t
    if word = ['1'] ∨ affirmative.contains word then some true
    else if word = ['0'] ∨ negative.contains word then some false
    else none
  | missing | list _ | table _ => none

/-- The values of the fields of a section, in their order. A section is a table
with at least these fields, or a list of their values, of which what is too many
does not matter. -/
def fields? (names : List Text) : Value → Option (List Value)
  | table entries => names.mapM (Dict.get? entries)
  | list items => if names.length ≤ items.length then some (items.take names.length) else none
  | _ => none

end Value

end LineGuard.Settings
