/-
# Paths to settings

A path names a place among nested tables: a name, then steps into a table by a
name behind a dot, or into a list by a position in brackets. Names consist of ASCII
letters and digits, underscores, hyphens and spaces. A position below zero counts
from the end of the list.
-/

import LineGuard.Text.Basic

namespace LineGuard.Settings

/-- A step from a value to a part of it. -/
inductive Step where
  /-- To the entry of a table. -/
  | key (name : Text)
  /-- To the item of a list. -/
  | index (position : Int)
deriving DecidableEq, Repr

/-- A place among nested tables. -/
structure Path where
  /-- The entry of the outermost table. -/
  head : Text
  steps : List Step
deriving DecidableEq, Repr

namespace Path

/-- Whether a character can stand in a name. -/
def isNameChar (c : Char) : Bool := c.isAlphanum || c == '_' || c == '-' || c == ' '

/-- Whether a character is a blank around a position. -/
def isPositionBlank (c : Char) : Bool := c == ' ' || c == '\t'

/-- The position that stands between two brackets. It has to fit a machine word. -/
def position? (inside : Text) : Option Int :=
  let t := ((inside.dropWhile isPositionBlank).reverse.dropWhile isPositionBlank).reverse
  let digits := (Text.after? ['-'] t).getD t
  if digits.isEmpty || digits.any (!Text.isAsciiDigit ·) then none
  else
    let n : Int := Text.numberOf digits
    let position := if digits == t then n else -n
    if -(Nat.pow 2 63 : Int) ≤ position ∧ position < Nat.pow 2 63 then some position else none

/-- How the steps behind a name are read. -/
inductive Mode where
  /-- Behind a complete step. -/
  | between
  /-- Inside a name; what has been read stands in reverse. -/
  | name (read : Text)
  /-- Inside brackets; what has been read stands in reverse. -/
  | position (read : Text)

/-- The steps that the rest of a path spells. -/
def stepsFrom? : Mode → Text → Option (List Step)
  | .between, [] => some []
  | .between, c :: rest =>
    if c = '.' then stepsFrom? (.name []) rest
    else if c = '[' then stepsFrom? (.position []) rest
    else none
  | .name read, [] => if read.isEmpty then none else some [.key read.reverse]
  | .name read, c :: rest =>
    if isNameChar c then stepsFrom? (.name (c :: read)) rest
    else if read.isEmpty then none
    else if c = '.' then (stepsFrom? (.name []) rest).map (.key read.reverse :: ·)
    else if c = '[' then (stepsFrom? (.position []) rest).map (.key read.reverse :: ·)
    else none
  | .position _, [] => none
  | .position read, c :: rest =>
    if c = ']' then do
      let position ← position? read.reverse
      let steps ← stepsFrom? .between rest
      return .index position :: steps
    else stepsFrom? (.position (c :: read)) rest

/-- The path a text spells. -/
def parse? (t : Text) : Option Path := do
  match ← stepsFrom? (.name []) t with
  | .key head :: steps => return { head, steps }
  | _ => none

/-- The path to an entry of the outermost table. -/
def ofKey (name : Text) : Path := ⟨name, []⟩

example : parse? "scopes.scan_window".toList =
    some ⟨"scopes".toList, [.key "scan_window".toList]⟩ := by decide

example : parse? "a[ -1 ].b".toList = some ⟨"a".toList, [.index (-1), .key "b".toList]⟩ := by
  decide

example : parse? "a..b".toList = none ∧ parse? [] = none ∧ parse? "a[x]".toList = none := by
  decide

end Path

end LineGuard.Settings
