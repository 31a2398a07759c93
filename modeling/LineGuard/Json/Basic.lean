/-
# JSON values and how they are written

A JSON document is a tree of values. Members of an object keep their order and
may repeat a name, since it is for whoever makes sense of the object to say
what a repetition means.

A string is absent (`none`) when it spells half of a surrogate pair: it is well
formed as JSON, but no sequence of characters is its text. Numbers are told
apart only by whether they are written as a natural number, all that the
documents of this library hold.

`Json.pretty` writes a value over several lines, indented by two spaces a level.
-/

import LineGuard.Text.Basic

namespace LineGuard

/-- A number as written. -/
inductive Json.Number where
  /-- Digits without sign, fraction or exponent. -/
  | natural (n : Nat)
  /-- Any other numeral of the grammar. -/
  | other (literal : Text)
deriving DecidableEq, Repr

/-- A JSON value. -/
inductive Json where
  | null
  | bool (value : Bool)
  | number (value : Json.Number)
  | string (text : Option Text)
  | array (items : List Json)
  | object (members : List (Option Text × Json))

namespace Json

/-- A string with a text. -/
def text (t : Text) : Json := string (some t)

/-- A natural number. -/
def nat (n : Nat) : Json := number (.natural n)

/-- A natural number, or null. -/
def optionalNat : Option Nat → Json
  | some n => nat n
  | none => null

/-- An object with the given members in order. -/
def record (members : List (String × Json)) : Json :=
  object (members.map fun (name, value) => (some name.toList, value))

/-! ## Writing -/

/-- A character inside a string: quotes, backslashes and control characters are
escaped, everything else stands for itself. -/
def escape (c : Char) : Text :=
  if c = '"' then ['\\', '"']
  else if c = '\\' then ['\\', '\\']
  else if c = '\x08' then ['\\', 'b']
  else if c = '\x0C' then ['\\', 'f']
  else if c = '\n' then ['\\', 'n']
  else if c = '\r' then ['\\', 'r']
  else if c = '\t' then ['\\', 't']
  else if c.toNat < 0x20 then '\\' :: 'u' :: Text.digitsOfWidth 16 4 c.toNat
  else [c]

/-- A string in quotes. A string without a text is written as what makes it
one, half of a surrogate pair. -/
def quote : Option Text → Text
  | some t => '"' :: t.flatMap escape ++ ['"']
  | none => "\"\\ud800\"".toList

/-- A number as it is written. -/
def Number.text : Number → Text
  | natural n => Text.numeral n
  | other literal => literal

/-- A line feed and the indentation of a level. -/
def newline (depth : Nat) : Text := '\n' :: List.replicate (2 * depth) ' '

mutual

/-- Writes a value at a level: what it holds goes on lines of its own, one level
deeper, and the closing bracket on a line at the level itself. -/
def prettyAt (depth : Nat) : Json → Text
  | null => "null".toList
  | bool true => "true".toList
  | bool false => "false".toList
  | number n => n.text
  | string s => quote s
  | array [] => "[]".toList
  | array (item :: items) =>
    '[' :: newline (depth + 1) ++ prettyAt (depth + 1) item ++ prettyItems (depth + 1) items ++
      newline depth ++ [']']
  | object [] => ['{', '}']
  | object ((name, value) :: members) =>
    '{' :: newline (depth + 1) ++ quote name ++ ": ".toList ++ prettyAt (depth + 1) value ++
      prettyMembers (depth + 1) members ++ newline depth ++ ['}']

/-- Writes the items behind the first, each behind a comma. -/
def prettyItems (depth : Nat) : List Json → Text
  | [] => []
  | item :: items => ',' :: newline depth ++ prettyAt depth item ++ prettyItems depth items

/-- Writes the members behind the first, each behind a comma. -/
def prettyMembers (depth : Nat) : List (Option Text × Json) → Text
  | [] => []
  | (name, value) :: members =>
    ',' :: newline depth ++ quote name ++ ": ".toList ++ prettyAt depth value ++
      prettyMembers depth members

end

/-- Writes a value over several lines. -/
def pretty (j : Json) : Text := prettyAt 0 j

end Json

end LineGuard
