/-
# Tags

A tag is a comment such as `@guard:ai[reviewer]:r.func+class` behind a comment
mark. It names a target, what the target is granted, and how far the grant
reaches: a number of lines, a construct of the language that follows, or
everything up to the next tag. An identifier in brackets is for display only.

`Tag.spelled` writes a tag back out. The grammar that reads it is in
`LineGuard.Tag.Grammar`.
-/

import LineGuard.Permission

namespace LineGuard

/-- The constructs of a language that a tag can reach over. -/
inductive Construct.Keyword where
  | function
  | classLike
  | block
  | signature
  | body
  | statement
  | expression
deriving DecidableEq, Repr

namespace Construct.Keyword

/-- All keywords. -/
def all : List Keyword :=
  [function, classLike, block, signature, body, statement, expression]

/-- The spelling of a keyword in tags and language tables. -/
def name : Keyword → Text
  | function => "func".toList
  | classLike => "class".toList
  | block => "block".toList
  | signature => "sig".toList
  | body => "body".toList
  | statement => "stmt".toList
  | expression => "expr".toList

/-- Reads a keyword without regard to ASCII case. -/
def ofWord? (word : Text) : Option Keyword :=
  all.find? (·.name == Text.lower word)

end Construct.Keyword

/-- How far a tag reaches. -/
inductive Reach where
  /-- Up to the next tag for the same target, or the end of the document. -/
  | unbounded
  /-- The tag line and this many lines after it. -/
  | lines (count : Nat)
  /-- The construct that follows the tag. The added and removed names change
  which syntax nodes count as that construct. -/
  | construct (keyword : Construct.Keyword) (added removed : List Text)
deriving DecidableEq, Repr

namespace Reach

/-- The text of a reach as a tag spells it behind the dot; an unbounded one,
which a tag does not spell, reads `none`. -/
def text : Reach → Text
  | unbounded => "none".toList
  | lines count => Text.numeral count
  | construct keyword added removed =>
    keyword.name ++ added.flatMap ('+' :: ·) ++ removed.flatMap ('-' :: ·)

end Reach

/-- A tag found on a line. -/
structure Tag where
  /-- The line the tag is declared on. -/
  line : Nat
  /-- The byte column of the comment mark in front of the tag. -/
  column : Nat
  /-- Whom the tag applies to. -/
  target : Target
  /-- The text in the brackets behind the target, trimmed; for display only. -/
  identifier : Option Text
  /-- What the tag grants. -/
  permission : Permission
  /-- How far it reaches. -/
  reach : Reach
deriving DecidableEq, Repr

namespace Tag

/-- The parts of the identifier between commas, trimmed, empty ones left out. -/
def identifiers (tag : Tag) : List Text :=
  match tag.identifier with
  | none => []
  | some identifier =>
    ((Text.splitAt (· == ',') identifier).map Text.trim).filter (!·.isEmpty)

/-- The tag spelled out, without a comment mark. -/
def spelled (tag : Tag) : Text :=
  "@guard:".toList ++ tag.target.name ++
    (match tag.identifier with
      | some identifier => '[' :: identifier ++ [']']
      | none => []) ++
    ':' :: tag.permission.name ++
    (match tag.reach with
      | .unbounded => []
      | reach => '.' :: reach.text)

end Tag

end LineGuard
