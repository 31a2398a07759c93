/-
# Patterns of characters

Headers of source constructs are recognised by small patterns: a run of
modifiers, one of some words, an optional bracket. A pattern is matched at a
place of a line, which is what follows together with the one character before
it, so that a pattern can ask for the edge of a word.

A match is not unique, so `ends` lists the places where one can end, in order
of preference: the first alternative before the second, and one more repetition
before stopping. The first entry whose continuation works out is what a
backtracking reader would settle on.
-/

import LineGuard.Text.WordChar

namespace LineGuard

/-- A place on a line: the character before it, if any, and what follows. -/
structure Place where
  /-- The character just before the place, absent at the start of the line. -/
  before : Option Char
  /-- The text from the place on. -/
  rest : Text
deriving DecidableEq, Repr

namespace Place

/-- The place in front of a whole line. -/
def start (line : Text) : Place := ⟨none, line⟩

/-- Whether exactly one side of the place is part of a word. -/
def atWordEdge (p : Place) : Bool :=
  (p.before.any Text.isWordChar) != (p.rest.head?.any Text.isWordChar)

/-- Every place from this one to the end of the line, in order. -/
def onwards : Option Char → Text → List Place
  | before, [] => [⟨before, []⟩]
  | before, c :: rest => ⟨before, c :: rest⟩ :: onwards (some c) rest

end Place

/-- A pattern of characters. -/
inductive Pattern where
  /-- One character of a class. -/
  | one (accepts : Char → Bool)
  /-- A fixed piece of text. -/
  | literal (text : Text)
  /-- One pattern and then another. -/
  | both (first second : Pattern)
  /-- One pattern or, failing that, another. -/
  | either (first second : Pattern)
  /-- Any number of repetitions, as many as possible. -/
  | many (repeated : Pattern)
  /-- The edge of a word, taking no characters. -/
  | wordEdge
  /-- The end of the line, taking no characters. -/
  | lineEnd

namespace Pattern

/-- Where a run of `text` starting at a place ends, if it is there. -/
def literalEnd? (text : Text) (p : Place) : Option Place :=
  (Text.after? text p.rest).map fun rest => ⟨(text.getLast?).or p.before, rest⟩

/-- Where repetitions of a step can end, longest first. Only steps that move on
are repeated, so `bound` steps suffice for `bound` remaining characters. -/
def manyEnds (step : Place → List Place) : Nat → Place → List Place
  | 0, p => [p]
  | bound + 1, p =>
    ((step p).filter fun next => next.rest.length < p.rest.length).flatMap
      (manyEnds step bound) ++ [p]

/-- The places where a match that begins at a place can end, best first. -/
def ends : Pattern → Place → List Place
  | one accepts, p =>
    match p.rest with
    | [] => []
    | c :: rest => if accepts c then [⟨some c, rest⟩] else []
  | literal text, p => (literalEnd? text p).toList
  | both first second, p => (first.ends p).flatMap second.ends
  | either first second, p => first.ends p ++ second.ends p
  | many repeated, p => manyEnds repeated.ends p.rest.length p
  | wordEdge, p => if p.atWordEdge then [p] else []
  | lineEnd, p => if p.rest.isEmpty then [p] else []

/-- Whether the pattern matches at the start of a line. -/
def heads (pattern : Pattern) (line : Text) : Bool :=
  !(pattern.ends (Place.start line)).isEmpty

/-- Whether the pattern matches anywhere on a line. -/
def occurs (pattern : Pattern) (line : Text) : Bool :=
  (Place.onwards none line).any fun p => !(pattern.ends p).isEmpty

/-! ## Derived patterns -/

/-- Takes no characters and always matches. -/
def nothing : Pattern := literal []

/-- The patterns one after the other. -/
def sequence : List Pattern → Pattern
  | [] => nothing
  | [last] => last
  | first :: more => both first (sequence more)

/-- The first of the patterns that matches. -/
def oneOf : List Pattern → Pattern
  | [] => one fun _ => false
  | [last] => last
  | first :: more => either first (oneOf more)

/-- One of some fixed words. -/
def oneOfWords (words : List String) : Pattern := oneOf (words.map (literal ·.toList))

/-- The pattern or nothing, the pattern being preferred. -/
def optional (pattern : Pattern) : Pattern := either pattern nothing

/-- At least one repetition. -/
def atLeastOne (pattern : Pattern) : Pattern := both pattern (many pattern)

/-- One blank. -/
def blank : Pattern := one Text.isBlank

/-- Any number of blanks. -/
def blanks : Pattern := many blank

/-- At least one blank. -/
def gap : Pattern := atLeastOne blank

/-- One fixed character. -/
def char (c : Char) : Pattern := one (· == c)

/-- Any number of characters other than one. -/
def upTo (c : Char) : Pattern := many (one (· != c))

/-- A sequence goes on from wherever its first part ends. -/
theorem ends_both (first second : Pattern) (p : Place) :
    (both first second).ends p = (first.ends p).flatMap second.ends := rfl

end Pattern

end LineGuard
