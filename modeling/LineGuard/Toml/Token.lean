/-
# TOML tokens

A document is cut into brackets, commas, equals signs, strings, words, line ends and
blanks, comments counting as blanks. Whether a word is a name or a number depends on
where it stands and is not decided here. Blanks are kept, because the two brackets
around the name of an array of tables may not be apart.
-/

import LineGuard.Toml.Quoted
import LineGuard.Toml.DateTime

namespace LineGuard.Toml

/-- A token of a TOML document. -/
inductive Token where
  /-- Blanks or a comment. -/
  | blank
  | newline
  | openBracket
  | closeBracket
  | openBrace
  | closeBrace
  | comma
  | equals
  | quoted (text : Text) (isLong : Bool)
  /-- Characters that are none of the others. -/
  | word (text : Text)
deriving DecidableEq, Repr

namespace Token

/-- Whether a character is a blank. -/
def isBlank (c : Char) : Bool := c == ' ' || c == '\t'

/-- Whether a character can stand in a word. -/
def isWordChar (c : Char) : Bool :=
  !isBlank c && c != '\n' && c != '\r' && c != '[' && c != ']' && c != '{' && c != '}' &&
    c != ',' && c != '=' && c != '#' && c != '"' && c != '\''

/-- Reads a word, and what follows. A space and a digit behind a date continue it. -/
def readWord (t : Text) : Text × Text :=
  let first := t.takeWhile isWordChar
  match DateTime.readDate? first, t.dropWhile isWordChar with
  | some (_, []), ' ' :: c :: rest =>
    if Text.isAsciiDigit c then
      (first ++ ' ' :: (c :: rest).takeWhile isWordChar, (c :: rest).dropWhile isWordChar)
    else (first, ' ' :: c :: rest)
  | _, rest => (first, rest)

/-- Reads the token a text begins with, and what follows it. -/
def read? (t : Text) : Option (Token × Text) :=
  match t with
  | [] => none
  | '\n' :: rest => some (.newline, rest)
  | '\r' :: '\n' :: rest => some (.newline, rest)
  | '[' :: rest => some (.openBracket, rest)
  | ']' :: rest => some (.closeBracket, rest)
  | '{' :: rest => some (.openBrace, rest)
  | '}' :: rest => some (.closeBrace, rest)
  | ',' :: rest => some (.comma, rest)
  | '=' :: rest => some (.equals, rest)
  | '#' :: rest => some (.blank, rest.dropWhile isPlain)
  | c :: rest =>
    if c = '"' ∨ c = '\'' then
      (Quoted.read? c rest).map fun s => (.quoted s.text s.isLong, s.rest)
    else if isBlank c then some (.blank, rest.dropWhile isBlank)
    else if isWordChar c then
      let (characters, rest) := readWord (c :: rest)
      some (.word characters, rest)
    else none

/-- The tokens of a document. `skip` characters still belong to the token
before. -/
def scanFrom : (skip : Nat) → Text → Option (List Token)
  | _, [] => some []
  | skip + 1, _ :: rest => scanFrom skip rest
  | 0, c :: rest => do
    let (token, left) ← read? (c :: rest)
    let tokens ← scanFrom (rest.length - left.length) rest
    return token :: tokens

/-- The tokens of a document, if it can be cut into tokens. -/
def scan (t : Text) : Option (List Token) := scanFrom 0 t

end Token

end LineGuard.Toml
