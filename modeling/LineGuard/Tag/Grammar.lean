/-
# The grammar of tags

    mark blanks "@guard:" target ("[" identifier "]")? ":" permission
      ("." (letters | digits))? ("+" letters)* ("-" letters)*

The words are read without regard to case. Every part takes as much as it can,
and what follows the last part does not belong to the tag, so `ai:rw` grants
what `ai:r` grants. A line carries at most one tag: the first match, from the
left, whose reach makes sense. A match whose reach makes no sense, such as an
unknown keyword or a count no machine word holds, is passed over whole, and the
search goes on behind it.

Letters are the ASCII letters and the two characters that Unicode folds onto
one of them, the long s and the Kelvin sign.
-/

import LineGuard.Document
import LineGuard.Tag.Basic
import LineGuard.Text.DecimalDigit

namespace LineGuard

namespace Tag

/-! ## Parts of a tag -/

/-- The marks that can introduce a tag. -/
def marks : List Text := ["//", "#", "--", "/*", "<!--"].map (·.toList)

/-- Whether a character can be part of a scope word or a modifier. -/
def isLetter (c : Char) : Bool := c.isAlpha || c == '\u017F' || c == '\u212A'

/-- What follows a word in lower case, compared without regard to ASCII case. -/
def afterWord? : Text → Text → Option Text
  | [], t => some t
  | _ :: _, [] => none
  | c :: word, d :: t => if d.toLower = c then afterWord? word t else none

/-- What is written behind the dot. -/
inductive Suffix where
  | word (letters : Text)
  | count (digits : Text)
deriving DecidableEq, Repr

/-- A match of the grammar, before its reach is made sense of. -/
structure Candidate where
  target : Target
  /-- The text in the brackets as written. -/
  bracketed : Option Text
  permission : Permission
  suffix : Option Suffix
  added : List Text
  removed : List Text
deriving DecidableEq, Repr

/-- Reads the target. -/
def readTarget? (t : Text) : Option (Target × Text) :=
  Target.all.findSome? fun target => (afterWord? target.name t).map (target, ·)

/-- Reads the bracketed identifier, which is optional; empty brackets are none. -/
def readBracketed (t : Text) : Option Text × Text :=
  match t with
  | '[' :: inner =>
    match inner.takeWhile (· != ']'), inner.dropWhile (· != ']') with
    | c :: identifier, ']' :: rest => (some (c :: identifier), rest)
    | _, _ => (none, t)
  | _ => (none, t)

/-- Reads the permission behind its colon. -/
def readPermission? (t : Text) : Option (Permission × Text) :=
  match t with
  | ':' :: rest =>
    Permission.all.findSome? fun permission =>
      (afterWord? permission.name rest).map (permission, ·)
  | _ => none

/-- Reads the word or count behind the dot, which is optional. A dot with
neither behind it does not belong to the tag. -/
def readSuffix (t : Text) : Option Suffix × Text :=
  match t with
  | '.' :: rest =>
    match rest.takeWhile isLetter, rest.takeWhile Text.isDecimalDigit with
    | c :: letters, _ => (some (.word (c :: letters)), rest.dropWhile isLetter)
    | [], d :: digits => (some (.count (d :: digits)), rest.dropWhile Text.isDecimalDigit)
    | [], [] => (none, t)
  | _ => (none, t)

/-- Reads modifiers behind a mark, as many as there are; a mark without a word
behind it ends them. -/
def readModifiers (mark : Char) (t : Text) : List Text × Text :=
  match t with
  | [] => ([], [])
  | c :: rest =>
    if c = mark && !(rest.takeWhile isLetter).isEmpty then
      let (more, left) := readModifiers mark (rest.dropWhile isLetter)
      (rest.takeWhile isLetter :: more, left)
    else ([], c :: rest)
termination_by t.length
decreasing_by
  have := (List.dropWhile_sublist isLetter (l := rest)).length_le
  simp only [List.length_cons]
  omega

/-- Reads a match that begins right here, and what follows it. -/
def readCandidate? (t : Text) : Option (Candidate × Text) := do
  let t ← marks.findSome? (Text.after? · t)
  let t ← afterWord? "@guard:".toList (t.dropWhile Text.isBlank)
  let (target, t) ← readTarget? t
  let (bracketed, t) := readBracketed t
  let (permission, t) ← readPermission? t
  let (suffix, t) := readSuffix t
  let (added, t) := readModifiers '+' t
  let (removed, t) := readModifiers '-' t
  return ({ target, bracketed, permission, suffix, added, removed }, t)

/-! ## What a match means -/

/-- The greatest count a tag can spell. -/
def maxCount : Nat := Nat.pow 2 64 - 1

/-- The identifier of a match: trimmed, and absent when nothing is left. -/
def Candidate.identifier (c : Candidate) : Option Text :=
  c.bracketed.bind fun raw =>
    match Text.trim raw with
    | [] => none
    | trimmed => some trimmed

/-- The reach of a match, if it makes sense. Digits count only when all are
ASCII, and modifiers only behind a keyword. -/
def Candidate.reach? (c : Candidate) : Option Reach :=
  match c.suffix with
  | none => some .unbounded
  | some (.count digits) =>
    if digits.all Text.isAsciiDigit && Text.numberOf digits ≤ maxCount then
      some (.lines (Text.numberOf digits))
    else none
  | some (.word letters) =>
    (Construct.Keyword.ofWord? letters).map fun keyword =>
      .construct keyword (c.added.map Text.lower) (c.removed.map Text.lower)

/-- The tag that a match found at a line and column stands for. -/
def Candidate.tag? (c : Candidate) (line column : Nat) : Option Tag :=
  c.reach?.map fun reach =>
    { line, column, target := c.target, identifier := c.identifier,
      permission := c.permission, reach }

/-! ## Lines and documents -/

/-- The matches on a line with their byte columns, from the left and without
overlap. `skip` characters still belong to the match before. -/
def candidatesFrom : (skip column : Nat) → Text → List (Nat × Candidate)
  | _, _, [] => []
  | skip + 1, column, c :: rest => candidatesFrom skip (column + c.utf8Size) rest
  | 0, column, c :: rest =>
    match readCandidate? (c :: rest) with
    | some (candidate, left) =>
      (column, candidate) ::
        candidatesFrom (rest.length - left.length) (column + c.utf8Size) rest
    | none => candidatesFrom 0 (column + c.utf8Size) rest

/-- The tag on a line, if there is one, with the number the line has. -/
def parse? (text : Text) (line : Nat) : Option Tag :=
  (candidatesFrom 0 0 text).findSome? fun (column, candidate) => candidate.tag? line column

/-- The tags on consecutive lines, numbered onwards from a first line. -/
def parseLines : Nat → List Text → List Tag
  | _, [] => []
  | number, text :: rest => (parse? text number).toList ++ parseLines (number + 1) rest

end Tag

/-- The tags of a document in line order. -/
def Document.tags (d : Document) : List Tag := Tag.parseLines 0 d.lines.toList

end LineGuard
