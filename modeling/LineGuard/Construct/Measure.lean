/-
# Measuring constructs

A construct starts at its header line and is measured in one of three shapes:

* braces: a `\x7b` outside all brackets opens the body, and the matching
  `\x7d` ends the construct;
* indentation: a header that ends in a colon owns the following lines that are
  indented deeper than itself;
* keyword: a header is closed by a line that reads `end` at its own indentation.

Anything else is a statement, which ends where its brackets are closed and no
trailing operator carries it on. Brackets that are never closed carry it to the
last line of code.
-/

import LineGuard.Construct.Basic
import LineGuard.Construct.Listing

namespace LineGuard.Construct

/-! ## Brackets -/

/-- How deep reading is inside brackets. Closing marks that close nothing do not
count. -/
structure Depth where
  /-- Open round and square brackets. -/
  brackets : Nat
  /-- Open braces. -/
  braces : Nat
  /-- The brace that opened the body, once there is one. -/
  opening : Option Opening
deriving DecidableEq, Repr

namespace Depth

/-- Outside all brackets, before any body. -/
def outside : Depth := ⟨0, 0, none⟩

/-- Whether nothing is open. -/
def isSettled (d : Depth) : Bool := d.opening.isNone && d.brackets == 0 && d.braces == 0

/-- What reading a character comes to. -/
inductive Step where
  /-- The body is closed; this brace opened it. -/
  | closed (opening : Opening)
  | inside (depth : Depth)
deriving DecidableEq, Repr

/-- Reads a character on a line. Only outside all brackets does a brace open a
body. -/
def read (d : Depth) (line : Nat) (isAlone : Bool) (c : Char) : Step :=
  if c = '(' ∨ c = '[' then .inside { d with brackets := d.brackets + 1 }
  else if c = ')' ∨ c = ']' then .inside { d with brackets := d.brackets - 1 }
  else if c = '{' then
    .inside { d with
      braces := d.braces + 1
      opening := if d.isSettled then some ⟨line, isAlone⟩ else d.opening }
  else if c = '}' then
    match d.opening with
    | some opening =>
      if d.braces ≤ 1 then .closed opening else .inside { d with braces := d.braces - 1 }
    | none => .inside { d with braces := d.braces - 1 }
  else .inside d

/-- Reads the bare code of a line, up to the brace that closes the body. -/
def readLine (d : Depth) (line : Nat) (isAlone : Bool) : Text → Step
  | [] => .inside d
  | c :: rest =>
    match d.read line isAlone c with
    | .closed opening => .closed opening
    | .inside next => next.readLine line isAlone rest

end Depth

/-! ## Where a construct ends -/

/-- Operators and separators that carry a statement on to the next line. -/
def carryingMarks : List Char := ['\\', ',', '=', '+', '-', '*', '/', '&', '|', '.', '?']

/-- Whether bare code is carried on to the next line. An increment or decrement
is complete although it ends in an operator. -/
def continues (code : Text) : Bool :=
  !(Text.endsWith "++".toList code || Text.endsWith "--".toList code) &&
    (Text.endsWith "=>".toList code || code.getLast?.any carryingMarks.contains)

namespace Listing

/-- The construct that ends its header on a line where nothing is open, if it
does not go on. -/
def settle? (s : Listing) (header line : Nat) (code : Text) : Option Construct :=
  let base := s.document.indentation header
  if code.getLast? = some ':' then
    match s.indentedBody? line base with
    | some (first, last) => some ⟨header, line, some (.indented first last), last⟩
    | none => some (statement header line)
  else if continues code || s.braceFollows line then none
  else if line == header && opensKeywordBlock code then
    match s.keywordEnd? header base with
    | some close => some ⟨header, line, some (.keyword close), close⟩
    | none => some (statement header line)
  else some (statement header line)

/-- Measures on through lines of code, from some depth; `lastCode` is the last
line so far that had any bare code. -/
def measureFrom (s : Listing) (header : Nat) (d : Depth) (lastCode : Nat) :
    List Nat → Construct
  | [] =>
    match d.opening with
    | some opening => ofBraces header opening lastCode
    | none => statement header lastCode
  | line :: rest =>
    let code := s.bare line
    if code.isEmpty then s.measureFrom header d lastCode rest
    else
      match d.readLine line (header < line && Text.startsWith ['{'] code) code with
      | .closed opening => ofBraces header opening line
      | .inside d =>
        if d.isSettled then
          match s.settle? header line code with
          | some construct => construct
          | none => s.measureFrom header d line rest
        else s.measureFrom header d line rest

/-- The construct whose header starts on a line. -/
def measure (s : Listing) (header : Nat) : Construct :=
  s.measureFrom header .outside header (header :: s.codeAfter header)

end Listing

end LineGuard.Construct
