/-
# Reading a document for constructs

Constructs are looked for in the lines of code. This module holds what is read
of each line, and the four questions that are answered by looking ahead: which
lines of code follow, whether a brace comes next, which lines are indented
deeper, and which line reads `end`.
-/

import LineGuard.Construct.Bare
import LineGuard.Construct.Header
import LineGuard.Document

namespace LineGuard.Construct

/-- A document as it is read for constructs. An inline tag is not part of the
code on its line, so that line is cut where the tag begins. -/
structure Listing where
  document : Document
  /-- The line and byte column where an inline tag begins. -/
  cut : Option (Nat × Nat)

namespace Listing

/-- The literals and comments of the document's language. -/
def lexis (s : Listing) : Lexis where
  comments := s.document.comments
  hasLifetimes := s.document.language == some "rust".toList

/-- The text of a line, without an inline tag. -/
def text (s : Listing) (line : Nat) : Text :=
  let whole := s.document.line line
  match s.cut with
  | some (cutLine, column) =>
    if cutLine = line then (Text.takeBytes? column whole).getD whole else whole
  | none => whole

/-- The bare code of a line, without blanks at its ends. -/
def bare (s : Listing) (line : Nat) : Text := Text.trim (Construct.bare s.lexis (s.text line))

/-- The lines behind a line, to the end of the document. -/
def linesAfter (s : Listing) (line : Nat) : List Nat :=
  List.range' (line + 1) (s.document.lineCount - (line + 1))

/-- The lines of code behind a line. -/
def codeAfter (s : Listing) (line : Nat) : List Nat :=
  (s.linesAfter line).filter s.document.isCode

/-- Whether the next line of code starts with an opening brace. -/
def braceFollows (s : Listing) (line : Nat) : Bool :=
  ((s.linesAfter line).find? s.document.isCode).any fun next =>
    Text.startsWith ['{'] (Text.trimStart (s.text next))

/-- The first and last of the lines behind a line that are indented deeper than
`base`, up to the first that is not; blank lines do not matter. -/
def indentedBody? (s : Listing) (line base : Nat) : Option (Nat × Nat) :=
  let visible := (s.linesAfter line).filter fun l => (s.document.firstVisible? l).isSome
  let body := visible.takeWhile fun l => base < s.document.indentation l
  body.head?.bind fun first => body.getLast?.map (first, ·)

/-- The line reading `end` that closes a header indented by `base`. A line of
code that is indented less comes too late for it. -/
def keywordEnd? (s : Listing) (header base : Nat) : Option Nat :=
  let stop := (s.codeAfter header).find? fun l =>
    s.document.indentation l < base ||
      (s.document.indentation l == base && startsWithEnd (Text.trim (s.text l)))
  stop.filter fun l => s.document.indentation l == base

theorem lt_of_mem_linesAfter {s : Listing} {line later : Nat} (h : later ∈ s.linesAfter line) :
    line < later ∧ later < s.document.lineCount := by
  simp only [linesAfter, List.mem_range'_1] at h
  omega

end Listing

end LineGuard.Construct
