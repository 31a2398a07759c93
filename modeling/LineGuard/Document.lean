/-
# Documents

A document is a text split into lines, each line with its kind. The language
decides which marks start a comment, so it is part of the document, and the
split and the kinds are determined by text and language alone: the two proof
fields say so, which makes two documents with the same text and language equal.

Lines are counted from zero. A line past the end reads as blank.
-/

import LineGuard.Line.Classifier
import LineGuard.Text.Columns
import LineGuard.Text.Lines

namespace LineGuard

/-- A text with its lines and their kinds. -/
structure Document where
  /-- The whole text. -/
  source : Text
  /-- The id of its language, if known. -/
  language : Option Text
  /-- The lines, without their endings. -/
  lines : Array Text
  /-- The kind of each line. -/
  kinds : Array LineKind
  lines_eq : lines = (Text.lines source).toArray
  kinds_eq : kinds =
    (LineKind.classifyAll (CommentSyntax.ofLanguage language) .outside
      (Text.lines source)).toArray

namespace Document

/-- Reads a text as a document of the given language. -/
def ofText (source : Text) (language : Option Text) : Document :=
  let lines := Text.lines source
  { source, language
    lines := lines.toArray
    kinds := (LineKind.classifyAll (CommentSyntax.ofLanguage language) .outside lines).toArray
    lines_eq := rfl
    kinds_eq := rfl }

/-- Text and language determine a document. -/
theorem eq_ofText (d : Document) : d = ofText d.source d.language := by
  obtain ⟨source, language, lines, kinds, rfl, rfl⟩ := d
  rfl

/-- The comment marks of the document's language. -/
def comments (d : Document) : CommentSyntax := CommentSyntax.ofLanguage d.language

/-- The number of lines. -/
def lineCount (d : Document) : Nat := d.lines.size

/-- The last line; an empty document has none. -/
def lastLine? (d : Document) : Option Nat :=
  match d.lineCount with
  | 0 => none
  | n + 1 => some n

/-- The text of a line, empty past the end. -/
def line (d : Document) (index : Nat) : Text := d.lines[index]?.getD []

/-- The kind of a line, blank past the end. -/
def kind (d : Document) (index : Nat) : LineKind := d.kinds[index]?.getD .blank

/-- Whether a line is code. -/
def isCode (d : Document) (index : Nat) : Bool := d.kind index == .code

/-- Whether a line documents. -/
def isDocumentation (d : Document) (index : Nat) : Bool := (d.kind index).isDocumentation

/-- The byte column of the first character of a line that is not blank. -/
def firstVisible? (d : Document) (index : Nat) : Option Nat := Text.firstVisible? (d.line index)

/-- The byte column of the last character of a line that is not blank. -/
def lastVisible? (d : Document) (index : Nat) : Option Nat := Text.lastVisible? (d.line index)

/-- The width of a line's leading blanks. -/
def indentation (d : Document) (index : Nat) : Nat := Text.indentation (d.line index)

/-- Whether something other than blanks stands before a byte column of a line.
A column that cannot be cut at has nothing before it. -/
def hasCodeBefore (d : Document) (index column : Nat) : Bool :=
  match Text.takeBytes? column (d.line index) with
  | some before => before.any (!Text.isBlank ·)
  | none => false

@[simp]
theorem size_kinds (d : Document) : d.kinds.size = d.lineCount := by
  simp [lineCount, d.kinds_eq, d.lines_eq]

/-- Past the end a document is blank. -/
theorem kind_eq_blank {d : Document} {index : Nat} (h : d.lineCount ≤ index) :
    d.kind index = .blank := by
  simp [kind, Array.getElem?_eq_none (show d.kinds.size ≤ index by simpa using h)]

/-- Past the end a document shows nothing. -/
theorem line_eq_nil {d : Document} {index : Nat} (h : d.lineCount ≤ index) :
    d.line index = [] := by
  rw [line, Array.getElem?_eq_none h]
  rfl

end Document

end LineGuard
