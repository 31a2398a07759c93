/-
# Constructs

A construct found in a text, such as a function with its body, is described by
lines: where it starts, where its header ends, where its body lies, and where it
ends. Bodies come in three shapes, after the three ways in which languages mark
them; a construct without a body is a statement.
-/

import LineGuard.Span

namespace LineGuard

namespace Construct

/-- The brace that opens a body. -/
structure Opening where
  line : Nat
  /-- Whether the brace is the first thing on a line behind the header. -/
  isAlone : Bool
deriving DecidableEq, Repr

/-- The body of a construct. -/
inductive Body where
  /-- Between braces. -/
  | braces (opening : Opening) (close : Nat)
  /-- Indented deeper than the header. -/
  | indented (first last : Nat)
  /-- Up to a line reading `end`. -/
  | keyword (close : Nat)
deriving DecidableEq, Repr

/-- Whether a body is between braces. -/
def Body.isBraces : Body → Bool
  | braces .. => true
  | _ => false

end Construct

/-- The lines of a construct. -/
structure Construct where
  start : Nat
  /-- The last line of the header. -/
  headerEnd : Nat
  body : Option Construct.Body
  last : Nat
deriving DecidableEq, Repr

namespace Construct

/-- A construct that is all header. -/
def statement (start last : Nat) : Construct := ⟨start, last, none, last⟩

/-- A construct with a body between braces. A brace on a line of its own leaves
that line to the body; any other stands at the end of the header. -/
def ofBraces (header : Nat) (opening : Opening) (close : Nat) : Construct where
  start := header
  headerEnd := if opening.isAlone then max (opening.line - 1) header else opening.line
  body := some (.braces opening close)
  last := close

/-- Whether the construct has a body. -/
def hasBody (c : Construct) : Bool := c.body.isSome

/-- The lines from the start of the construct to the end of its header. -/
def headerSpan (c : Construct) : Span := .between c.start c.headerEnd

/-- The lines of the construct's body. A brace that ends the header keeps its
line there, unless the whole body is on that line. -/
def bodySpan? (c : Construct) : Option Span :=
  c.body.map fun
    | .braces opening close =>
      if opening.isAlone || opening.line == close then .between opening.line close
      else .between (opening.line + 1) close
    | .indented first last => .between first last
    | .keyword close => .between (c.headerEnd + 1) (close - 1)

/-- All lines of the construct. -/
def span (c : Construct) : Span := .between c.start c.last

/-- A construct has a span for its body just when it has a body. -/
theorem isSome_bodySpan? (c : Construct) : c.bodySpan?.isSome = c.hasBody := by
  simp [bodySpan?, hasBody]

end Construct

end LineGuard
