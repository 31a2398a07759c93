/-
# When tags come into force

Each tag of a target becomes a frame of its guard stack at the line where its
scope starts. The frame of a context tag lasts as long as the documentation right
behind it does: comment and docstring lines, up to a blank line outside a block,
to code, or to the next line with a tag of either target. An explicit scope can
only shorten that.
-/

import LineGuard.Region.Stack
import LineGuard.Scope.Basic

namespace LineGuard

/-- A frame and the line on which it is pushed. -/
structure Activation where
  startLine : Nat
  frame : Frame
deriving DecidableEq, Repr

namespace Activation

/-- The last line that documentation behind a scope's start may reach. -/
def contextLimit (d : Document) (scope : Scope) : Nat :=
  match d.lastLine? with
  | some last => scope.endLine.elim last (min · last)
  | none => scope.startLine

/-- The last line of the documentation that begins on some line, as far as a scope allows;
the start of the scope if none begins there. -/
def contextEndFrom (d : Document) (tags : List Tag) (scope : Scope) (first : Nat) : Nat :=
  let block := (List.range' first (contextLimit d scope + 1 - first)).takeWhile fun line =>
    !tags.any (·.line == line) && d.isDocumentation line
  block.getLast?.getD scope.startLine

/-- The last line of the documentation behind a scope's start. There is a line behind every
start here, also behind the greatest machine word. -/
def contextEnd (d : Document) (tags : List Tag) (scope : Scope) : Nat :=
  contextEndFrom d tags scope (scope.startLine + 1)

/-- How a tag with a scope comes into force, among all tags of a document. -/
def ofTag (d : Document) (tags : List Tag) (tag : Tag) (scope : Scope) : Activation where
  startLine := scope.startLine
  frame :=
    { tagLine := tag.line
      permission := tag.permission
      isContext := tag.permission.isContext
      bound := if tag.permission.isContext then some (contextEnd d tags scope) else scope.endLine }

/-- Activations take place by start line and, at one line, by tag line. -/
def noLaterThan (a b : Activation) : Bool :=
  a.startLine < b.startLine ||
    (a.startLine == b.startLine && a.frame.tagLine ≤ b.frame.tagLine)

/-- The activations for a target in the order in which they take place, given
the tags of a document with their scopes; of equals the one listed first comes
first. -/
def inOrder (d : Document) (tags : List Tag) (scopes : List Scope) (target : Target) :
    List Activation :=
  (((tags.zip scopes).filter fun (tag, _) => tag.target == target).map
    fun (tag, scope) => ofTag d tags tag scope).mergeSort noLaterThan

end Activation

end LineGuard
