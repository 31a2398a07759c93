/-
# Syntax trees

The library parses no language. Whoever has a syntax tree of a document offers it
as four functions on nodes of their own choosing, and only the first of them may
fail: it is the one that may have to reach for a grammar.

Positions are lines and byte columns from zero, and ends are exclusive. A node
that ends with its line may therefore report column zero of the line behind it;
`Extent.lastLine` accounts for that.
-/

import LineGuard.Problem

namespace LineGuard

/-- Where a node starts and, exclusively, ends. -/
structure Extent where
  startLine : Nat
  startColumn : Nat
  endLine : Nat
  endColumn : Nat
deriving DecidableEq, Repr

namespace Extent

/-- The last line that holds any of the node's text. -/
def lastLine (e : Extent) : Nat :=
  if e.endColumn = 0 ∧ e.startLine < e.endLine then e.endLine - 1 else e.endLine

/-- Whether one position comes before another. -/
def comesBefore (line column line' column' : Nat) : Bool :=
  line < line' || (line == line' && column < column')

/-- Whether a position lies in the extent. -/
def contains (e : Extent) (line column : Nat) : Bool :=
  !comesBefore line column e.startLine e.startColumn &&
    comesBefore line column e.endLine e.endColumn

end Extent

/-- A syntax tree, as far as placing scopes needs it. -/
structure SyntaxTree (Node : Type) where
  /-- The smallest node at a position. -/
  nodeAt : (line column : Nat) → Except TreeFault (Option Node)
  /-- A node and everything above it, innermost first. That this is a list is
  all that is asked of a tree: going up comes to an end. -/
  ancestors : Node → List Node
  /-- The grammar's name for the kind of a node. -/
  kind : Node → Text
  /-- Where a node lies. -/
  extent : Node → Extent

end LineGuard
