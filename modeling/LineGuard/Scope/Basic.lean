/-
# Scopes

The scope of a tag is the run of lines it governs. This module holds what a
scope is and what is asked of the two ways of finding one: a query says which
construct is wanted and which lines may be looked at, and the answer is a span of
lines, or nothing.
-/

import LineGuard.Document
import LineGuard.Language.KindSet
import LineGuard.Span
import LineGuard.Tag.Basic

namespace LineGuard

/-- How the lines of a scope were found. -/
inductive ScopeOrigin where
  /-- The tag counts them. -/
  | lineCount
  /-- A syntax tree places the construct. -/
  | syntaxTree
  /-- The text places the construct. -/
  | heuristic
  /-- The tag stands behind the signature it names. -/
  | inlineSignature
  /-- The tag names no end. -/
  | unbounded
  /-- The tag names a construct that was not found. -/
  | unresolved
deriving DecidableEq, Repr

namespace ScopeOrigin

/-- The word for an origin. -/
def name : ScopeOrigin → Text
  | lineCount => "line_count".toList
  | syntaxTree => "syntax_tree".toList
  | heuristic => "heuristic".toList
  | inlineSignature => "inline_signature".toList
  | unbounded => "unbounded".toList
  | unresolved => "unresolved".toList

end ScopeOrigin

/-- The lines a tag governs. -/
structure Scope where
  /-- The line the tag is declared on. -/
  tagLine : Nat
  startLine : Nat
  /-- The last line; absent when the scope lasts until the next tag for the same
  target, or the end of the document. -/
  endLine : Option Nat
  origin : ScopeOrigin
deriving DecidableEq, Repr

namespace Scope

/-- A scope that is a span of lines. -/
def bounded (tagLine : Nat) (span : Span) (origin : ScopeOrigin) : Scope :=
  ⟨tagLine, span.first, some span.last, origin⟩

/-- A scope that starts on the tag's line and names no end. -/
def openEnded (tagLine : Nat) (origin : ScopeOrigin) : Scope := ⟨tagLine, tagLine, none, origin⟩

/-- Whether the scope names its end. -/
def isBounded (scope : Scope) : Bool := scope.endLine.isSome

end Scope

/-- What is asked for when a tag names a construct. -/
structure Query where
  document : Document
  /-- The line the tag is declared on. -/
  tagLine : Nat
  /-- The column of the tag's comment mark. -/
  tagColumn : Nat
  keyword : Construct.Keyword
  /-- The kinds of nodes that count as the construct. For a signature these are
  declarations, for a body the kinds of bodies. -/
  kinds : KindSet
  /-- For a signature the kinds of bodies, for a body the kinds of declarations,
  and otherwise nothing. -/
  companions : KindSet
  /-- Whether the tag stands behind code on its line. -/
  isInline : Bool
  /-- How many lines behind the first may be looked at. -/
  window : Nat

namespace Query

/-- The first line looked at: the tag's own when code precedes the tag there,
and otherwise the one behind it. -/
def searchStart (q : Query) : Nat := if q.isInline then q.tagLine else q.tagLine + 1

/-- The lines that may be looked at, in order. -/
def searchLines (q : Query) : List Nat :=
  let last := min (q.searchStart + q.window) (q.document.lastLine?.getD 0)
  List.range' q.searchStart (last + 1 - q.searchStart)

end Query

end LineGuard
