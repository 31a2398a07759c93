/-
# From tags to scopes

A tag that counts lines governs its own line and so many behind it, as far as
the document goes. A tag that names a construct is placed by the syntax tree
where there is one, and otherwise by the text. Its scope begins on the tag's
line, so that what lies between tag and construct is governed with it; only the
scope of a body begins with the body, which leaves the signature alone.

Nothing here fails: a tree that cannot answer is passed over, and a construct
that is not found leaves the scope open.
-/

import LineGuard.Construct.Locate
import LineGuard.Language.Table
import LineGuard.Scope.TreeSearch

namespace LineGuard

/-- What is needed to place scopes. -/
structure Resolver (Node : Type) where
  table : LanguageTable
  /-- The syntax tree of the document, if there is one. -/
  tree : Option (SyntaxTree Node)
  /-- Whether constructs may be placed by the text. -/
  readsText : Bool
  /-- How many lines behind the first may be looked at for a construct. -/
  window : Nat

namespace Resolver

variable {Node : Type}

/-- The window unless configured otherwise. -/
def standardWindow : Nat := 10

/-- The kinds of nodes that go with those of a keyword: signatures and bodies
are looked for through each other. -/
def companions (table : LanguageTable) (language : Option Text) : Construct.Keyword → KindSet
  | .signature => table.kindSet language .body [] []
  | .body =>
    ((table.kindSet language .signature [] []).union
      (table.kindSet language .function [] [])).union (table.kindSet language .classLike [] [])
  | _ => .empty

/-- What a tag that names a construct asks for. -/
def query (r : Resolver Node) (d : Document) (tag : Tag) (keyword : Construct.Keyword)
    (added removed : List Text) : Query where
  document := d
  tagLine := tag.line
  tagColumn := tag.column
  keyword
  kinds := r.table.kindSet d.language keyword added removed
  companions := companions r.table d.language keyword
  isInline := d.hasCodeBefore tag.line tag.column
  window := r.window

/-- Only for a tag that trails code does the search start on the tag's line. -/
theorem searchStart_query (r : Resolver Node) (d : Document) (tag : Tag)
    (keyword : Construct.Keyword) (added removed : List Text) :
    (r.query d tag keyword added removed).searchStart =
      if d.hasCodeBefore tag.line tag.column then tag.line else tag.line + 1 := rfl

/-- Places a construct by the tree. A tree that fails finds nothing. -/
def placeByTree? [DecidableEq Node] (r : Resolver Node) (q : Query) : Option Span :=
  r.tree.bind fun t =>
    match t.locate? q with
    | .ok span => span
    | .error _ => none

/-- Places a construct by the text. -/
def placeByText? (r : Resolver Node) (q : Query) : Option Span :=
  if r.readsText then Construct.locate? q else none

/-- Places a construct, and tells how. -/
def place? [DecidableEq Node] (r : Resolver Node) (q : Query) : Option (Span × ScopeOrigin) :=
  ((r.placeByTree? q).map (·, .syntaxTree)).or ((r.placeByText? q).map (·, .heuristic))

/-- The lines a tag governs, given those of the construct it names. -/
def governedSpan (tagLine : Nat) (keyword : Construct.Keyword) (construct : Span) : Span :=
  match keyword with
  | .body => construct
  | _ => .between (min tagLine construct.first) construct.last

/-- The scope of a tag that counts lines. -/
def countedScope (d : Document) (tagLine count : Nat) : Scope :=
  let last := max (d.lastLine?.getD tagLine) tagLine
  .bounded tagLine (.between tagLine (min (tagLine + count) last)) .lineCount

/-- The scope of a tag that names a construct. A signature tag behind the
signature governs the line it stands on. -/
def constructScope [DecidableEq Node] (r : Resolver Node) (q : Query) : Scope :=
  if q.isInline && q.keyword == .signature then
    .bounded q.tagLine (.single q.tagLine) .inlineSignature
  else
    match r.place? q with
    | some (span, origin) => .bounded q.tagLine (governedSpan q.tagLine q.keyword span) origin
    | none => .openEnded q.tagLine .unresolved

/-- The scope of a tag. -/
def resolve [DecidableEq Node] (r : Resolver Node) (d : Document) (tag : Tag) : Scope :=
  match tag.reach with
  | .unbounded => .openEnded tag.line .unbounded
  | .lines count => countedScope d tag.line count
  | .construct keyword added removed => r.constructScope (r.query d tag keyword added removed)

end Resolver

end LineGuard
