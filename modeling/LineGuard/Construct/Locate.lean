/-
# Looking for a construct

The first line of code in the window that reads like the start of what is wanted
is where it starts. Decorators and attributes belong to the line behind them,
and a line that does not fit makes an end of the decorators before it.
-/

import LineGuard.Construct.Measure
import LineGuard.Scope.Basic

namespace LineGuard.Construct

namespace Listing

/-- A listing of what a query asks about. -/
def ofQuery (q : Query) : Listing where
  document := q.document
  cut := if q.isInline then some (q.tagLine, q.tagColumn) else none

/-- Whether a line reads like the definition of a function in the manner of C. A
word that only looks like a name, and a line ended by a semicolon, is a call. -/
def definesInTheMannerOfC (text : Text) : Bool :=
  match namedWithArguments? text with
  | some name =>
    !(controlWords.contains name || (Text.words text).head?.any controlWords.contains ||
      Text.endsWith [';'] (Text.trimEnd text))
  | none => false

/-- The function that starts on a line. In the manner of C it has to have a body
between braces; a keyword or an arrow says enough without. -/
def function? (s : Listing) (line : Nat) : Option Construct :=
  let text := s.text line
  if functionKeyword.heads text || functionValue.heads text then some (s.measure line)
  else if definesInTheMannerOfC text then
    some (s.measure line) |>.filter (·.body.any Body.isBraces)
  else none

/-- What starts on a line, if it has a body. -/
def block? (s : Listing) (line : Nat) : Option Construct :=
  some (s.measure line) |>.filter hasBody

/-- The class that starts on a line; it has to have a body. -/
def class? (s : Listing) (line : Nat) : Option Construct :=
  if classHeader.heads (s.text line) then s.block? line else none

/-- The construct that starts on a line and can stand for a keyword. -/
def construct? (s : Listing) (keyword : Keyword) (line : Nat) : Option Construct :=
  match keyword with
  | .function => s.function? line
  | .classLike => s.class? line
  | .signature => (s.function? line).or (s.class? line)
  | .body => ((s.function? line).or ((s.class? line).or (s.block? line))).filter hasBody
  | .block => s.block? line
  | .statement | .expression => some (s.measure line)

/-- The first construct for a keyword among some lines; `decorators` is the first
of the decorator lines just before them. -/
def firstConstruct? (s : Listing) (keyword : Keyword) :
    (decorators : Option Nat) → List Nat → Option Construct
  | _, [] => none
  | decorators, line :: rest =>
    if !s.document.isCode line then s.firstConstruct? keyword decorators rest
    else if decorator.heads (s.text line) then
      s.firstConstruct? keyword (decorators.or (some line)) rest
    else
      match s.construct? keyword line with
      | some construct => some { construct with start := decorators.getD line }
      | none => s.firstConstruct? keyword none rest

end Listing

/-- The part of a construct that a keyword names. -/
def part? (c : Construct) : Keyword → Option Span
  | .signature => some c.headerSpan
  | .body => c.bodySpan?
  | _ => some c.span

/-- Answers a query from the text alone. The kinds of syntax nodes it names mean
nothing here. -/
def locate? (q : Query) : Option Span :=
  ((Listing.ofQuery q).firstConstruct? q.keyword none q.searchLines).bind (·.part? q.keyword)

end LineGuard.Construct
