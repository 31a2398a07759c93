/-
# What the lines of a document hold

Every line is blank, a comment, part of a documentation block, or code. Block
comments and triple-quoted strings run over several lines, so a line is judged
from a state: whether it lies outside any block, inside a comment that a closing
mark will end, or inside a string that code opened. The state after a line is
all that later lines need to know of it.

A string that code opened is followed to its end although its lines stay code,
because the quotes that close it would otherwise look like the opening of a
docstring.
-/

import LineGuard.Line.CommentSyntax

namespace LineGuard

/-- What a line holds. -/
inductive LineKind where
  /-- Nothing but blanks, outside any block. -/
  | blank
  /-- A line comment, or a block comment that closes on its line. -/
  | comment
  /-- A line of a block comment or docstring that spans lines. -/
  | docBlock
  /-- Anything else. -/
  | code
deriving DecidableEq, Repr

namespace LineKind

/-- Whether a line of this kind documents. -/
def isDocumentation : LineKind → Bool
  | comment | docBlock => true
  | _ => false

/-- Whether a line of this kind is blank. -/
def isBlank : LineKind → Bool
  | blank => true
  | _ => false

end LineKind

/-- What is open between two lines. -/
inductive BlockState where
  /-- No block. -/
  | outside
  /-- A block comment or docstring that the mark closes. -/
  | documentation (close : Text)
  /-- A triple-quoted string of the code that the mark closes. -/
  | string (close : Text)
deriving DecidableEq, Repr

namespace LineKind

/-- The two kinds of triple quotes, in the order they are looked for. -/
def tripleQuotes : List Text := [['"', '"', '"'], ['\'', '\'', '\'']]

/-- Letters that may stand before the quotes of a docstring. -/
def stringMarks : List Char := ['r', 'R', 'u', 'U', 'b', 'B']

/-- If a trimmed line opens a docstring, its quotes and what follows them. -/
def docstring? (trimmed : Text) : Option (Text × Text) :=
  let quoted :=
    match trimmed with
    | c :: rest => if stringMarks.contains c then rest else trimmed
    | [] => []
  tripleQuotes.findSome? fun quotes => (Text.after? quotes quoted).map (quotes, ·)

/-- If a trimmed line opens a documentation block, the mark that closes the
block and what follows the opening mark. -/
def blockOpening? (trimmed : Text) : Option (Text × Text) :=
  ((Text.after? "/*".toList trimmed).map ("*/".toList, ·)).or <|
    ((Text.after? "<!--".toList trimmed).map ("-->".toList, ·)).or <|
      docstring? trimmed

/-- What a trimmed line of code leaves open: a triple-quoted string whose
quotes occur an odd number of times, or a block comment after the last opening
mark. -/
def openedByCode (trimmed : Text) : BlockState :=
  match tripleQuotes.find? fun quotes => Text.occurrences quotes trimmed % 2 == 1 with
  | some quotes => .string quotes
  | none =>
    match Text.afterLast? "/*".toList trimmed with
    | some rest =>
      if Text.includes "*/".toList rest then .outside else .documentation "*/".toList
    | none => .outside

/-- The kind of a trimmed line outside any block, and what it leaves open. -/
def classifyOutside (comments : CommentSyntax) (trimmed : Text) : LineKind × BlockState :=
  if trimmed.isEmpty then (blank, .outside)
  else
    match blockOpening? trimmed with
    | some (close, rest) =>
      if Text.includes close rest then (comment, .outside)
      else (docBlock, .documentation close)
    | none =>
      if comments.startsComment trimmed then (comment, .outside)
      else (code, openedByCode trimmed)

/-- The kind of a line in a given state, and the state after it. -/
def classify (comments : CommentSyntax) (state : BlockState) (line : Text) :
    LineKind × BlockState :=
  let trimmed := Text.trim line
  match state with
  | .documentation close =>
    (docBlock, if Text.includes close trimmed then .outside else state)
  | .string close =>
    (code, if Text.occurrences close trimmed % 2 == 1 then .outside else state)
  | .outside => classifyOutside comments trimmed

/-- The kinds of consecutive lines. -/
def classifyAll (comments : CommentSyntax) : BlockState → List Text → List LineKind
  | _, [] => []
  | state, line :: rest =>
    let (kind, next) := classify comments state line
    kind :: classifyAll comments next rest

/-- What consecutive lines leave open. -/
def stateAfter (comments : CommentSyntax) (state : BlockState) (lines : List Text) : BlockState :=
  lines.foldl (fun state line => (classify comments state line).2) state

@[simp]
theorem length_classifyAll (comments : CommentSyntax) (state : BlockState) (lines : List Text) :
    (classifyAll comments state lines).length = lines.length := by
  induction lines generalizing state with
  | nil => rfl
  | cons line rest ih => simp [classifyAll, ih]

/-- Earlier lines matter to later ones only through the state they leave. -/
theorem classifyAll_append (comments : CommentSyntax) (state : BlockState)
    (first second : List Text) :
    classifyAll comments state (first ++ second) =
      classifyAll comments state first ++
        classifyAll comments (stateAfter comments state first) second := by
  induction first generalizing state with
  | nil => rfl
  | cons line rest ih => simp [classifyAll, stateAfter, ih]

end LineKind

end LineGuard
