/-
# Statements of TOML

A document is a sequence of headers and entries, each on a line of its own, though
arrays and long strings may go over several. Tokens become statements one at a time.
What is open is kept on a stack: the entry whose value is read, and the arrays and
inline tables around the place. Each token either fits or ends the reading.

Keys, arrays and inline tables may not be deeper than 79 levels.
-/

import LineGuard.Toml.Number
import LineGuard.Toml.Table
import LineGuard.Toml.Token

namespace LineGuard.Toml

/-- The name that a key ends in, and the names in front of it. -/
structure Key where
  path : List Text
  name : Text
deriving DecidableEq, Repr

/-- A line of a document. -/
inductive Statement where
  /-- A table begins. -/
  | table (key : Key)
  /-- Another element of an array of tables begins. -/
  | element (key : Key)
  /-- An entry of the table that has begun. -/
  | entry (key : Key) (node : Node)

/-- The depth that is refused. -/
def depthLimit : Nat := 80

namespace Key

/-- Whether a character can stand in a name without quotes. -/
def isBareChar (c : Char) : Bool := c.isAlphanum || c == '_' || c == '-'

/-- A name, or a dot between names. -/
inductive Part where
  | name (t : Text)
  | dot
deriving DecidableEq, Repr

/-- The names and dots of a word, if its names can do without quotes. -/
def partsOfWord? (word : Text) : Option (List Part) :=
  let names := Text.splitAt (· == '.') word
  if names.all (·.all isBareChar) then
    some (((names.map Part.name).intersperse .dot).filter (· != .name []))
  else none

/-- The names and dots of a token. -/
def partsOfToken? : Token → Option (List Part)
  | .word word => partsOfWord? word
  | .quoted t false => some [.name t]
  | _ => none

/-- The names of a key, in which dots stand between them and nowhere else. -/
def names? : List Part → Option (List Text)
  | [.name t] => some [t]
  | .name t :: .dot :: rest => (names? rest).map (t :: ·)
  | _ => none

/-- The key that tokens are. -/
def ofTokens? (tokens : List Token) : Option Key := do
  let parts ← tokens.mapM partsOfToken?
  let names ← names? parts.flatten
  if depthLimit ≤ names.length then none
  else (names.getLast?).map fun name => { path := names.dropLast, name }

end Key

/-- What a word stands for. -/
def nodeOfWord? (word : Text) : Option Node :=
  if word = "true".toList then some (.value (.bool true))
  else if word = "false".toList then some (.value (.bool false))
  else
    match int? word, float? word, DateTime.ofWord? word with
    | some n, _, _ => some (.value (.int n))
    | _, some x, _ => some (.value (.float x))
    | _, _, some t => some (.date t)
    | _, _, _ => none

/-- The table that stands between braces, if no entry contradicts another. -/
def inlineTable? (pairs : List (Key × Node)) : Option Node :=
  (pairs.foldlM (fun entries pair => Node.assign? entries pair.1.path pair.1.name pair.2) []).map
    .braces

/-- What has been opened and not closed. -/
inductive Container where
  /-- The entry on a line. -/
  | entry (key : Key)
  /-- An array. Its items so far stand in reverse. -/
  | array (items : List Node)
  /-- An inline table: its entries so far in reverse, and the key of the next. -/
  | braces (pairs : List (Key × Node)) (key : Key)

/-- What may come next in a document. -/
inductive Expect where
  /-- The beginning of a line. -/
  | line
  /-- What follows the bracket that begins a header. -/
  | header
  /-- More of the key of a header; what has been read stands in reverse. -/
  | headerKey (isElement : Bool) (read : List Token)
  /-- The second closing bracket. -/
  | headerEnd (key : Key)
  /-- Nothing but the end of the line. -/
  | lineEnd
  /-- More of the key of an entry; what has been read stands in reverse. -/
  | key (read : List Token)
  /-- More of a key of an inline table. -/
  | braceKey (pairs : List (Key × Node)) (read : List Token)
  /-- The first key of an inline table, or its end. -/
  | firstKey
  /-- A value. -/
  | value
  /-- A value, or the end of the array. -/
  | item
  /-- What may follow a complete value. -/
  | next (done : Node)

/-- Where reading stands. The statements so far stand in reverse. -/
structure Progress where
  statements : List Statement
  expect : Expect
  containers : List Container

namespace Progress

/-- Expects something else. -/
def expecting (p : Progress) (expect : Expect) : Progress := { p with expect }

/-- A value has to begin. -/
def beginValue (p : Progress) (token : Token) : Option Progress :=
  match token with
  | .quoted t _ => some (p.expecting (.next (.value (.text t))))
  | .word word => (nodeOfWord? word).map fun node => p.expecting (.next node)
  | .openBracket =>
    if depthLimit ≤ p.containers.length then none
    else some { p with expect := .item, containers := .array [] :: p.containers }
  | .openBrace => if depthLimit ≤ p.containers.length then none else some (p.expecting .firstKey)
  | _ => none

/-- A value is complete. -/
def afterValue (p : Progress) (done : Node) (token : Token) : Option Progress :=
  match p.containers, token with
  | .entry key :: outer, .newline =>
    some ⟨.entry key done :: p.statements, .line, outer⟩
  | .array _ :: _, .newline => some p
  | .array items :: outer, .comma => some ⟨p.statements, .item, .array (done :: items) :: outer⟩
  | .array items :: outer, .closeBracket =>
    some ⟨p.statements, .next (.array (done :: items).reverse), outer⟩
  | .braces pairs key :: outer, .comma =>
    some ⟨p.statements, .braceKey ((key, done) :: pairs) [], outer⟩
  | .braces pairs key :: outer, .closeBrace =>
    (inlineTable? ((key, done) :: pairs).reverse).map fun table =>
      ⟨p.statements, .next table, outer⟩
  | _, _ => none

/-- Takes a token that is no blank. -/
def take (p : Progress) (token : Token) : Option Progress :=
  match p.expect, token with
  | .line, .newline => some p
  | .line, .openBracket => some (p.expecting .header)
  | .line, token => some (p.expecting (.key [token]))
  | .header, .openBracket => some (p.expecting (.headerKey true []))
  | .header, token => some (p.expecting (.headerKey false [token]))
  | .headerKey isElement read, .closeBracket =>
    (Key.ofTokens? read.reverse).map fun key =>
      if isElement then p.expecting (.headerEnd key)
      else ⟨.table key :: p.statements, .lineEnd, p.containers⟩
  | .headerKey isElement read, token => some (p.expecting (.headerKey isElement (token :: read)))
  | .headerEnd key, .closeBracket => some ⟨.element key :: p.statements, .lineEnd, p.containers⟩
  | .headerEnd _, _ => none
  | .lineEnd, .newline => some (p.expecting .line)
  | .lineEnd, _ => none
  | .key read, .equals =>
    (Key.ofTokens? read.reverse).map fun key => ⟨p.statements, .value, [.entry key]⟩
  | .key read, token => some (p.expecting (.key (token :: read)))
  | .firstKey, .closeBrace => some (p.expecting (.next (.braces [])))
  | .firstKey, token => some (p.expecting (.braceKey [] [token]))
  | .braceKey pairs read, .equals =>
    (Key.ofTokens? read.reverse).map fun key =>
      ⟨p.statements, .value, .braces pairs key :: p.containers⟩
  | .braceKey pairs read, token => some (p.expecting (.braceKey pairs (token :: read)))
  | .value, token => p.beginValue token
  | .item, .newline => some p
  | .item, .closeBracket =>
    match p.containers with
    | .array items :: outer => some ⟨p.statements, .next (.array items.reverse), outer⟩
    | _ => none
  | .item, token => p.beginValue token
  | .next done, token => p.afterValue done token

/-- Takes a token. Blanks matter only next to the brackets of headers. -/
def step (p : Progress) (token : Token) : Option Progress :=
  match p.expect, token with
  | .header, .blank => some (p.expecting (.headerKey false []))
  | .headerEnd _, .blank => none
  | _, .blank => some p
  | _, token => p.take token

/-- The statements read, if the document may end here. -/
def finish? (p : Progress) : Option (List Statement) :=
  match p.expect, p.containers with
  | .line, _ => some p.statements.reverse
  | .lineEnd, _ => some p.statements.reverse
  | .next done, [.entry key] => some (.entry key done :: p.statements).reverse
  | _, _ => none

end Progress

/-- The statements that tokens spell. -/
def statements? (tokens : List Token) : Option (List Statement) :=
  (tokens.foldlM Progress.step ⟨[], .line, []⟩).bind Progress.finish?

end LineGuard.Toml
