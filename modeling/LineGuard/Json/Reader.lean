/-
# Reading JSON

Tokens become a value one at a time. The containers that are still open are kept
on a stack, innermost first, together with what may come next; each token either
fits or ends the reading. There is no nesting limit, and no token is looked at
twice.

Strictness is in the table of steps alone: a comma has to be followed by another
item, names are strings, and after the outermost value nothing may follow.
-/

import LineGuard.Json.Token

namespace LineGuard.Json

/-- A container that has been opened and not closed. Its contents so far stand
in reverse. -/
inductive Container where
  | array (items : List Json)
  /-- An object, and the name its next value belongs to. -/
  | object (members : List (Option Text × Json)) (name : Option Text)

/-- What may come next in a document. -/
inductive Expect where
  /-- A value. -/
  | value
  /-- A value, or the end of the array just opened. -/
  | firstItem
  /-- A name, or the end of the object just opened. -/
  | firstName
  /-- The name of another member; the members so far stand in reverse. -/
  | name (members : List (Option Text × Json))
  /-- The colon behind a name. -/
  | colon (members : List (Option Text × Json)) (name : Option Text)
  /-- A comma or the end of the innermost container, behind a complete value. -/
  | next (done : Json)

/-- Where reading stands. -/
structure Progress where
  expect : Expect
  containers : List Container

namespace Progress

/-- The value that a token is by itself. -/
def scalar? : Token → Option Json
  | .string s => some (.string s)
  | .number n => some (.number n)
  | .true => some (.bool true)
  | .false => some (.bool false)
  | .null => some .null
  | _ => none

/-- A value has to begin. -/
def beginValue (containers : List Container) (token : Token) : Option Progress :=
  match token with
  | .openBracket => some ⟨.firstItem, containers⟩
  | .openBrace => some ⟨.firstName, containers⟩
  | token => (scalar? token).map fun v => ⟨.next v, containers⟩

/-- A value is complete. -/
def afterValue (done : Json) (containers : List Container) (token : Token) : Option Progress :=
  match containers, token with
  | .array items :: outer, .comma => some ⟨.value, .array (done :: items) :: outer⟩
  | .array items :: outer, .closeBracket =>
    some ⟨.next (.array (done :: items).reverse), outer⟩
  | .object members name :: outer, .comma => some ⟨.name ((name, done) :: members), outer⟩
  | .object members name :: outer, .closeBrace =>
    some ⟨.next (.object ((name, done) :: members).reverse), outer⟩
  | _, _ => none

/-- Takes one token. -/
def step (p : Progress) (token : Token) : Option Progress :=
  match p.expect, token with
  | .value, token => beginValue p.containers token
  | .firstItem, .closeBracket => some ⟨.next (.array []), p.containers⟩
  | .firstItem, token => beginValue (.array [] :: p.containers) token
  | .firstName, .closeBrace => some ⟨.next (.object []), p.containers⟩
  | .firstName, .string s => some ⟨.colon [] s, p.containers⟩
  | .firstName, _ => none
  | .name members, .string s => some ⟨.colon members s, p.containers⟩
  | .name _, _ => none
  | .colon members name, .colon => some ⟨.value, .object members name :: p.containers⟩
  | .colon _ _, _ => none
  | .next done, token => afterValue done p.containers token

/-- The value read, if the document may end here. -/
def finish? (p : Progress) : Option Json :=
  match p with
  | ⟨.next done, []⟩ => some done
  | _ => none

end Progress

/-- The value that tokens spell. -/
def ofTokens? (tokens : List Token) : Option Json :=
  (tokens.foldlM Progress.step ⟨.value, []⟩).bind Progress.finish?

/-- Reads a document. -/
def parse? (t : Text) : Option Json := (Token.scan t).bind ofTokens?

/-! ## Making sense of values -/

/-- The text of a string. -/
def text? : Json → Option Text
  | string s => s
  | _ => none

/-- A natural number that fits a machine word of 64 bits. -/
def nat? : Json → Option Nat
  | number (.natural n) => if n < Nat.pow 2 64 then some n else none
  | _ => none

/-- A list of things, each made sense of by itself. -/
def list? {α : Type} (item? : Json → Option α) : Json → Option (List α)
  | array items => items.mapM item?
  | _ => none

/-- Null, or something. -/
def nullable? {α : Type} (value? : Json → Option α) : Json → Option (Option α)
  | null => some none
  | j => (value? j).map some

/-- The members of an object, if all their names have a text. -/
def members? : Json → Option (List (Text × Json))
  | object members => members.mapM fun (name, value) => name.map (·, value)
  | _ => none

/-- One of some named constants. It is written as its name, or as an object
whose only member has that name and is null. -/
def constant? {α : Type} (ofName? : Text → Option α) : Json → Option α
  | string s => s.bind ofName?
  | object [(some name, null)] => ofName? name
  | _ => none

/-- The value of a field among members, absent when no member has its name.
There is no answer when two have it. -/
def field? (members : List (Text × Json)) (name : Text) : Option (Option Json) :=
  match members.filter (·.1 == name) with
  | [] => some none
  | [(_, value)] => some (some value)
  | _ => none

/-- The values of the fields of a record, absent fields as `none`. A record is
an object, in which members with other names do not matter, or an array that
lists the values of the fields in order and may stop early. -/
def fields? (names : List Text) (j : Json) : Option (List (Option Json)) :=
  match j with
  | array items =>
    if items.length ≤ names.length then
      some (items.map some ++ List.replicate (names.length - items.length) none)
    else none
  | j => do
    let members ← j.members?
    names.mapM (field? members)

end LineGuard.Json
