/-
# Tables of TOML

The tables of a document come about in four ways: a header names them, a longer
header implies them, a dotted key does, or they are elements of an array of tables.
What may still be added to a table depends on how it came about. A header may name
a table once, unless the table was only implied before; dotted keys may only add to
tables that dotted keys have made; and nothing is ever given a value twice.

Names stand in the order in which they were first given, save that a table which was
implied goes behind the others when its own header comes. Only the first name of a
table matters: if it is the mark of a date, the table is that date.
-/

import LineGuard.Settings.Value
import LineGuard.Toml.DateTime

namespace LineGuard.Toml

open Settings (Value)

/-- How a table has come about. -/
inductive Origin where
  /-- By a header of its own, or as an element of an array. -/
  | header
  /-- By the header of a table inside it. -/
  | implied
  /-- By a dotted key. -/
  | dotted
deriving DecidableEq, Repr

/-- What a name stands for in a document that is being read. -/
inductive Node where
  /-- A truth value, a number or a string. -/
  | value (value : Value)
  /-- A date or a time in its usual form. -/
  | date (text : Text)
  /-- An array between brackets. -/
  | array (items : List Node)
  /-- A table between braces, to which nothing can be added. -/
  | braces (entries : List (Text × Node))
  | table (origin : Origin) (entries : List (Text × Node))
  /-- An array of tables, the last one first. -/
  | elements (tables : List (List (Text × Node)))

/-- The entries of a table in their order. -/
abbrev Entries := List (Text × Node)

/-- Gives a name what it stands for, in place of what it stood for or behind all
others. -/
def Entries.put : Entries → Text → Node → Entries
  | [], name, node => [(name, node)]
  | (k, there) :: rest, name, node =>
    if k = name then (k, node) :: rest else (k, there) :: Entries.put rest name node

/-- Gives a name what it stands for and moves it behind all others. -/
def Entries.putLast (entries : Entries) (name : Text) (node : Node) : Entries :=
  entries.filter (·.1 != name) ++ [(name, node)]

namespace Node

/-- Changes the table at a path. Tables on the way that do not exist are made; the
way through an array of tables leads to its last element. Dotted keys do not lead
through a table that has a header. -/
def edit? (isDotted : Bool) (change : Origin → Entries → Option Entries) :
    Origin → List Text → Entries → Option Entries
  | origin, [], entries => change origin entries
  | _, name :: path, entries =>
    match Dict.get? entries name with
    | none =>
      let origin : Origin := if isDotted then .dotted else .implied
      (edit? isDotted change origin path []).map fun inner =>
        entries.put name (table origin inner)
    | some (table origin inner) =>
      if isDotted && origin == .header then none
      else
        (edit? isDotted change origin path inner).map fun inner =>
          entries.put name (table origin inner)
    | some (elements (last :: earlier)) =>
      (edit? isDotted change .header path last).map fun last =>
        entries.put name (elements (last :: earlier))
    | some _ => none

/-- Opens the table a header names. -/
def open? (entries : Entries) (path : List Text) (name : Text) : Option Entries :=
  edit? false (fun _ entries =>
    match Dict.get? entries name with
    | none => some (entries.put name (table .header []))
    | some (table .implied inner) => some (entries.putLast name (table .header inner))
    | some _ => none) .header path entries

/-- Adds an element to the array of tables a header names. -/
def push? (entries : Entries) (path : List Text) (name : Text) : Option Entries :=
  edit? false (fun _ entries =>
    match Dict.get? entries name with
    | none => some (entries.put name (elements [[]]))
    | some (elements tables) => some (entries.put name (elements ([] :: tables)))
    | some _ => none) .header path entries

/-- Gives the entry at a key what it stands for. A key with dots ends in a table that
dotted keys have made. -/
def assign? (entries : Entries) (path : List Text) (name : Text) (node : Node) :
    Option Entries :=
  edit? true (fun origin entries =>
    if Dict.has entries name || (!path.isEmpty && origin != .dotted) then none
    else some (entries.put name node)) .header path entries

/-- Gives the entry at a key what it stands for, in the table that the last header
names. -/
def assignUnder? (entries : Entries) (header path : List Text) (name : Text) (node : Node) :
    Option Entries :=
  edit? false (fun _ entries => assign? entries path name node) .header header entries

mutual

/-- The value that a name stands for in the end. -/
def toValue? : Node → Option Value
  | value v => some v
  | date t => some (.text t)
  | array items => (toItems? items).map .list
  | braces entries => ofEntries? entries
  | table _ entries => ofEntries? entries
  | elements tables => (toTables? tables).map fun tables => .list tables.reverse

/-- The values of the items of an array. -/
def toItems? : List Node → Option (List Value)
  | [] => some []
  | item :: rest => do return (← toValue? item) :: (← toItems? rest)

/-- The values of tables, each by itself. -/
def toTables? : List (List (Text × Node)) → Option (List Value)
  | [] => some []
  | entries :: rest => do return (← ofEntries? entries) :: (← toTables? rest)

/-- The value that a table is. If its first name is the mark of a date, it is the date
that stands there as a string, whatever else it holds. -/
def ofEntries? : List (Text × Node) → Option Value
  | [] => some (.table [])
  | (name, node) :: rest =>
    if name = DateTime.mark then
      match node with
      | value (.text t) => (DateTime.ofString? t).map .text
      | _ => none
    else do return .table ((name, ← toValue? node) :: (← toEntries? rest))

/-- The values of the entries of a table. -/
def toEntries? : List (Text × Node) → Option (List (Text × Value))
  | [] => some []
  | (name, node) :: rest => do return (name, ← toValue? node) :: (← toEntries? rest)

end

end Node

end LineGuard.Toml
