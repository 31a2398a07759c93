/-
# TOML documents

The statements of a document are carried out in order on an empty table. Entries
belong to the table of the last header in front of them, and to the outermost table
before the first one.
-/

import LineGuard.Toml.Statement

namespace LineGuard.Toml

open Settings (Value)

/-- The tables so far, and the names of the one that entries are added to. -/
structure Tables where
  root : Entries
  current : List Text

/-- Carries out a statement. -/
def Tables.apply (tables : Tables) : Statement → Option Tables
  | .table key =>
    (Node.open? tables.root key.path key.name).map fun root => ⟨root, key.path ++ [key.name]⟩
  | .element key =>
    (Node.push? tables.root key.path key.name).map fun root => ⟨root, key.path ++ [key.name]⟩
  | .entry key node =>
    (Node.assignUnder? tables.root tables.current key.path key.name node).map fun root =>
      { tables with root }

/-- The text without a byte order mark in front. -/
def withoutMark : Text → Text
  | '\uFEFF' :: rest => rest
  | t => t

/-- The entries of a document, if it is one. A document that is marked as a date has
none. -/
def parse? (t : Text) : Option (List (Text × Value)) := do
  let tokens ← Token.scan (withoutMark t)
  let statements ← statements? tokens
  let tables ← statements.foldlM Tables.apply ⟨[], []⟩
  match ← Node.ofEntries? tables.root with
  | .table entries => return entries
  | _ => none

end LineGuard.Toml
