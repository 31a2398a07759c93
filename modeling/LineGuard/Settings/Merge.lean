/-
# Laying values over others

A later source of settings is laid over the earlier ones. Tables are merged entry
by entry, so that a source only has to say what it changes; everything else is
replaced. What stands in the way of a path gives way to the table or list that the
path needs.

Names of entries are compared without letter case, so they are kept in lower case.
-/

import LineGuard.Settings.Path
import LineGuard.Settings.Value

namespace LineGuard.Settings

/-- A name in lower case. The Kelvin sign is an upper-case `k`. -/
def foldCase (name : Text) : Text :=
  name.map fun c => if c = '\u212A' then 'k' else c.toLower

namespace Value

/-- The entries of a table; other values have none. -/
def entries : Value → Dict Value
  | table entries => entries
  | _ => []

/-- The items of a list; other values have none. -/
def items : Value → List Value
  | list items => items
  | _ => []

mutual

/-- Gives an entry of a table a value. A table is laid over the value there is. -/
def setEntry (target : Value) (name : Text) : Value → Value
  | table incoming =>
    let there := (target.entries.get? (foldCase name)).getD (table [])
    table (target.entries.insert (foldCase name) (setEntries there incoming))
  | value => table (target.entries.insert (foldCase name) value)

/-- Gives several entries of a table their values, one after the other. -/
def setEntries (target : Value) : List (Text × Value) → Value
  | [] => target
  | (name, value) :: rest => setEntries (setEntry target name value) rest

end

/-- Where a position of a list of some length is, counted from its start. -/
def place (position : Int) (length : Nat) : Nat :=
  match position with
  | .ofNat n => n
  | .negSucc n => length - (n + 1)

/-- Gives an item of a list a value. A list that is too short is filled up. -/
def setItem (items : List Value) (n : Nat) (value : Value) : List Value :=
  (items ++ List.replicate (n + 1 - items.length) missing).set n value

/-- Gives the value that some steps lead to another value. -/
def setSteps (target : Value) (value : Value) : List Step → Value
  | [] => value
  | [.key name] => setEntry target name value
  | .key name :: steps =>
    let there := (target.entries.get? (foldCase name)).getD missing
    table (target.entries.insert (foldCase name) (there.setSteps value steps))
  | .index position :: steps =>
    let n := place position target.items.length
    let there := (target.items[n]?).getD missing
    list (setItem target.items n (there.setSteps value steps))

/-- Gives the value at a path another value. -/
def setPath (target : Value) (path : Path) (value : Value) : Value :=
  target.setSteps value (.key path.head :: path.steps)

/-- Lays the entries of a source over a table. Their names are paths, if they can
be read as such. -/
def layOver (target : Value) (source : List (Text × Value)) : Value :=
  source.foldl (fun target (name, value) =>
    target.setPath ((Path.parse? name).getD (Path.ofKey name)) value) target

end Value

end LineGuard.Settings
