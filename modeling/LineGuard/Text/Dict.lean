/-
# Dictionaries keyed by text

A dictionary is a list of entries whose keys ascend, so that walking it gives
the order in which tables are listed. Inserting replaces the value a key had.
-/

import LineGuard.Text.Basic

namespace LineGuard

/-- Entries in ascending order of their keys. -/
abbrev Dict (α : Type) := List (Text × α)

namespace Dict

variable {α : Type}

/-- The value of a key. -/
def get? : Dict α → Text → Option α
  | [], _ => none
  | (k, a) :: rest, key => if k = key then some a else get? rest key

/-- Gives a key a value, in place of the one it had. -/
def insert : Dict α → Text → α → Dict α
  | [], key, value => [(key, value)]
  | (k, a) :: rest, key, value =>
    if k = key then (key, value) :: rest
    else if Text.precedes key k then (key, value) :: (k, a) :: rest
    else (k, a) :: insert rest key value

/-- The dictionary of some entries; of entries with one key the last counts. -/
def ofEntries (entries : List (Text × α)) : Dict α :=
  entries.foldl (fun d entry => insert d entry.1 entry.2) []

/-- Whether a key has a value. -/
def has (d : Dict α) (key : Text) : Bool := (d.get? key).isSome

@[simp]
theorem get?_nil (key : Text) : get? ([] : Dict α) key = none := rfl

/-- Looking up after inserting finds the new value at its key and the old ones
everywhere else, in whatever order the entries stand. -/
theorem get?_insert (d : Dict α) (key other : Text) (value : α) :
    (d.insert key value).get? other = if key = other then some value else d.get? other := by
  induction d with
  | nil => simp [insert, get?]
  | cons entry rest ih =>
    obtain ⟨k, a⟩ := entry
    simp only [insert]
    split
    · subst_vars
      simp only [get?]
      split <;> rfl
    · split
      · rfl
      · simp only [get?, ih]
        split <;> split <;> simp_all

end Dict

end LineGuard
