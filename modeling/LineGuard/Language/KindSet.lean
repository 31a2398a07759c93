/-
# Sets of node kinds

Which kinds of syntax nodes count as a function, a class and so on is a set of
names. Sets are listed in ascending order and hold every name once, so equal
sets are equal lists.
-/

import LineGuard.Text.Basic

namespace LineGuard

/-- A set of names of node kinds, listed in ascending order. -/
structure KindSet where
  kinds : List Text
deriving DecidableEq, Repr

namespace KindSet

/-- The set without any kinds. -/
def empty : KindSet := ⟨[]⟩

/-- Puts a name into an ascending list, unless it is there. -/
private def place : List Text → Text → List Text
  | [], kind => [kind]
  | k :: rest, kind =>
    if k = kind then k :: rest
    else if Text.precedes kind k then kind :: k :: rest
    else k :: place rest kind

/-- The set with one more kind. -/
def insert (set : KindSet) (kind : Text) : KindSet := ⟨place set.kinds kind⟩

/-- The set without a kind. -/
def erase (set : KindSet) (kind : Text) : KindSet := ⟨set.kinds.filter (· != kind)⟩

/-- Whether a kind is in the set. -/
def contains (set : KindSet) (kind : Text) : Bool := set.kinds.contains kind

/-- Whether the set has no kinds. -/
def isEmpty (set : KindSet) : Bool := set.kinds.isEmpty

/-- The number of kinds. -/
def size (set : KindSet) : Nat := set.kinds.length

/-- The set with several more kinds. -/
def insertAll (set : KindSet) (kinds : List Text) : KindSet := kinds.foldl insert set

/-- The set without several kinds. -/
def eraseAll (set : KindSet) (kinds : List Text) : KindSet := kinds.foldl erase set

/-- The set of some names. -/
def ofList (kinds : List Text) : KindSet := empty.insertAll kinds

/-- The kinds of either set. -/
def union (first second : KindSet) : KindSet := first.insertAll second.kinds

private theorem mem_place {list : List Text} {kind other : Text} :
    other ∈ place list kind ↔ other = kind ∨ other ∈ list := by
  induction list with
  | nil => simp [place]
  | cons k rest ih =>
    simp only [place]
    split
    · subst_vars; simp
    · split
      · simp
      · simp [ih, or_left_comm]

/-- Exactly the new kind and the old ones are in a set after inserting. -/
@[simp]
theorem contains_insert {set : KindSet} {kind other : Text} :
    (set.insert kind).contains other = true ↔ other = kind ∨ set.contains other = true := by
  simp [contains, insert, mem_place]

/-- Exactly the other kinds are in a set after erasing one. -/
@[simp]
theorem contains_erase {set : KindSet} {kind other : Text} :
    (set.erase kind).contains other = true ↔ set.contains other = true ∧ other ≠ kind := by
  simp [contains, erase]

theorem contains_insertAll {set : KindSet} {kinds : List Text} {other : Text} :
    (set.insertAll kinds).contains other = true ↔
      other ∈ kinds ∨ set.contains other = true := by
  induction kinds generalizing set with
  | nil => simp [insertAll]
  | cons kind rest ih =>
    have h : set.insertAll (kind :: rest) = (set.insert kind).insertAll rest := rfl
    rw [h, ih, contains_insert, List.mem_cons]
    constructor
    · rintro (h | h | h) <;> simp [h]
    · rintro ((h | h) | h) <;> simp [h]

theorem contains_eraseAll {set : KindSet} {kinds : List Text} {other : Text} :
    (set.eraseAll kinds).contains other = true ↔
      set.contains other = true ∧ other ∉ kinds := by
  induction kinds generalizing set with
  | nil => simp [eraseAll]
  | cons kind rest ih =>
    have h : set.eraseAll (kind :: rest) = (set.erase kind).eraseAll rest := rfl
    rw [h, ih, contains_erase, List.mem_cons, not_or, and_assoc]

end KindSet

end LineGuard
