/-
# Regions

A region is a run of lines on which one target has one permission for one reason.
Regions built from the tags of a document always name at least one line and never
overlap for a target; regions that come from elsewhere may do as they please, and
one that ends before it starts holds no line at all.
-/

import LineGuard.Permission

namespace LineGuard

/-- A run of lines governed in one way for one target. -/
structure Region where
  startLine : Nat
  /-- The last line. -/
  endLine : Nat
  target : Target
  permission : Permission
  /-- The line of the tag that governs; absent where no tag does. -/
  sourceLine : Option Nat
  /-- Whether the lines are background to be read. -/
  isContext : Bool
deriving DecidableEq, Repr

namespace Region

/-- Whether a line is in the region. -/
def contains (r : Region) (line : Nat) : Bool := r.startLine ≤ line && line ≤ r.endLine

/-- Whether neither region starts behind the end of the other. -/
def overlaps (r s : Region) : Bool := r.startLine ≤ s.endLine && s.startLine ≤ r.endLine

/-- The number of lines. -/
def lineCount (r : Region) : Nat := r.endLine + 1 - r.startLine

/-- Whether a tag governs the region. -/
def isTagged (r : Region) : Bool := r.sourceLine.isSome

/-- A region in short, lines counted from zero. -/
def text (r : Region) : Text :=
  r.target.name ++ ':' :: r.permission.name ++ " [".toList ++ Text.numeral r.startLine ++
    '-' :: Text.numeral r.endLine ++ ']' ::
    match r.sourceLine with
    | some line => " from line ".toList ++ Text.numeral line
    | none => " (default)".toList

/-- Regions are listed by their start and, at one line, by target. -/
def listedBefore (r s : Region) : Bool :=
  r.startLine < s.startLine || (r.startLine == s.startLine && r.target.rank ≤ s.target.rank)

@[simp]
theorem contains_iff {r : Region} {line : Nat} :
    r.contains line = true ↔ r.startLine ≤ line ∧ line ≤ r.endLine := by
  simp [contains]

/-- Overlapping does not depend on the order of the two. -/
theorem overlaps_comm (r s : Region) : r.overlaps s = s.overlaps r := by
  simp [overlaps, Bool.and_comm]

end Region

end LineGuard
