/-
# Spans of lines

A span is never empty: both its ends belong to it, and the proof field keeps them
in order. Whatever is placed in a document, construct or scope, is placed as a
span.
-/

namespace LineGuard

/-- A run of lines, both ends included. -/
structure Span where
  first : Nat
  last : Nat
  first_le_last : first ≤ last
deriving DecidableEq, Repr

namespace Span

/-- The run from one line to another; at least its first line is in it. -/
def between (first last : Nat) : Span := ⟨first, max first last, Nat.le_max_left ..⟩

/-- A single line. -/
def single (line : Nat) : Span := ⟨line, line, Nat.le_refl _⟩

@[simp]
theorem first_between (first last : Nat) : (between first last).first = first := rfl

@[simp]
theorem last_between (first last : Nat) : (between first last).last = max first last := rfl

/-- Between a line and one that is not before it, nothing is rounded up. -/
theorem last_between_of_le {first last : Nat} (h : first ≤ last) :
    (between first last).last = last := by
  simp [Nat.max_eq_right h]

end Span

end LineGuard
