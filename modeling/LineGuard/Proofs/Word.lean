/-
# Machine words

A program that counts lines in machine words may come to a sum that is none. What becomes of it
is not decided by the program but by the way it is built: with checks the computation breaks
off and gives no result, and without them the sum is reduced to a word and the computation goes
on with that.
-/

namespace LineGuard

namespace Word

/-- The sum of two words, if it is a word. -/
def add? (m n : Nat) : Option Nat := if m + n < Nat.pow 2 64 then some (m + n) else none

/-- The difference of two words, if there is one. -/
def sub? (m n : Nat) : Option Nat := if n ≤ m then some (m - n) else none

theorem add?_eq_some {m n : Nat} (h : m + n < Nat.pow 2 64) : add? m n = some (m + n) := if_pos h

theorem add?_eq_none {m n : Nat} (h : Nat.pow 2 64 ≤ m + n) : add? m n = none :=
  if_neg (Nat.not_lt.mpr h)

theorem sub?_eq_some {m n : Nat} (h : n ≤ m) : sub? m n = some (m - n) := if_pos h

end Word

/-- The two ways in which a program can be built. -/
inductive Machine where
  /-- A sum that is no word ends the computation. -/
  | checked
  /-- A sum that is no word is reduced to one. -/
  | wrapping
deriving DecidableEq, Repr

namespace Machine

/-- The sum of two words as a machine computes it. -/
def add? : Machine → Nat → Nat → Option Nat
  | checked, m, n => Word.add? m n
  | wrapping, m, n => some ((m + n) % Nat.pow 2 64)

/-- Machines agree on sums that are words. -/
theorem add?_eq_some (machine : Machine) {m n : Nat} (h : m + n < Nat.pow 2 64) :
    machine.add? m n = some (m + n) := by
  cases machine with
  | checked => exact Word.add?_eq_some h
  | wrapping => rw [add?, Nat.mod_eq_of_lt h]

theorem add?_eq_none_iff {machine : Machine} {m n : Nat} :
    machine.add? m n = none ↔ machine = .checked ∧ Nat.pow 2 64 ≤ m + n := by
  cases machine with
  | checked =>
    constructor
    · intro hnone
      refine ⟨rfl, Nat.le_of_not_lt fun hlt => ?_⟩
      cases hnone.symm.trans (Word.add?_eq_some hlt)
    · exact fun h => Word.add?_eq_none h.2
  | wrapping => exact ⟨fun h => (nomatch h), fun h => (nomatch h.1)⟩

end Machine

end LineGuard
