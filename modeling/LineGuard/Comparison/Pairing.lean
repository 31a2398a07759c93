/-
# Pairing regions

Two programs that read the same document should find the same regions. To see
where they differ, each of our regions in turn is given a partner among the
regions of the other program that are still free: one for the same target that
overlaps it, declared on the same line if possible, then sharing as many lines
as possible, then listed as early as possible.
-/

import LineGuard.Region.Basic

namespace LineGuard

/-- Our regions with the partners they were given, and the regions of the other
program that nobody was given. -/
structure Pairing where
  ours : List (Region × Option Region)
  unpaired : List Region
deriving DecidableEq, Repr

namespace Pairing

/-- Whether a region can be the partner of ours. -/
def fits (ours theirs : Region) : Bool := theirs.target == ours.target && theirs.overlaps ours

/-- The number of lines that two overlapping regions share. -/
def sharedLines (r s : Region) : Nat :=
  min r.endLine s.endLine + 1 - max r.startLine s.startLine

/-- Whether two regions were declared on the same line. -/
def sameDeclaration (r s : Region) : Bool := r.sourceLine == s.sourceLine

/-- Whether one region fits ours better than another does. -/
def fitsBetter (ours a b : Region) : Bool :=
  match sameDeclaration a ours, sameDeclaration b ours with
  | true, false => true
  | false, true => false
  | _, _ => sharedLines ours b < sharedLines ours a

/-- The partner for a region among the free ones, and the ones left. -/
def partner? (ours : Region) : List Region → Option (Region × List Region)
  | [] => none
  | theirs :: rest =>
    match partner? ours rest with
    | some (later, others) =>
      if fits ours theirs && !fitsBetter ours later theirs then some (theirs, rest)
      else some (later, theirs :: others)
    | none => if fits ours theirs then some (theirs, rest) else none

/-- Gives our regions partners, in order. -/
def make : (ours free : List Region) → Pairing
  | [], free => ⟨[], free⟩
  | region :: rest, free =>
    match partner? region free with
    | some (theirs, left) =>
      let pairing := make rest left
      { pairing with ours := (region, some theirs) :: pairing.ours }
    | none =>
      let pairing := make rest free
      { pairing with ours := (region, none) :: pairing.ours }

/-- The pairs. -/
def pairs (p : Pairing) : List (Region × Region) :=
  p.ours.filterMap fun (ours, theirs) => theirs.map (ours, ·)

/-- A partner fits. -/
theorem fits_of_partner? {ours theirs : Region} {free left : List Region}
    (h : partner? ours free = some (theirs, left)) : fits ours theirs = true := by
  induction free generalizing theirs left with
  | nil => simp [partner?] at h
  | cons first rest ih =>
    rw [partner?] at h
    split at h
    · next later others hlater =>
      split at h
      · next hfirst =>
        simp only [Option.some.injEq, Prod.mk.injEq] at h
        obtain ⟨rfl, -⟩ := h
        simp only [Bool.and_eq_true] at hfirst
        exact hfirst.1
      · simp only [Option.some.injEq, Prod.mk.injEq] at h
        obtain ⟨rfl, -⟩ := h
        exact ih hlater
    · split at h
      · next hfirst =>
        simp only [Option.some.injEq, Prod.mk.injEq] at h
        obtain ⟨rfl, -⟩ := h
        exact hfirst
      · simp at h

/-- A partner is taken out of the free regions and nothing else happens to them. -/
theorem perm_of_partner? {ours theirs : Region} {free left : List Region}
    (h : partner? ours free = some (theirs, left)) : (theirs :: left).Perm free := by
  induction free generalizing theirs left with
  | nil => simp [partner?] at h
  | cons first rest ih =>
    rw [partner?] at h
    split at h
    · next later others hlater =>
      split at h
      · simp only [Option.some.injEq, Prod.mk.injEq] at h
        obtain ⟨rfl, rfl⟩ := h
        exact .refl _
      · simp only [Option.some.injEq, Prod.mk.injEq] at h
        obtain ⟨rfl, rfl⟩ := h
        exact (List.Perm.swap _ _ _).trans ((ih hlater).cons _)
    · split at h
      · simp only [Option.some.injEq, Prod.mk.injEq] at h
        obtain ⟨rfl, rfl⟩ := h
        exact .refl _
      · simp at h

/-- There is no partner exactly when no free region fits. -/
theorem partner?_eq_none_iff {ours : Region} {free : List Region} :
    partner? ours free = none ↔ ∀ theirs ∈ free, fits ours theirs = false := by
  induction free with
  | nil => simp [partner?]
  | cons first rest ih =>
    rw [partner?]
    split
    · next later others hlater =>
      have hsome : ¬ ∀ theirs ∈ rest, fits ours theirs = false := by
        rw [← ih, hlater]
        simp
      constructor
      · intro h
        split at h <;> simp at h
      · intro h
        exact absurd (fun theirs ht => h theirs (List.mem_cons_of_mem _ ht)) hsome
    · next hnone =>
      have hrest := ih.mp hnone
      constructor
      · intro h
        split at h
        · simp at h
        · next hfirst =>
          intro theirs ht
          rcases List.mem_cons.mp ht with rfl | ht
          · simpa using hfirst
          · exact hrest theirs ht
      · intro h
        rw [if_neg (by simp [h first List.mem_cons_self])]

end Pairing

end LineGuard
