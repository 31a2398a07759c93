/-
# Whom a region prefers

Of the free regions that fit, a region takes one that was declared on the line on which it was
declared itself, and otherwise goes by the number of lines shared. Both are one key, compared
first by the declaration and then by the lines, and a partner has the largest key there is.

Against its own list, in whatever order, a region thus looks for regions of its own
declaration before all others. If those of one declaration do not overlap, the only one of
them that fits is the region's own copy. Regions of other declarations, however they nest,
are never preferred to it, so that nobody takes the copy of anybody else and each is still
free when its turn comes.
-/

import Mathlib.Data.Prod.Lex
import LineGuard.Proofs.Comparison.Verdict

namespace LineGuard

namespace Pairing

variable {region theirs other a b : Region} {free left : List Region}

/-! ## The best fit -/

/-- How much a region is liked for a partner. -/
def preference (region theirs : Region) : Bool ×ₗ Nat :=
  toLex (sameDeclaration theirs region, sharedLines region theirs)

theorem fitsBetter_iff :
    fitsBetter region a b = true ↔ preference region b < preference region a := by
  rw [preference, preference, Prod.Lex.toLex_lt_toLex, fitsBetter]
  cases sameDeclaration a region <;> cases sameDeclaration b region <;> simp

/-- No free region that fits is liked better than the partner. -/
theorem preference_le_of_partner? (h : partner? region free = some (theirs, left))
    (hmem : other ∈ free) (hfits : fits region other = true) :
    preference region other ≤ preference region theirs := by
  induction free generalizing theirs left with
  | nil => cases hmem
  | cons first rest ih =>
    rw [partner?] at h
    cases hlater : partner? region rest with
    | none =>
      rw [hlater] at h
      dsimp only at h
      split at h
      · obtain ⟨rfl, -⟩ := Prod.mk.inj (Option.some.inj h)
        rcases List.mem_cons.mp hmem with rfl | hrest
        · exact le_refl _
        · rw [partner?_eq_none_iff.mp hlater other hrest] at hfits
          cases hfits
      · cases h
    | some found =>
      obtain ⟨later, others⟩ := found
      rw [hlater] at h
      dsimp only at h
      split at h
      · next hfirst =>
        -- The first region fits, and nothing behind it fits better.
        obtain ⟨rfl, -⟩ := Prod.mk.inj (Option.some.inj h)
        rw [Bool.and_eq_true, Bool.not_eq_true', Bool.eq_false_iff, ne_eq, fitsBetter_iff,
          not_lt] at hfirst
        rcases List.mem_cons.mp hmem with rfl | hrest
        · exact le_refl _
        · exact le_trans (ih hlater hrest) hfirst.2
      · next hfirst =>
        obtain ⟨rfl, -⟩ := Prod.mk.inj (Option.some.inj h)
        rcases List.mem_cons.mp hmem with rfl | hrest
        · rw [hfits, Bool.true_and, Bool.not_eq_true', Bool.not_eq_false, fitsBetter_iff] at hfirst
          exact le_of_lt hfirst
        · exact ih hlater hrest

/-- Where a region of the same declaration fits, the partner is of the same declaration. -/
theorem sourceLine_eq_of_partner? (h : partner? region free = some (theirs, left))
    (hmem : other ∈ free) (hfits : fits region other = true)
    (hsource : other.sourceLine = region.sourceLine) : theirs.sourceLine = region.sourceLine := by
  have hle := preference_le_of_partner? h hmem hfits
  have hother : sameDeclaration other region = true := beq_iff_eq.mpr hsource
  rw [preference, preference, Prod.Lex.toLex_le_toLex, hother] at hle
  have hsame : sameDeclaration theirs region = true := by
    rcases hle with hlt | ⟨heq, -⟩
    · exact absurd hlt (not_lt_of_ge (Bool.le_true _))
    · exact heq.symm
  exact beq_iff_eq.mp hsame

/-- A region takes itself where it is free and overlaps no other region of its declaration. -/
theorem exists_partner?_eq_self (hregion : region.startLine ≤ region.endLine)
    (hmem : region ∈ free)
    (halone : ∀ s ∈ free, s.target = region.target → s.sourceLine = region.sourceLine →
      s.overlaps region = true → s = region) :
    ∃ left, partner? region free = some (region, left) := by
  have hself := fits_self hregion
  cases hpartner : partner? region free with
  | none =>
    rw [partner?_eq_none_iff.mp hpartner region hmem] at hself
    cases hself
  | some found =>
    obtain ⟨theirs, left⟩ := found
    have hsource := sourceLine_eq_of_partner? hpartner hmem hself rfl
    have hfree : theirs ∈ free := (perm_of_partner? hpartner).mem_iff.mp List.mem_cons_self
    have hfits := fits_of_partner? hpartner
    have hoverlaps := (Bool.and_eq_true_iff.mp hfits).2
    obtain rfl := halone theirs hfree (fits_iff.mp hfits).1 hsource hoverlaps
    exact ⟨left, rfl⟩

end Pairing

namespace Report

variable {regions shuffled : List Region}

/-- A list of regions compared with itself in another order, whatever the tolerance, gives
nothing to report and pairs all that is tagged. Only regions of one target and one declaration
must not overlap, unless they are the same in everything; regions of different declarations
may lie across each other as they please. -/
theorem compare_of_perm (hperm : shuffled.Perm regions)
    (hlines : ∀ r ∈ regions, r.startLine ≤ r.endLine)
    (hapart : ∀ r ∈ regions, ∀ s ∈ regions, r.isTagged = true → r ≠ s → r.target = s.target →
      r.sourceLine = s.sourceLine → r.overlaps s = false) (tolerance : Nat) :
    (compare tolerance regions shuffled).discrepancies = [] ∧
      (compare tolerance regions shuffled).matched = (regions.filter (·.isTagged)).length := by
  have htagged := hperm.filter (·.isTagged)
  have htakes : ∀ region ∈ regions.filter (·.isTagged), ∀ part,
      part.Subperm (shuffled.filter (·.isTagged)) → region ∈ part.map id →
      ∃ theirs left, Pairing.partner? region part = some (theirs, left) ∧ theirs = region := by
    intro region hregion part hpart hmem
    obtain ⟨hlisted, htag⟩ := List.mem_filter.mp hregion
    rw [List.map_id] at hmem
    obtain ⟨left, hpartner⟩ := Pairing.exists_partner?_eq_self (hlines region hlisted) hmem
      fun s hs htarget hsource hoverlaps => by
        have hsame := (List.mem_filter.mp (htagged.subset (hpart.subset hs))).1
        by_contra hne
        have hclash := hapart region hlisted s hsame htag (Ne.symm hne) htarget.symm hsource.symm
        rw [Region.overlaps_comm, hoverlaps] at hclash
        cases hclash
    exact ⟨region, left, hpartner, rfl⟩
  obtain ⟨hunpaired, hpaired⟩ := Pairing.make_of_takes id htakes (htagged.symm.map id)
  have hverdict : (compare tolerance regions shuffled).verdict = .pass := by
    refine verdict_compare_eq_pass_iff.mpr ⟨hunpaired, fun q hq => ?_⟩
    obtain ⟨theirs, hsome, hsame⟩ := hpaired q hq
    refine ⟨theirs, hsome, Discrepancy.ofPair_eq_nil_iff.mpr ?_⟩
    obtain rfl : theirs = q.1 := hsame
    simp [Discrepancy.differ_eq_false_iff]
  exact ⟨verdict_eq_pass_iff.mp hverdict, matched_of_pass hverdict⟩

/-- A grant split by another inside it, the inner grant, one for the other target across all,
a default region, and one region listed twice. -/
def nestedRegions : List Region :=
  [⟨0, 2, .ai, .read, some 0, false⟩, ⟨3, 5, .ai, .deny, some 3, false⟩,
    ⟨6, 9, .ai, .read, some 0, false⟩, ⟨2, 8, .ai, .write, some 1, false⟩,
    ⟨0, 9, .human, .write, some 0, false⟩, ⟨0, 9, .human, .write, some 0, false⟩,
    ⟨10, 12, .ai, .read, none, false⟩]

theorem compare_of_perm_nested :
    nestedRegions.reverse.Perm nestedRegions ∧
    (∀ r ∈ nestedRegions, r.startLine ≤ r.endLine) ∧
    (∀ r ∈ nestedRegions, ∀ s ∈ nestedRegions, r.isTagged = true → r ≠ s → r.target = s.target →
      r.sourceLine = s.sourceLine → r.overlaps s = false) ∧
    (compare 0 nestedRegions nestedRegions.reverse).discrepancies = [] ∧
    (compare 0 nestedRegions nestedRegions.reverse).matched = 6 := by
  have hlines : ∀ r ∈ nestedRegions, r.startLine ≤ r.endLine := by decide
  have hapart : ∀ r ∈ nestedRegions, ∀ s ∈ nestedRegions, r.isTagged = true → r ≠ s →
      r.target = s.target → r.sourceLine = s.sourceLine → r.overlaps s = false := by
    decide
  have hperm := nestedRegions.reverse_perm
  exact ⟨hperm, hlines, hapart, compare_of_perm hperm hlines hapart 0⟩

end Report

end LineGuard
