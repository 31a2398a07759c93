/-
# What a pairing pairs

Each of our regions takes at most one partner out of the free regions, and no partner
is put back. So our regions stay in order, and the regions of the other program are
all there once: as somebody's partner or left over.

Which partner a region prefers matters only when several fit. Where the free regions
of a target share no line, a region that has a twin among them has no choice: whatever
else fits would share a line with the twin.
-/

import LineGuard.Comparison.Pairing
import Mathlib.Data.List.Perm.Basic

namespace LineGuard

/-- What a region says, without the line of the tag that makes it say so. -/
def Region.stated (r : Region) : Target × Permission × Nat × Nat :=
  (r.target, r.permission, r.startLine, r.endLine)

namespace Pairing

variable {region theirs other : Region} {ours rest free left : List Region}

/-! ## Who fits whom -/

theorem fits_iff : fits region theirs = true ↔ theirs.target = region.target ∧
    theirs.startLine ≤ region.endLine ∧ region.startLine ≤ theirs.endLine := by
  simp [fits, Region.overlaps]

theorem fits_comm (r s : Region) : fits r s = fits s r := by
  rw [fits, fits, Region.overlaps_comm, Bool.beq_comm]

/-- Regions fit when they share a line, and only then if both hold one. -/
theorem fits_iff_exists_contains (hregion : region.startLine ≤ region.endLine)
    (htheirs : theirs.startLine ≤ theirs.endLine) :
    fits region theirs = true ↔ theirs.target = region.target ∧
      ∃ line, region.contains line = true ∧ theirs.contains line = true := by
  simp only [fits_iff, Region.contains_iff]
  refine and_congr_right fun _ => ⟨fun h => ?_, ?_⟩
  · exact ⟨max region.startLine theirs.startLine, by omega⟩
  · rintro ⟨line, hline⟩
    omega

/-- A region fits whatever its twin fits. -/
theorem fits_congr (h : theirs.stated = other.stated) (r : Region) :
    fits r theirs = fits r other := by
  simp only [Region.stated, Prod.mk.injEq] at h
  obtain ⟨htarget, _, hstart, hend⟩ := h
  simp only [fits, Region.overlaps, htarget, hstart, hend]

theorem fits_self (h : region.startLine ≤ region.endLine) : fits region region = true :=
  fits_iff.mpr ⟨rfl, h, h⟩

/-! ## One region after the other -/

/-- The first of our regions takes its partner, and the others choose among the
regions left. -/
theorem make_cons (region : Region) (rest free : List Region) :
    (∃ theirs left, partner? region free = some (theirs, left) ∧
      make (region :: rest) free =
        ⟨(region, some theirs) :: (make rest left).ours, (make rest left).unpaired⟩) ∨
    partner? region free = none ∧
      make (region :: rest) free =
        ⟨(region, none) :: (make rest free).ours, (make rest free).unpaired⟩ := by
  rw [make]
  cases hpartner : partner? region free with
  | none => exact .inr ⟨rfl, rfl⟩
  | some found => exact .inl ⟨found.1, found.2, rfl, rfl⟩

theorem map_fst_ours_make (ours free : List Region) : (make ours free).ours.map (·.1) = ours := by
  induction ours generalizing free with
  | nil => rfl
  | cons region rest ih =>
    rcases make_cons region rest free with ⟨theirs, left, _, heq⟩ | ⟨_, heq⟩
    · rw [heq, List.map_cons, ih left]
    · rw [heq, List.map_cons, ih free]

theorem fits_of_mem_ours_make (h : (region, some theirs) ∈ (make ours free).ours) :
    fits region theirs = true := by
  induction ours generalizing free with
  | nil => cases h
  | cons first rest ih =>
    rcases make_cons first rest free with ⟨partner, left, hpartner, heq⟩ | ⟨_, heq⟩
    · rw [heq] at h
      rcases List.mem_cons.mp h with hfirst | hrest
      · obtain ⟨rfl, hsome⟩ := Prod.mk.inj hfirst
        exact Option.some.inj hsome ▸ fits_of_partner? hpartner
      · exact ih hrest
    · rw [heq] at h
      rcases List.mem_cons.mp h with hfirst | hrest
      · cases hfirst
      · exact ih hrest

theorem mem_pairs {p : Pairing} : (region, theirs) ∈ p.pairs ↔ (region, some theirs) ∈ p.ours := by
  simp [pairs]

/-- Every region of the other program is somebody's partner or left over. -/
theorem perm_make (ours free : List Region) :
    ((make ours free).pairs.map (·.2) ++ (make ours free).unpaired).Perm free := by
  induction ours generalizing free with
  | nil => exact .refl free
  | cons region rest ih =>
    rcases make_cons region rest free with ⟨theirs, left, hpartner, heq⟩ | ⟨_, heq⟩
    · rw [heq]
      exact ((ih left).cons theirs).trans (perm_of_partner? hpartner)
    · rw [heq]
      exact ih free

/-- When everybody has a partner, the pairs list our regions in order. -/
theorem map_fst_pairs {p : Pairing} (h : ∀ q ∈ p.ours, q.2 ≠ none) :
    p.pairs.map (·.1) = p.ours.map (·.1) := by
  obtain ⟨ours, unpaired⟩ := p
  rw [pairs]
  induction ours with
  | nil => rfl
  | cons q rest ih =>
    obtain ⟨region, partner⟩ := q
    have hrest := ih fun q hq => h q (List.mem_cons_of_mem _ hq)
    cases partner with
    | none => exact absurd rfl (h _ List.mem_cons_self)
    | some theirs => simpa using hrest

/-! ## Twins -/

/-- A region with a twin among free regions that do not fit each other takes a twin. -/
theorem exists_partner?_of_stated (hfree : free.Pairwise fun r s => fits r s = false)
    (hregion : region.startLine ≤ region.endLine) (htwin : region.stated ∈ free.map (·.stated)) :
    ∃ theirs left, partner? region free = some (theirs, left) ∧
      theirs.stated = region.stated := by
  obtain ⟨twin, hmem, hstated⟩ := List.mem_map.mp htwin
  have hfits : fits region twin = true := (fits_congr hstated region).trans (fits_self hregion)
  cases hpartner : partner? region free with
  | none =>
    have hnone := partner?_eq_none_iff.mp hpartner twin hmem
    rw [hfits] at hnone
    cases hnone
  | some found =>
    obtain ⟨theirs, left⟩ := found
    refine ⟨theirs, left, rfl, ?_⟩
    have hperm := perm_of_partner? hpartner
    obtain ⟨hothers, _⟩ := List.pairwise_cons.mp
      ((hperm.pairwise_iff fun {r s} h => (fits_comm s r).trans h).mpr hfree)
    rcases List.mem_cons.mp (hperm.mem_iff.mpr hmem) with rfl | hleft
    · exact hstated
    · -- The partner would fit the twin that was passed over.
      have hclash := hothers twin hleft
      rw [fits_congr hstated, fits_comm, fits_of_partner? hpartner] at hclash
      cases hclash

/-- If the free regions are twins of ours, and each of ours takes a twin out of whatever is
left of them as long as there is one, everybody is paired with a twin. -/
theorem make_of_takes {α : Type} (view : Region → α)
    (htakes : ∀ region ∈ ours, ∀ part, part.Subperm free → view region ∈ part.map view →
      ∃ theirs left, partner? region part = some (theirs, left) ∧ view theirs = view region)
    (hperm : (ours.map view).Perm (free.map view)) :
    (make ours free).unpaired = [] ∧
      ∀ q ∈ (make ours free).ours, ∃ theirs, q.2 = some theirs ∧ view theirs = view q.1 := by
  -- What is left of the free regions stays the twins of what is left of ours.
  induction ours generalizing free with
  | nil =>
    have hnil : free = [] := List.map_eq_nil_iff.mp hperm.nil_eq.symm
    exact ⟨hnil, fun _ hq => nomatch hq⟩
  | cons region rest ih =>
    have htwin : view region ∈ free.map view := hperm.mem_iff.mp List.mem_cons_self
    obtain ⟨theirs, left, hpartner, hview⟩ :=
      htakes region List.mem_cons_self free (List.Subperm.refl free) htwin
    have htaken := perm_of_partner? hpartner
    have hleft : left.Subperm free :=
      (List.sublist_cons_self theirs left).subperm.trans htaken.subperm
    have hrest : (rest.map view).Perm (left.map view) := by
      refine List.Perm.cons_inv (a := view region) (hperm.trans ?_)
      rw [← hview]
      exact (htaken.map _).symm
    obtain ⟨hunpaired, hpaired⟩ := ih (fun r hr part hpart =>
      htakes r (List.mem_cons_of_mem _ hr) part (hpart.trans hleft)) hrest
    rcases make_cons region rest free with ⟨theirs', left', hpartner', heq⟩ | ⟨hnone, _⟩
    · obtain ⟨rfl, rfl⟩ := Prod.mk.inj (Option.some.inj (hpartner.symm.trans hpartner'))
      rw [heq]
      refine ⟨hunpaired, fun q hq => ?_⟩
      rcases List.mem_cons.mp hq with rfl | hq
      · exact ⟨theirs, rfl, hview⟩
      · exact hpaired q hq
    · rw [hpartner] at hnone
      cases hnone

/-- If the free regions say what ours do and do not fit each other, everybody is
paired with a twin. -/
theorem make_of_perm_stated (hfree : free.Pairwise fun r s => fits r s = false)
    (hours : ∀ r ∈ ours, r.startLine ≤ r.endLine)
    (hperm : (ours.map (·.stated)).Perm (free.map (·.stated))) :
    (make ours free).unpaired = [] ∧
      ∀ q ∈ (make ours free).ours, ∃ theirs, q.2 = some theirs ∧ theirs.stated = q.1.stated := by
  refine make_of_takes (·.stated) (fun region hregion part hpart htwin => ?_) hperm
  obtain ⟨inOrder, hinOrder, hsublist⟩ := hpart
  have hpairwise : part.Pairwise fun r s => fits r s = false :=
    (hinOrder.pairwise_iff fun {r s} h => (fits_comm s r).trans h).mp (hfree.sublist hsublist)
  exact exists_partner?_of_stated hpairwise (hours region hregion) htwin

end Pairing

end LineGuard
