/-
# What passes

A comparison passes when it has nothing to report: everybody has a partner, and no
pair disagrees. This module says what that means for the two lists of regions.

Whatever the lists, passing pairs them off completely, each pair within the tolerance.
The converse cannot hold in general, since a region may take a partner that another one
needed. It does hold where no two regions of a target share a line: then only twins
can be paired, and the order of the lists and the lines of the tags do not matter.
-/

import LineGuard.Comparison.Report
import LineGuard.Proofs.Comparison.Pairing

namespace LineGuard

namespace Discrepancy

variable {tolerance : Nat} {ours theirs : Region}

theorem differ_eq_false_iff {m n : Nat} :
    differ tolerance m n = false ↔ m ≤ n + tolerance ∧ n ≤ m + tolerance := by
  rw [differ, decide_eq_false_iff_not]
  omega

theorem ofPair_eq_nil_iff : ofPair tolerance ours theirs = [] ↔
    ours.permission = theirs.permission ∧
      differ tolerance ours.startLine theirs.startLine = false ∧
      differ tolerance ours.endLine theirs.endLine = false := by
  have hpermission : (if ours.permission = theirs.permission then []
      else [permissionMismatch ours theirs]) = [] ↔ ours.permission = theirs.permission := by
    split <;> simp_all
  have hbounds : (ofBounds? tolerance ours theirs).toList = [] ↔
      differ tolerance ours.startLine theirs.startLine = false ∧
        differ tolerance ours.endLine theirs.endLine = false := by
    rw [ofBounds?]
    split
    · simp_all
    · split <;> simp_all
  rw [ofPair, List.append_eq_nil_iff, hpermission, hbounds]

end Discrepancy

/-- One region says what another does about a line they share, up to a difference of
lines at both ends. -/
structure Region.AgreesWithin (tolerance : Nat) (r s : Region) : Prop where
  target_eq : s.target = r.target
  permission_eq : s.permission = r.permission
  overlaps : s.overlaps r = true
  start_near : r.startLine ≤ s.startLine + tolerance ∧ s.startLine ≤ r.startLine + tolerance
  end_near : r.endLine ≤ s.endLine + tolerance ∧ s.endLine ≤ r.endLine + tolerance

theorem Region.AgreesWithin.stated_eq {r s : Region} (h : r.AgreesWithin 0 s) :
    r.stated = s.stated := by
  obtain ⟨htarget, hpermission, _, hstart, hend⟩ := h
  simp only [stated, Prod.mk.injEq]
  exact ⟨htarget.symm, hpermission.symm, by omega, by omega⟩

namespace Report

variable {tolerance : Nat} {ours theirs : Region} {engine external : List Region}

theorem discrepanciesOf_eq_nil_iff {p : Pairing} : discrepanciesOf tolerance p = [] ↔
    p.unpaired = [] ∧ ∀ q ∈ p.ours, ∃ theirs, q.2 = some theirs ∧
      Discrepancy.ofPair tolerance q.1 theirs = [] := by
  have hours (q : Region × Option Region) : ofOurs tolerance q = [] ↔
      ∃ theirs, q.2 = some theirs ∧ Discrepancy.ofPair tolerance q.1 theirs = [] := by
    obtain ⟨region, partner⟩ := q
    cases partner <;> simp [ofOurs]
  rw [discrepanciesOf, List.append_eq_nil_iff, List.flatMap_eq_nil_iff, List.map_eq_nil_iff,
    and_comm]
  simp only [hours]

/-- The pairing that a comparison makes. -/
def pairingOf (engine external : List Region) : Pairing :=
  Pairing.make (engine.filter (·.isTagged)) (external.filter (·.isTagged))

/-- A comparison passes when everybody has a partner with which there is nothing to
report. -/
theorem verdict_compare_eq_pass_iff : (compare tolerance engine external).verdict = .pass ↔
    (pairingOf engine external).unpaired = [] ∧ ∀ q ∈ (pairingOf engine external).ours,
      ∃ theirs, q.2 = some theirs ∧ Discrepancy.ofPair tolerance q.1 theirs = [] :=
  verdict_eq_pass_iff.trans discrepanciesOf_eq_nil_iff

/-- A comparison that passes has given each of our tagged regions a partner. -/
theorem map_fst_pairs_of_pass (h : (compare tolerance engine external).verdict = .pass) :
    (pairingOf engine external).pairs.map (·.1) = engine.filter (·.isTagged) := by
  have hall : ∀ q ∈ (pairingOf engine external).ours, q.2 ≠ none := by
    intro q hq
    obtain ⟨theirs, hsome, _⟩ := (verdict_compare_eq_pass_iff.mp h).2 q hq
    simp [hsome]
  exact (Pairing.map_fst_pairs hall).trans (Pairing.map_fst_ours_make _ _)

theorem matched_of_pass (h : (compare tolerance engine external).verdict = .pass) :
    (compare tolerance engine external).matched = (engine.filter (·.isTagged)).length := by
  rw [← map_fst_pairs_of_pass h, List.length_map]
  rfl

/-- A comparison that passes has paired the tagged regions off, and the pairs agree. -/
theorem exists_pairs_of_pass (h : (compare tolerance engine external).verdict = .pass) :
    ∃ pairs : List (Region × Region),
      pairs.map (·.1) = engine.filter (·.isTagged) ∧
      (pairs.map (·.2)).Perm (external.filter (·.isTagged)) ∧
      ∀ p ∈ pairs, p.1.AgreesWithin tolerance p.2 := by
  obtain ⟨hunpaired, hpaired⟩ := verdict_compare_eq_pass_iff.mp h
  refine ⟨(pairingOf engine external).pairs, map_fst_pairs_of_pass h, ?_, ?_⟩
  · have hperm := Pairing.perm_make (engine.filter (·.isTagged)) (external.filter (·.isTagged))
    rwa [← pairingOf, hunpaired, List.append_nil] at hperm
  · rintro ⟨region, partner⟩ hp
    have hours := Pairing.mem_pairs.mp hp
    obtain ⟨theirs, hsome, hnothing⟩ := hpaired _ hours
    obtain rfl : partner = theirs := Option.some.inj hsome
    obtain ⟨hpermission, hstart, hend⟩ := Discrepancy.ofPair_eq_nil_iff.mp hnothing
    have hfits := Pairing.fits_of_mem_ours_make hours
    exact
      { target_eq := (Pairing.fits_iff.mp hfits).1
        permission_eq := hpermission.symm
        overlaps := (Bool.and_eq_true_iff.mp hfits).2
        start_near := Discrepancy.differ_eq_false_iff.mp hstart
        end_near := Discrepancy.differ_eq_false_iff.mp hend }

/-- Regions that say the same, and do not fit each other on one side, pass whatever the
tolerance is. -/
theorem pass_of_perm_stated
    (hours : ∀ r ∈ engine.filter (·.isTagged), r.startLine ≤ r.endLine)
    (hfree : (external.filter (·.isTagged)).Pairwise fun r s => Pairing.fits r s = false)
    (hperm : ((engine.filter (·.isTagged)).map (·.stated)).Perm
      ((external.filter (·.isTagged)).map (·.stated))) :
    (compare tolerance engine external).verdict = .pass := by
  obtain ⟨hunpaired, hpaired⟩ := Pairing.make_of_perm_stated hfree hours hperm
  refine verdict_compare_eq_pass_iff.mpr ⟨hunpaired, fun q hq => ?_⟩
  obtain ⟨theirs, hsome, hstated⟩ := hpaired q hq
  refine ⟨theirs, hsome, Discrepancy.ofPair_eq_nil_iff.mpr ?_⟩
  simp only [Region.stated, Prod.mk.injEq] at hstated
  obtain ⟨_, hpermission, hstart, hend⟩ := hstated
  simp [hpermission, hstart, hend, Discrepancy.differ_eq_false_iff]

/-- Passing means agreement: the tagged regions of the two lists can be paired off so
that each pair agrees within the tolerance. Without tolerance, and where the regions of
a target that the other program lists share no line, only agreement is needed: a
comparison passes exactly when both lists say the same things equally often. -/
theorem passes_iff_agreement :
    (∀ tolerance engine external, (compare tolerance engine external).verdict = .pass →
      ∃ pairs : List (Region × Region),
        pairs.map (·.1) = engine.filter (·.isTagged) ∧
        (pairs.map (·.2)).Perm (external.filter (·.isTagged)) ∧
        ∀ p ∈ pairs, p.1.AgreesWithin tolerance p.2) ∧
    ∀ engine external : List Region, (∀ r ∈ engine ++ external, r.startLine ≤ r.endLine) →
      ((external.filter (·.isTagged)).Pairwise fun r s => r.target = s.target →
        ∀ line, ¬ (r.contains line = true ∧ s.contains line = true)) →
      ((compare 0 engine external).verdict = .pass ↔
        ((engine.filter (·.isTagged)).map (·.stated)).Perm
          ((external.filter (·.isTagged)).map (·.stated))) := by
  refine ⟨fun _ _ _ => exists_pairs_of_pass, fun engine external hinhabited hdisjoint => ?_⟩
  have hlines {r : Region} (hr : r ∈ engine ∨ r ∈ external) : r.startLine ≤ r.endLine :=
    hinhabited r (List.mem_append.mpr hr)
  constructor
  · intro hpass
    obtain ⟨pairs, hours, htheirs, hagree⟩ := exists_pairs_of_pass hpass
    have hstated : (pairs.map (·.1)).map (·.stated) = (pairs.map (·.2)).map (·.stated) := by
      rw [List.map_map, List.map_map]
      exact List.map_congr_left fun p hp => (hagree p hp).stated_eq
    rw [← hours, hstated]
    exact htheirs.map _
  · refine pass_of_perm_stated (fun r hr => hlines (.inl (List.mem_filter.mp hr).1)) ?_
    refine List.Pairwise.imp_of_mem (fun {r s} hr hs hshare => ?_) hdisjoint
    have hr := hlines (.inr (List.mem_filter.mp hr).1)
    have hs := hlines (.inr (List.mem_filter.mp hs).1)
    rw [Bool.eq_false_iff, ne_eq, Pairing.fits_iff_exists_contains hr hs]
    rintro ⟨htarget, line, hboth⟩
    exact hshare htarget.symm line hboth

/-- Two grants for `ai` next to each other and one for `human` across both. -/
def neighbouringRegions : List Region :=
  [⟨0, 3, .ai, .read, some 0, false⟩, ⟨4, 6, .ai, .deny, some 4, false⟩,
    ⟨2, 5, .human, .write, some 2, false⟩]

/-- The same in another order, declared elsewhere, and with a default region. -/
def shuffledRegions : List Region :=
  [⟨2, 5, .human, .write, some 7, false⟩, ⟨7, 9, .ai, .read, none, false⟩,
    ⟨4, 6, .ai, .deny, some 0, false⟩, ⟨0, 3, .ai, .read, some 4, false⟩]

theorem passes_iff_agreement_shuffled :
    (compare 1 neighbouringRegions shuffledRegions).verdict = .pass ∧
    (∃ pairs : List (Region × Region),
      pairs.map (·.1) = neighbouringRegions.filter (·.isTagged) ∧
      (pairs.map (·.2)).Perm (shuffledRegions.filter (·.isTagged)) ∧
      ∀ p ∈ pairs, p.1.AgreesWithin 1 p.2) ∧
    (∀ r ∈ neighbouringRegions ++ shuffledRegions, r.startLine ≤ r.endLine) ∧
    ((shuffledRegions.filter (·.isTagged)).Pairwise fun r s => r.target = s.target →
      ∀ line, ¬ (r.contains line = true ∧ s.contains line = true)) ∧
    ((compare 0 neighbouringRegions shuffledRegions).verdict = .pass ↔
      ((neighbouringRegions.filter (·.isTagged)).map (·.stated)).Perm
        ((shuffledRegions.filter (·.isTagged)).map (·.stated))) := by
  have hpass : (compare 1 neighbouringRegions shuffledRegions).verdict = .pass := by decide
  have hinhabited : ∀ r ∈ neighbouringRegions ++ shuffledRegions, r.startLine ≤ r.endLine := by
    decide
  have hdisjoint : (shuffledRegions.filter (·.isTagged)).Pairwise fun r s =>
      r.target = s.target → ∀ line, ¬ (r.contains line = true ∧ s.contains line = true) := by
    simp only [shuffledRegions, Region.isTagged, Region.contains_iff]
    simp
    omega
  exact ⟨hpass, passes_iff_agreement.1 1 _ _ hpass, hinhabited, hdisjoint,
    passes_iff_agreement.2 _ _ hinhabited hdisjoint⟩

end Report

end LineGuard
