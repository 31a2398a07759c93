/-
# What a report accounts for

A comparison takes our regions one after the other, and nothing that it does for one of them
is undone for another. So each region of either program ends up in one pair or is reported
missing once, and the two ways of counting, by pairs and by what is missing, add up to the
regions there were.

Nor can another pair be made of what is missing. When a region of ours finds no partner, no
free region fits it, and from then on regions only cease to be free. Nothing is asked of the
regions for this: they may repeat each other, overlap, or hold no line.
-/

import Mathlib.Data.List.Perm.Basic
import LineGuard.Proofs.Comparison.Verdict

namespace LineGuard

/-! ## Kinds of discrepancies -/

namespace Discrepancy

/-- The region of ours that the other program is said to lack. -/
def lacking? : Discrepancy → Option Region
  | missingInExternal ours => some ours
  | _ => none

/-- The region of the other program that we are said to lack. -/
def surplus? : Discrepancy → Option Region
  | missingInEngine theirs => some theirs
  | _ => none

/-- Whether a pair is said to disagree about its permission. -/
def isPermissionMismatch : Discrepancy → Bool
  | permissionMismatch .. => true
  | _ => false

/-- Whether a pair is said to disagree about its lines. -/
def isBoundaryMismatch : Discrepancy → Bool
  | startMismatch .. | endMismatch .. => true
  | _ => false

/-- Whether the discrepancy is one of a pair. -/
def isOfPair (d : Discrepancy) : Bool := d.isPermissionMismatch || d.isBoundaryMismatch

variable {tolerance : Nat} {ours theirs : Region} {d : Discrepancy}

theorem mem_ofBounds? (h : d ∈ ofBounds? tolerance ours theirs) :
    d = startMismatch ours theirs ∨ d = endMismatch ours theirs := by
  rw [Option.mem_def, ofBounds?] at h
  split at h
  · exact .inl (Option.some.inj h).symm
  · split at h
    · exact .inr (Option.some.inj h).symm
    · cases h

theorem mem_ofPair (h : d ∈ ofPair tolerance ours theirs) :
    d = permissionMismatch ours theirs ∨ d = startMismatch ours theirs ∨
      d = endMismatch ours theirs := by
  rcases List.mem_append.mp h with hpermission | hbounds
  · split at hpermission
    · cases hpermission
    · exact .inl (List.mem_singleton.mp hpermission)
  · exact .inr (mem_ofBounds? (Option.mem_toList.mp hbounds))

theorem isOfPair_of_mem_ofPair (h : d ∈ ofPair tolerance ours theirs) : d.isOfPair = true := by
  rcases mem_ofPair h with rfl | rfl | rfl <;> rfl

theorem lacking?_eq_none_of_isOfPair (h : d.isOfPair = true) : d.lacking? = none := by
  cases d <;> first | rfl | cases h

theorem surplus?_eq_none_of_isOfPair (h : d.isOfPair = true) : d.surplus? = none := by
  cases d <;> first | rfl | cases h

/-- A pair disagrees about its permission at most once. -/
theorem countP_isPermissionMismatch_ofPair_le :
    (ofPair tolerance ours theirs).countP isPermissionMismatch ≤ 1 := by
  have hbounds : (ofBounds? tolerance ours theirs).toList.countP isPermissionMismatch = 0 := by
    refine List.countP_eq_zero.mpr fun d hd => ?_
    rcases mem_ofBounds? (Option.mem_toList.mp hd) with rfl | rfl <;> exact Bool.false_ne_true
  rw [ofPair, List.countP_append, hbounds, Nat.add_zero]
  refine Nat.le_trans List.countP_le_length ?_
  split <;> simp

/-- A pair disagrees about its lines at most once. -/
theorem countP_isBoundaryMismatch_ofPair_le :
    (ofPair tolerance ours theirs).countP isBoundaryMismatch ≤ 1 := by
  have hpermission : (if ours.permission = theirs.permission then []
      else [permissionMismatch ours theirs]).countP isBoundaryMismatch = 0 := by
    split <;> rfl
  rw [ofPair, List.countP_append, hpermission, Nat.zero_add]
  exact Nat.le_trans List.countP_le_length Option.length_toList_le

end Discrepancy

/-! ## Who is paired -/

namespace Pairing

variable {region theirs : Region} {ours free : List Region}

/-- Our regions that were given no partner. -/
def lacking (p : Pairing) : List Region :=
  p.ours.filterMap fun (ours, theirs) => if theirs.isNone then some ours else none

theorem mem_lacking {p : Pairing} : region ∈ p.lacking ↔ (region, none) ∈ p.ours := by
  simp only [lacking, List.mem_filterMap, Option.ite_none_right_eq_some, Option.isNone_iff_eq_none,
    Option.some.injEq, Prod.exists]
  constructor
  · rintro ⟨_, _, hmem, rfl, rfl⟩
    exact hmem
  · exact fun h => ⟨region, none, h, rfl, rfl⟩

/-- Every region of ours is in a pair or was given no partner. -/
theorem perm_ours (p : Pairing) : (p.pairs.map (·.1) ++ p.lacking).Perm (p.ours.map (·.1)) := by
  obtain ⟨ours, unpaired⟩ := p
  rw [pairs, lacking]
  induction ours with
  | nil => exact .refl _
  | cons q rest ih =>
    obtain ⟨region, partner⟩ := q
    cases partner with
    | none => exact List.perm_middle.trans (ih.cons region)
    | some theirs => exact ih.cons region

/-- Whoever is left without a partner fits nobody who is left over. -/
theorem fits_eq_false_of_mem (hregion : region ∈ (make ours free).lacking)
    (htheirs : theirs ∈ (make ours free).unpaired) : fits region theirs = false := by
  rw [mem_lacking] at hregion
  induction ours generalizing free with
  | nil => cases hregion
  | cons first rest ih =>
    rcases make_cons first rest free with ⟨partner, left, _, heq⟩ | ⟨hnone, heq⟩
    · rw [heq] at hregion htheirs
      rcases List.mem_cons.mp hregion with hfirst | hrest
      · cases hfirst
      · exact ih hrest htheirs
    · rw [heq] at hregion htheirs
      rcases List.mem_cons.mp hregion with hfirst | hrest
      · obtain ⟨rfl, -⟩ := Prod.mk.inj hfirst
        -- Whoever is left over in the end was free when the region looked for a partner.
        have hfree : theirs ∈ free :=
          (perm_make rest free).mem_iff.mp (List.mem_append_right _ htheirs)
        exact partner?_eq_none_iff.mp hnone theirs hfree
      · exact ih hrest htheirs

end Pairing

/-! ## What the report says -/

namespace Report

variable {tolerance : Nat} {engine external : List Region}

/-- Our regions that the other program is said to lack. -/
def lacking (report : Report) : List Region := report.discrepancies.filterMap (·.lacking?)

/-- The regions of the other program that we are said to lack. -/
def surplus (report : Report) : List Region := report.discrepancies.filterMap (·.surplus?)

/-- A report on two lists of regions says what becomes of each region when some of them are
paired, and of the pairs it says how they disagree. -/
structure AccountsFor (report : Report) (tolerance : Nat) (ours theirs : List Region)
    (pairs : List (Region × Region)) : Prop where
  engineRegions_eq : report.engineRegions = ours.length
  externalRegions_eq : report.externalRegions = theirs.length
  matched_eq : report.matched = pairs.length
  /-- Every region of ours is in one pair or missing once. -/
  perm_ours : (pairs.map (·.1) ++ report.lacking).Perm ours
  /-- Every region of the other program is in one pair or missing once. -/
  perm_theirs : (pairs.map (·.2) ++ report.surplus).Perm theirs
  /-- The regions of a pair speak of one target and overlap. -/
  fits : ∀ p ∈ pairs, p.2.target = p.1.target ∧ p.2.overlaps p.1 = true
  /-- No two regions that are missing could have been a pair. -/
  maximal : ∀ r ∈ report.lacking, ∀ s ∈ report.surplus, s.target = r.target →
    s.overlaps r = false
  /-- What is not missing is how pairs disagree. -/
  disagreements : report.discrepancies.filter (·.isOfPair) =
    pairs.flatMap fun p => Discrepancy.ofPair tolerance p.1 p.2

theorem AccountsFor.matched_add_lacking {report : Report} {ours theirs : List Region}
    {pairs : List (Region × Region)} (h : report.AccountsFor tolerance ours theirs pairs) :
    report.matched + report.lacking.length = report.engineRegions := by
  rw [h.engineRegions_eq, ← h.perm_ours.length_eq, List.length_append, List.length_map,
    h.matched_eq]

theorem AccountsFor.matched_add_surplus {report : Report} {ours theirs : List Region}
    {pairs : List (Region × Region)} (h : report.AccountsFor tolerance ours theirs pairs) :
    report.matched + report.surplus.length = report.externalRegions := by
  rw [h.externalRegions_eq, ← h.perm_theirs.length_eq, List.length_append, List.length_map,
    h.matched_eq]

/-- Every discrepancy is an error or a warning. -/
theorem errors_add_warnings (report : Report) :
    report.errors + report.warnings = report.discrepancies.length := by
  rw [List.length_eq_countP_add_countP (fun d : Discrepancy => d.severity == .error), errors,
    warnings]
  congr 2
  funext d
  cases d.severity <;> rfl

theorem discrepancies_compare : (compare tolerance engine external).discrepancies =
    (pairingOf engine external).ours.flatMap (ofOurs tolerance) ++
      (pairingOf engine external).unpaired.map .missingInEngine := rfl

theorem lacking_compare (tolerance : Nat) (engine external : List Region) :
    (compare tolerance engine external).lacking = (pairingOf engine external).lacking := by
  have hours (q : Region × Option Region) : (ofOurs tolerance q).filterMap (·.lacking?) =
      (if q.2.isNone then some q.1 else none).toList := by
    obtain ⟨region, partner⟩ := q
    cases partner with
    | none => rfl
    | some theirs =>
      exact List.filterMap_eq_nil_iff.mpr fun d hd =>
        Discrepancy.lacking?_eq_none_of_isOfPair (Discrepancy.isOfPair_of_mem_ofPair hd)
  have hunpaired : ((pairingOf engine external).unpaired.map Discrepancy.missingInEngine).filterMap
      (·.lacking?) = [] := by
    simp [Discrepancy.lacking?]
  rw [lacking, discrepancies_compare, List.filterMap_append, hunpaired, List.append_nil,
    List.filterMap_flatMap, Pairing.lacking, List.filterMap_eq_flatMap_toList]
  exact congrArg (List.flatMap · _) (funext hours)

theorem surplus_compare (tolerance : Nat) (engine external : List Region) :
    (compare tolerance engine external).surplus = (pairingOf engine external).unpaired := by
  have hours : ((pairingOf engine external).ours.flatMap (ofOurs tolerance)).filterMap
      (·.surplus?) = [] := by
    rw [List.filterMap_flatMap]
    refine List.flatMap_eq_nil_iff.mpr fun q _ => ?_
    obtain ⟨region, partner⟩ := q
    cases partner with
    | none => rfl
    | some theirs =>
      exact List.filterMap_eq_nil_iff.mpr fun d hd =>
        Discrepancy.surplus?_eq_none_of_isOfPair (Discrepancy.isOfPair_of_mem_ofPair hd)
  rw [surplus, discrepancies_compare, List.filterMap_append, hours, List.nil_append,
    List.filterMap_map]
  exact List.filterMap_some

theorem filter_isOfPair_compare :
    (compare tolerance engine external).discrepancies.filter (·.isOfPair) =
      (pairingOf engine external).pairs.flatMap fun p => Discrepancy.ofPair tolerance p.1 p.2 := by
  have hours (q : Region × Option Region) : (ofOurs tolerance q).filter (·.isOfPair) =
      (q.2.map (q.1, ·)).toList.flatMap fun p => Discrepancy.ofPair tolerance p.1 p.2 := by
    obtain ⟨region, partner⟩ := q
    cases partner with
    | none => rfl
    | some theirs =>
      have hall : ∀ d ∈ Discrepancy.ofPair tolerance region theirs, d.isOfPair = true :=
        fun d hd => Discrepancy.isOfPair_of_mem_ofPair hd
      rw [ofOurs, List.filter_eq_self.mpr hall]
      exact (List.flatMap_singleton _ _).symm
  have hunpaired : ((pairingOf engine external).unpaired.map Discrepancy.missingInEngine).filter
      (·.isOfPair) = [] := by
    simp [Discrepancy.isOfPair, Discrepancy.isPermissionMismatch, Discrepancy.isBoundaryMismatch]
  rw [discrepancies_compare, List.filter_append, hunpaired, List.append_nil, List.filter_flatMap,
    Pairing.pairs, List.filterMap_eq_flatMap_toList, List.flatMap_assoc]
  exact congrArg (List.flatMap · _) (funext hours)

theorem accountsFor_compare (tolerance : Nat) (engine external : List Region) :
    (compare tolerance engine external).AccountsFor tolerance (engine.filter (·.isTagged))
    (external.filter (·.isTagged)) (pairingOf engine external).pairs where
  engineRegions_eq := rfl
  externalRegions_eq := rfl
  matched_eq := rfl
  perm_ours := by
    have hperm := (pairingOf engine external).perm_ours
    rwa [← lacking_compare tolerance, pairingOf, Pairing.map_fst_ours_make] at hperm
  perm_theirs := by
    rw [surplus_compare]
    exact Pairing.perm_make _ _
  fits := by
    rintro ⟨region, theirs⟩ hp
    have hfits := Pairing.fits_of_mem_ours_make (Pairing.mem_pairs.mp hp)
    exact ⟨(Pairing.fits_iff.mp hfits).1, (Bool.and_eq_true_iff.mp hfits).2⟩
  maximal := by
    rw [lacking_compare, surplus_compare]
    intro r hr s hs htarget
    have hfits := Pairing.fits_eq_false_of_mem hr hs
    rwa [Pairing.fits, htarget, BEq.rfl, Bool.true_and] at hfits
  disagreements := filter_isOfPair_compare

/-- Comparing loses no region and counts none twice: each tagged region of either list is in
one pair or reported missing once, and no further pair could be made of what is missing. A
pair is reported at most once for its permission and at most once for its lines. -/
theorem exists_accountsFor_compare (tolerance : Nat) (engine external : List Region) :
    let report := compare tolerance engine external
    ∃ pairs, report.AccountsFor tolerance (engine.filter (·.isTagged))
        (external.filter (·.isTagged)) pairs ∧
      report.matched + report.lacking.length = report.engineRegions ∧
      report.matched + report.surplus.length = report.externalRegions ∧
      report.errors + report.warnings = report.discrepancies.length ∧
      ∀ p ∈ pairs,
        (Discrepancy.ofPair tolerance p.1 p.2).countP (·.isPermissionMismatch) ≤ 1 ∧
        (Discrepancy.ofPair tolerance p.1 p.2).countP (·.isBoundaryMismatch) ≤ 1 := by
  have haccounts := accountsFor_compare tolerance engine external
  refine ⟨_, haccounts, haccounts.matched_add_lacking, haccounts.matched_add_surplus,
    errors_add_warnings _, fun p _ => ⟨?_, ?_⟩⟩
  · exact Discrepancy.countP_isPermissionMismatch_ofPair_le
  · exact Discrepancy.countP_isBoundaryMismatch_ofPair_le

end Report

end LineGuard
