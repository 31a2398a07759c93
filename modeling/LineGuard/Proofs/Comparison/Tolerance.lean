/-
# Tolerance

Who is paired with whom is settled before anybody asks how far lines may be apart. More
tolerance therefore changes nothing but what is said about the lines of pairs, and there each
pair says at most as much as before.

It does not simply say less. Where the first lines differ, the last lines are not compared,
so that a pair whose first lines come to be tolerated may now be reported for its last ones.
An error has then become a warning: what grows with the tolerance is at most the number of
warnings, and neither the errors nor the discrepancies in total.
-/

import Mathlib.Algebra.Order.BigOperators.Group.List
import Mathlib.Algebra.Order.Group.Nat
import LineGuard.Proofs.Comparison.Accounting

namespace LineGuard

/-- How bad a verdict is. -/
def Verdict.rank : Verdict → Nat
  | pass => 0
  | warn => 1
  | fail => 2

namespace Discrepancy

variable {tolerance lenient : Nat} {ours theirs : Region}

/-- A pair that is still reported for its lines was so before, for the same lines or for its
first ones. -/
theorem exists_ofBounds?_of_le (h : tolerance ≤ lenient) {d : Discrepancy}
    (hd : ofBounds? lenient ours theirs = some d) :
    ∃ before, ofBounds? tolerance ours theirs = some before ∧
      (d = before ∨ d = endMismatch ours theirs ∧ before = startMismatch ours theirs) := by
  rw [ofBounds?] at hd ⊢
  by_cases hstart : differ tolerance ours.startLine theirs.startLine = true
  · rw [if_pos hstart]
    refine ⟨_, rfl, ?_⟩
    split at hd
    · exact .inl (Option.some.inj hd).symm
    · split at hd
      · exact .inr ⟨(Option.some.inj hd).symm, rfl⟩
      · cases hd
  · have hlenient : ¬ differ lenient ours.startLine theirs.startLine = true :=
      fun hdiffer => hstart (differ_mono h hdiffer)
    rw [if_neg hlenient] at hd
    rw [if_neg hstart]
    split at hd
    · next hend => exact ⟨_, if_pos (differ_mono h hend), .inl (Option.some.inj hd).symm⟩
    · cases hd

/-- However discrepancies are counted, if last lines count only where first lines do, a pair
has no more of them with more tolerance. -/
theorem countP_ofPair_le (h : tolerance ≤ lenient) {counts : Discrepancy → Bool}
    (hcounts : counts (endMismatch ours theirs) = true →
      counts (startMismatch ours theirs) = true) :
    (ofPair lenient ours theirs).countP counts ≤ (ofPair tolerance ours theirs).countP counts := by
  rw [ofPair, ofPair, List.countP_append, List.countP_append]
  refine Nat.add_le_add_left ?_ _
  cases hlenient : ofBounds? lenient ours theirs with
  | none => exact Nat.zero_le _
  | some d =>
    obtain ⟨before, hbefore, hsame⟩ := exists_ofBounds?_of_le h hlenient
    rw [hbefore, Option.toList_some, Option.toList_some, List.countP_singleton,
      List.countP_singleton]
    rcases hsame with rfl | ⟨rfl, rfl⟩
    · exact Nat.le_refl _
    · by_cases hend : counts (endMismatch ours theirs) = true
      · rw [if_pos hend, if_pos (hcounts hend)]
      · rw [if_neg hend]
        exact Nat.zero_le _

/-- Lines apart, the tolerance makes no difference to a pair. -/
theorem filter_ofPair_eq :
    (ofPair tolerance ours theirs).filter (!·.isBoundaryMismatch) =
      if ours.permission = theirs.permission then [] else [permissionMismatch ours theirs] := by
  have hbounds : (ofBounds? tolerance ours theirs).toList.filter (!·.isBoundaryMismatch) = [] := by
    refine List.filter_eq_nil_iff.mpr fun d hd => ?_
    rcases mem_ofBounds? (Option.mem_toList.mp hd) with rfl | rfl <;> exact Bool.false_ne_true
  rw [ofPair, List.filter_append, hbounds, List.append_nil]
  split <;> rfl

end Discrepancy

namespace Report

variable {tolerance lenient : Nat} {engine external : List Region}

theorem countP_discrepancies_le (h : tolerance ≤ lenient) {counts : Discrepancy → Bool}
    (hcounts : ∀ ours theirs, counts (.endMismatch ours theirs) = true →
      counts (.startMismatch ours theirs) = true) :
    (compare lenient engine external).discrepancies.countP counts ≤
      (compare tolerance engine external).discrepancies.countP counts := by
  rw [discrepancies_compare, discrepancies_compare, List.countP_append, List.countP_append,
    List.countP_flatMap, List.countP_flatMap]
  refine Nat.add_le_add_right (List.sum_le_sum fun q _ => ?_) _
  obtain ⟨region, partner⟩ := q
  cases partner with
  | none => exact Nat.le_refl _
  | some theirs => exact Discrepancy.countP_ofPair_le h (hcounts region theirs)

theorem errors_compare_le (h : tolerance ≤ lenient) :
    (compare lenient engine external).errors ≤ (compare tolerance engine external).errors :=
  countP_discrepancies_le h fun _ _ hend => nomatch hend

theorem length_discrepancies_le (h : tolerance ≤ lenient) :
    (compare lenient engine external).discrepancies.length ≤
      (compare tolerance engine external).discrepancies.length := by
  rw [← List.countP_true]
  exact countP_discrepancies_le h fun _ _ _ => rfl

theorem filter_discrepancies_eq :
    (compare lenient engine external).discrepancies.filter (!·.isBoundaryMismatch) =
      (compare tolerance engine external).discrepancies.filter (!·.isBoundaryMismatch) := by
  have hours (q : Region × Option Region) :
      (ofOurs lenient q).filter (!·.isBoundaryMismatch) =
        (ofOurs tolerance q).filter (!·.isBoundaryMismatch) := by
    obtain ⟨region, partner⟩ := q
    cases partner with
    | none => rfl
    | some theirs => exact Discrepancy.filter_ofPair_eq.trans Discrepancy.filter_ofPair_eq.symm
  rw [discrepancies_compare, discrepancies_compare, List.filter_append, List.filter_append,
    List.filter_flatMap, List.filter_flatMap, funext hours]

/-- A verdict goes by the number of errors and by whether there is anything to report. -/
theorem rank_verdict (report : Report) : report.verdict.rank =
    if 0 < report.errors then 2 else if 0 < report.discrepancies.length then 1 else 0 := by
  have hall := report.errors_add_warnings
  simp only [verdict, hasErrors, decide_eq_true_eq]
  split
  · rfl
  · next herrors =>
    have hwarnings : 0 < report.warnings ↔ 0 < report.discrepancies.length := by omega
    rw [if_congr hwarnings rfl rfl]
    split <;> rfl

theorem rank_verdict_mono {better worse : Report} (herrors : better.errors ≤ worse.errors)
    (hlength : better.discrepancies.length ≤ worse.discrepancies.length) :
    better.verdict.rank ≤ worse.verdict.rank := by
  rw [rank_verdict, rank_verdict]
  split_ifs <;> omega

/-- With more tolerance the same regions are paired, the same are missing and the same pairs
disagree about their permission. There are no more errors and no more discrepancies in total,
and the verdict is no worse. -/
theorem compare_of_tolerance_le (h : tolerance ≤ lenient) (engine external : List Region) :
    let before := compare tolerance engine external
    let after := compare lenient engine external
    (∃ pairs,
      before.AccountsFor tolerance (engine.filter (·.isTagged)) (external.filter (·.isTagged))
        pairs ∧
      after.AccountsFor lenient (engine.filter (·.isTagged)) (external.filter (·.isTagged))
        pairs) ∧
    after.matched = before.matched ∧
    after.discrepancies.filter (!·.isBoundaryMismatch) =
      before.discrepancies.filter (!·.isBoundaryMismatch) ∧
    after.errors ≤ before.errors ∧
    after.discrepancies.length ≤ before.discrepancies.length ∧
    after.verdict.rank ≤ before.verdict.rank := by
  have herrors : (compare lenient engine external).errors ≤
      (compare tolerance engine external).errors := errors_compare_le h
  have hlength : (compare lenient engine external).discrepancies.length ≤
      (compare tolerance engine external).discrepancies.length := length_discrepancies_le h
  exact ⟨⟨_, accountsFor_compare _ _ _, accountsFor_compare _ _ _⟩, rfl,
    filter_discrepancies_eq, herrors, hlength, rank_verdict_mono herrors hlength⟩

/-- A grant that two programs end at different lines, besides one that only we know. -/
def longerRegions : List Region :=
  [⟨1, 5, .ai, .read, some 1, false⟩, ⟨8, 9, .human, .deny, some 8, false⟩]

/-- The same grant, a line further down and longer. -/
def laterRegions : List Region := [⟨2, 9, .ai, .read, some 2, false⟩]

theorem compare_of_tolerance_le_shadowed :
    let before := compare 0 longerRegions laterRegions
    let after := compare 1 longerRegions laterRegions
    0 ≤ 1 ∧ before.errors = 2 ∧ before.warnings = 0 ∧ after.errors = 1 ∧ after.warnings = 1 ∧
    (∃ pairs,
      before.AccountsFor 0 (longerRegions.filter (·.isTagged)) (laterRegions.filter (·.isTagged))
        pairs ∧
      after.AccountsFor 1 (longerRegions.filter (·.isTagged)) (laterRegions.filter (·.isTagged))
        pairs) ∧
    after.matched = before.matched ∧
    after.discrepancies.filter (!·.isBoundaryMismatch) =
      before.discrepancies.filter (!·.isBoundaryMismatch) ∧
    after.errors ≤ before.errors ∧
    after.discrepancies.length ≤ before.discrepancies.length ∧
    after.verdict.rank ≤ before.verdict.rank := by
  intro before after
  have hle : 0 ≤ 1 := by decide
  exact ⟨hle, by decide, by decide, by decide, by decide,
    compare_of_tolerance_le hle longerRegions laterRegions⟩

end Report

end LineGuard
