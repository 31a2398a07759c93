/-
# Comparing regions

A comparison pairs the tagged regions of the two programs and reports how pairs
disagree and what stayed unpaired. Default regions are not compared: they follow
from the tagged ones.
-/

import LineGuard.Comparison.Discrepancy
import LineGuard.Comparison.Pairing

namespace LineGuard

/-- What a comparison comes to. -/
inductive Verdict where
  /-- No discrepancies. -/
  | pass
  /-- Only warnings. -/
  | warn
  /-- At least one error. -/
  | fail
deriving DecidableEq, Repr

/-- The word for a verdict. -/
def Verdict.name : Verdict → Text
  | pass => "pass".toList
  | warn => "warn".toList
  | fail => "fail".toList

/-- The outcome of a comparison. -/
structure Report where
  /-- The number of our regions. -/
  engineRegions : Nat
  /-- The number of regions of the other program. -/
  externalRegions : Nat
  /-- The number of pairs. -/
  matched : Nat
  discrepancies : List Discrepancy
deriving DecidableEq, Repr

namespace Report

/-- The number of errors. -/
def errors (report : Report) : Nat := report.discrepancies.countP (·.severity == .error)

/-- The number of warnings. -/
def warnings (report : Report) : Nat := report.discrepancies.countP (·.severity == .warning)

/-- Whether there are errors. -/
def hasErrors (report : Report) : Bool := 0 < report.errors

/-- What the report comes to. -/
def verdict (report : Report) : Verdict :=
  if report.hasErrors then .fail else if 0 < report.warnings then .warn else .pass

/-- The discrepancies of one of our regions with the partner it was given. -/
def ofOurs (tolerance : Nat) : Region × Option Region → List Discrepancy
  | (ours, some theirs) => Discrepancy.ofPair tolerance ours theirs
  | (ours, none) => [.missingInExternal ours]

/-- The discrepancies of a pairing: those of our regions in order, then the
regions left over. -/
def discrepanciesOf (tolerance : Nat) (pairing : Pairing) : List Discrepancy :=
  pairing.ours.flatMap (ofOurs tolerance) ++ pairing.unpaired.map .missingInEngine

/-- Compares our regions with those of another program. -/
def compare (tolerance : Nat) (engine external : List Region) : Report :=
  let ours := engine.filter (·.isTagged)
  let theirs := external.filter (·.isTagged)
  let pairing := Pairing.make ours theirs
  { engineRegions := ours.length
    externalRegions := theirs.length
    matched := pairing.pairs.length
    discrepancies := discrepanciesOf tolerance pairing }

/-- A report passes exactly when there is nothing to report. -/
theorem verdict_eq_pass_iff {report : Report} :
    report.verdict = .pass ↔ report.discrepancies = [] := by
  constructor
  · intro h
    simp only [verdict, hasErrors, decide_eq_true_eq] at h
    split at h
    · simp at h
    · next herrors =>
      split at h
      · simp at h
      · next hwarnings =>
        simp only [Nat.not_lt, Nat.le_zero_eq, errors, warnings, List.countP_eq_zero,
          beq_iff_eq] at herrors hwarnings
        refine List.eq_nil_iff_forall_not_mem.mpr fun d hd => ?_
        cases hs : d.severity with
        | error => exact herrors d hd hs
        | warning => exact hwarnings d hd hs
  · intro h
    simp [verdict, hasErrors, errors, warnings, h]

end Report

end LineGuard
