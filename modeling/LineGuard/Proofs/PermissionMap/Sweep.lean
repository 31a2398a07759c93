/-
# The sweep over sorted regions

A permission map is computed by walking lines and regions together. When the
regions are listed by start line, the walk can be forgotten: on every line the
active regions of a target are those that hold the line, in the order of the list.
The entry of a line is what the governing one of them grants, and a line is mixed
when several of them are tagged.
-/

import LineGuard.PermissionMap
import LineGuard.Proofs.Pending
import Mathlib.Data.List.Chain

namespace LineGuard.PermissionMap

variable {regions : List Region} {target : Target} {line count : Nat}

/-- The regions of a target that hold a line, with their places in a list. -/
def holders (regions : List Region) (target : Target) (line : Nat) : List PlacedRegion :=
  regions.zipIdx.filter fun p => p.1.target == target && p.1.contains line

theorem map_fst_holders : (holders regions target line).map (·.1) =
    regions.filter fun r => r.target == target && r.contains line := by
  conv_rhs => rw [← List.zipIdx_map_fst 0 regions, List.filter_map]
  rfl

/-- What regions in a list have to do with those behind them does not change when
they are numbered. -/
theorem pairwise_zipIdx {R : Region → Region → Prop} (h : regions.Pairwise R) :
    regions.zipIdx.Pairwise fun p q => R p.1 q.1 := by
  rw [← List.zipIdx_map_fst 0 regions, List.pairwise_map] at h
  exact h

/-- The active regions on each line are those active before that have not ended,
and those still to come that hold the line. -/
theorem activeFrom_eq {active pending : List PlacedRegion}
    (hsorted : pending.Pairwise (·.1.startLine ≤ ·.1.startLine)) :
    activeFrom active pending line count = (List.range' line count).map fun later =>
      active.filter (later ≤ ·.1.endLine) ++ pending.filter (·.1.contains later) := by
  induction count generalizing active pending line with
  | zero => rfl
  | succ count ih =>
    obtain ⟨started, remaining, rfl, htake, hstarted, hremaining⟩ :=
      exists_started_remaining (fun p : PlacedRegion => p.1.startLine) hsorted line
    -- From this line on, what has started holds a line exactly until it ends.
    have hholds (later : Nat) (hlater : line ≤ later) :
        started.filter (·.1.contains later) = started.filter (later ≤ ·.1.endLine) := by
      refine List.filter_congr fun p hp => ?_
      have := hstarted p hp
      rw [Region.contains, decide_eq_true (show p.1.startLine ≤ later by omega), Bool.true_and]
    have hwaits : remaining.filter (·.1.contains line) = [] := by
      refine List.filter_eq_nil_iff.mpr fun p hp hcontains => ?_
      have := hremaining p hp
      have := (Region.contains_iff.mp hcontains).1
      omega
    rw [activeFrom, htake, List.drop_left,
      ih (hsorted.sublist (List.sublist_append_right started remaining)), List.range'_succ,
      List.map_cons, List.filter_append, List.filter_append, hwaits, hholds line (Nat.le_refl _),
      List.append_nil]
    refine congrArg _ (List.map_congr_left fun later hlater => ?_)
    have hlater : line + 1 ≤ later := (List.mem_range'_1.mp hlater).1
    have hends (xs : List PlacedRegion) :
        (xs.filter (line ≤ ·.1.endLine)).filter (later ≤ ·.1.endLine) =
          xs.filter (later ≤ ·.1.endLine) := by
      rw [List.filter_filter]
      refine List.filter_congr fun p _ => ?_
      by_cases hend : later ≤ p.1.endLine
      · simp [hend, show line ≤ p.1.endLine by omega]
      · simp [hend]
    rw [List.filter_append, hends, hends, List.filter_append, hholds later (by omega),
      List.append_assoc]

theorem active_eq (hsorted : regions.Pairwise (·.startLine ≤ ·.startLine)) :
    active regions target count = (List.range count).map (holders regions target) := by
  have hplaced : (regions.zipIdx.filter (·.1.target == target)).Pairwise
      (·.1.startLine ≤ ·.1.startLine) := (pairwise_zipIdx hsorted).filter _
  rw [active, activeFrom_eq hplaced, List.range_eq_range']
  refine List.map_congr_left fun line _ => ?_
  rw [List.filter_nil, List.nil_append, List.filter_filter, holders]
  exact List.filter_congr fun p _ => Bool.and_comm _ _

/-! ## The map of sorted regions -/

theorem disorder?_eq_none_iff {index : Nat} :
    disorder? index regions = none ↔ regions.Pairwise (·.startLine ≤ ·.startLine) := by
  let follows (r s : Region) : Prop := r.startLine ≤ s.startLine
  have : Trans follows follows follows := ⟨Nat.le_trans⟩
  rw [show regions.Pairwise (·.startLine ≤ ·.startLine) ↔ regions.IsChain follows from
    List.isChain_iff_pairwise.symm]
  induction regions generalizing index with
  | nil => simp [disorder?]
  | cons r rest ih =>
    cases rest with
    | nil => simp [disorder?]
    | cons s rest =>
      rw [disorder?, List.isChain_cons_cons]
      split
      · next hlt => simp [follows, Nat.not_le_of_lt hlt]
      · next hge => simp [follows, ih, Nat.le_of_not_lt hge]

/-- The entry of a line, from the regions that hold it. -/
def grantsAt (regions : List Region) (defaults : Defaults) (line : Nat) : LineGrants where
  line
  ai := grant defaults.ai (holders regions .ai line)
  human := grant defaults.human (holders regions .human line)

theorem get_grantsAt {defaults : Defaults} : (grantsAt regions defaults line).get target =
    grant (defaults.get target) (holders regions target line) := by
  cases target <;> rfl

/-- Regions listed by start line make a map, line by line. -/
theorem ofRegions_eq (count : Nat) (defaults : Defaults)
    (hsorted : regions.Pairwise (·.startLine ≤ ·.startLine)) :
    ofRegions count regions defaults = .ok {
      lines := (List.range count).map (grantsAt regions defaults)
      mixed := (List.range count).flatMap fun line =>
        (mixture? line .ai (holders regions .ai line)).toList ++
          (mixture? line .human (holders regions .human line)).toList } := by
  have hzip : (((List.range count).map (holders regions .ai)).zip
      ((List.range count).map (holders regions .human))).zipIdx =
        (List.range count).map fun line =>
          ((holders regions .ai line, holders regions .human line), line) := by
    refine List.ext_getElem (by simp) fun line _ _ => by simp
  rw [ofRegions, disorder?_eq_none_iff.mpr hsorted]
  simp only [ofSorted, active_eq hsorted, hzip, List.map_map, List.flatMap_map]
  rfl

end LineGuard.PermissionMap
