/-
# Runs of lines that are governed alike

`Region.ofRules` joins neighbouring lines that are governed alike. What it makes
is a tiling: the regions follow each other without a gap, each holds at least one
line, and together they hold the lines of the rules and no other. Every region
says for each of its lines what the rule for that line says, and two regions that
touch say different things, so no run could have been longer.

A tiling is described without the rules it comes from. Later modules reason about
the lines of a document through it and do not open the recursion again.
-/

import LineGuard.Region.Build
import Mathlib.Data.List.Chain
import Mathlib.Data.List.Count

namespace LineGuard

namespace Rule

/-- The rule a region states for its lines. -/
def ofRegion (r : Region) : Rule := ⟨r.permission, r.sourceLine, r.isContext⟩

@[simp]
theorem governs_iff {rule : Rule} {r : Region} : rule.governs r = true ↔ ofRegion r = rule := by
  cases rule
  simp [governs, ofRegion, and_assoc]

@[simp]
theorem ofRegion_region (rule : Rule) (target : Target) (line : Nat) :
    ofRegion (rule.region target line) = rule := rfl

end Rule

namespace Region

/-- Regions that start on one line, follow each other without a gap, and stop in
front of another line. None of them is empty. -/
def Tiles : (first stop : Nat) → List Region → Prop
  | first, stop, [] => first = stop
  | first, stop, r :: rest =>
    r.startLine = first ∧ r.startLine ≤ r.endLine ∧ Tiles (r.endLine + 1) stop rest

variable {first stop : Nat} {regions : List Region}

theorem Tiles.first_le_stop (h : Tiles first stop regions) : first ≤ stop := by
  induction regions generalizing first with
  | nil => exact Nat.le_of_eq h
  | cons r rest ih =>
    obtain ⟨hstart, hle, hrest⟩ := h
    have := ih hrest
    omega

/-- The regions of a tiling stay within its lines. -/
theorem Tiles.bounds_of_mem (h : Tiles first stop regions) {r : Region} (hr : r ∈ regions) :
    first ≤ r.startLine ∧ r.startLine ≤ r.endLine ∧ r.endLine < stop := by
  induction regions generalizing first with
  | nil => cases hr
  | cons s rest ih =>
    obtain ⟨hstart, hle, hrest⟩ := h
    have hstop := hrest.first_le_stop
    rcases List.mem_cons.mp hr with rfl | hr
    · omega
    · have := ih hrest hr
      omega

/-- A tiling has no more regions than lines. -/
theorem Tiles.add_length_le (h : Tiles first stop regions) : first + regions.length ≤ stop := by
  induction regions generalizing first with
  | nil => exact Nat.le_of_eq h
  | cons r rest ih =>
    obtain ⟨hstart, hle, hrest⟩ := h
    have := ih hrest
    rw [List.length_cons]
    omega

/-- The regions of a tiling are listed by their start, and no two start together. -/
theorem Tiles.pairwise_startLine (h : Tiles first stop regions) :
    regions.Pairwise (·.startLine < ·.startLine) := by
  induction regions generalizing first with
  | nil => exact List.Pairwise.nil
  | cons r rest ih =>
    obtain ⟨_, hle, hrest⟩ := h
    refine List.pairwise_cons.mpr ⟨fun s hs => ?_, ih hrest⟩
    have := hrest.bounds_of_mem hs
    omega

/-- Every line of a tiling lies in exactly one of its regions, and no other line
lies in any. -/
theorem Tiles.countP_contains (h : Tiles first stop regions) (line : Nat) :
    regions.countP (·.contains line) = if first ≤ line ∧ line < stop then 1 else 0 := by
  induction regions generalizing first with
  | nil =>
    have : ¬ (first ≤ line ∧ line < stop) := by
      have : first = stop := h
      omega
    simp [this]
  | cons r rest ih =>
    obtain ⟨hstart, hle, hrest⟩ := h
    have hstop := hrest.first_le_stop
    rw [List.countP_cons, ih hrest]
    simp only [contains_iff]
    -- The line lies in front of the first region, in it, or behind it.
    split <;> split <;> split <;> omega

/-- The one region of a tiling that holds a line. -/
theorem Tiles.exists_filter_contains (h : Tiles first stop regions) {line : Nat}
    (hfirst : first ≤ line) (hstop : line < stop) :
    ∃ r, regions.filter (·.contains line) = [r] := by
  have hcount := h.countP_contains line
  rw [if_pos ⟨hfirst, hstop⟩, List.countP_eq_length_filter] at hcount
  exact List.length_eq_one_iff.mp hcount

/-- What holds of regions next to each other in a tiling holds of regions that
touch. -/
theorem Tiles.rel_of_touching {R : Region → Region → Prop} (h : Tiles first stop regions)
    (hchain : regions.IsChain R) {r s : Region} (hr : r ∈ regions) (hs : s ∈ regions)
    (htouch : r.endLine + 1 = s.startLine) : R r s := by
  induction regions generalizing first with
  | nil => cases hr
  | cons q rest ih =>
    obtain ⟨hstart, hle, hrest⟩ := h
    obtain ⟨hnext, htail⟩ := List.isChain_cons.mp hchain
    rcases List.mem_cons.mp hr with rfl | hrmem
    · rcases List.mem_cons.mp hs with rfl | hs
      · omega
      · -- Of the regions behind `r`, only the first starts right behind it.
        cases rest with
        | nil => cases hs
        | cons t more =>
          obtain ⟨_, htle, hmore⟩ := hrest
          rcases List.mem_cons.mp hs with rfl | hs
          · exact hnext s rfl
          · have := hmore.bounds_of_mem hs
            omega
    · rcases List.mem_cons.mp hs with rfl | hs
      · have := hrest.bounds_of_mem hrmem
        omega
      · exact ih hrest htail hrmem hs

/-! ## The tiling made of rules -/

/-- What one more rule in front does: it starts a region of its own, or it makes
the region in front of which it stands start a line earlier. -/
theorem ofRules_cons (target : Target) (line : Nat) (rule : Rule) (rest : List Rule) :
    (ofRules target line (rule :: rest) =
        rule.region target line :: ofRules target (line + 1) rest ∧
      ∀ next ∈ (ofRules target (line + 1) rest).head?, Rule.ofRegion next ≠ rule) ∨
    ∃ next more, ofRules target (line + 1) rest = next :: more ∧ Rule.ofRegion next = rule ∧
      ofRules target line (rule :: rest) = { next with startLine := line } :: more := by
  rw [ofRules]
  cases hrest : ofRules target (line + 1) rest with
  | nil => simp
  | cons next more =>
    by_cases hgoverns : rule.governs next = true
    · right
      exact ⟨next, more, rfl, Rule.governs_iff.mp hgoverns, by simp [hgoverns]⟩
    · left
      refine ⟨by simp [hgoverns], fun _ hnext heq => hgoverns ?_⟩
      obtain rfl := Option.some.inj hnext
      exact Rule.governs_iff.mpr heq

theorem tiles_ofRules (target : Target) (first : Nat) (rules : List Rule) :
    Tiles first (first + rules.length) (ofRules target first rules) := by
  induction rules generalizing first with
  | nil => rfl
  | cons rule rest ih =>
    have hrest := ih (first + 1)
    rw [List.length_cons, show first + (rest.length + 1) = first + 1 + rest.length by omega]
    rcases ofRules_cons target first rule rest with ⟨heq, _⟩ | ⟨next, more, hnext, _, heq⟩
    · rw [heq]
      exact ⟨rfl, Nat.le_refl _, hrest⟩
    · rw [hnext] at hrest
      obtain ⟨hstart, hle, hmore⟩ := hrest
      rw [heq]
      exact ⟨rfl, show first ≤ next.endLine by omega, hmore⟩

/-- A region speaks of the target it is made for, and states for each of its
lines the rule of that line. -/
theorem rule_of_mem_ofRules {target : Target} {rules : List Rule} {r : Region}
    (hr : r ∈ ofRules target first rules) :
    r.target = target ∧ ∀ line, r.contains line = true →
      rules[line - first]? = some (Rule.ofRegion r) := by
  induction rules generalizing first r with
  | nil => cases hr
  | cons rule rest ih =>
    -- The regions behind the first line look their rules up behind the first rule.
    have later {s : Region} (hs : s ∈ ofRules target (first + 1) rest) {line : Nat}
        (hline : s.contains line = true) :
        (rule :: rest)[line - first]? = some (Rule.ofRegion s) := by
      have hrule := (ih hs).2 line hline
      have hstart := ((tiles_ofRules target (first + 1) rest).bounds_of_mem hs).1
      have hbetween := contains_iff.mp hline
      rwa [show line - first = line - (first + 1) + 1 by omega, List.getElem?_cons_succ]
    rcases ofRules_cons target first rule rest with ⟨heq, _⟩ | ⟨next, more, hnext, hrule, heq⟩
    · rw [heq] at hr
      rcases List.mem_cons.mp hr with rfl | hr
      · refine ⟨rfl, fun line hline => ?_⟩
        have hbetween : first ≤ line ∧ line ≤ first := contains_iff.mp hline
        simp [Nat.le_antisymm hbetween.2 hbetween.1]
      · exact ⟨(ih hr).1, fun line hline => later hr hline⟩
    · rw [heq] at hr
      rcases List.mem_cons.mp hr with rfl | hr
      · have hnextMem : next ∈ ofRules target (first + 1) rest := hnext ▸ List.mem_cons_self
        refine ⟨(ih hnextMem).1, fun line hline => ?_⟩
        have hbetween : first ≤ line ∧ line ≤ next.endLine := contains_iff.mp hline
        by_cases hfirst : line = first
        · simp [hfirst, ← hrule, Rule.ofRegion]
        · have hstart : next.startLine = first + 1 :=
            startLine_of_head?_ofRules (by rw [hnext]; rfl)
          exact later hnextMem (contains_iff.mpr ⟨by omega, hbetween.2⟩)
      · have hmem : r ∈ ofRules target (first + 1) rest := hnext ▸ List.mem_cons_of_mem _ hr
        exact ⟨(ih hmem).1, fun line hline => later hmem hline⟩

/-- Regions that touch are governed differently. -/
theorem isChain_ofRules (target : Target) (first : Nat) (rules : List Rule) :
    (ofRules target first rules).IsChain fun r s => Rule.ofRegion r ≠ Rule.ofRegion s := by
  induction rules generalizing first with
  | nil => exact List.isChain_nil
  | cons rule rest ih =>
    have hrest := ih (first + 1)
    rcases ofRules_cons target first rule rest with ⟨heq, hne⟩ | ⟨next, more, hnext, _, heq⟩
    · rw [heq, List.isChain_cons]
      exact ⟨fun next hnext => (hne next hnext).symm, hrest⟩
    · rw [hnext, List.isChain_cons] at hrest
      rw [heq, List.isChain_cons]
      exact hrest

end Region

end LineGuard
