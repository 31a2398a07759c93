/-
# The brace that closes a body

A body between braces opens at the first brace that stands outside all brackets and braces,
and closes at the brace that matches it. Text that never closes it runs to the last line of
code. Both are said of the bare code of the header and of all lines of code behind it, whether
measuring looks at them or not. The header itself need not be a line of code.
-/

import LineGuard.Proofs.Construct.Measuring

namespace LineGuard.Construct

namespace Listing

variable {s : Listing} {header close : Nat} {opening : Opening}

/-- A line is the last with bare code, among a header and the lines of code behind it. -/
def IsLastCode (s : Listing) (header last : Nat) : Prop :=
  last ∈ header :: s.codeAfter header ∧ s.bare last ≠ [] ∧
    ∀ line ∈ s.codeAfter header, last < line → s.bare line = []

theorem body_ne_braces_of_settlesAs {line : Nat} {code : Text} {c : Construct}
    (h : s.SettlesAs header line code c) : c.body ≠ some (.braces opening close) := by
  cases h <;> exact nofun

/-- Where some line has bare code, the last that has some is the last line with code. -/
theorem isLastCode_lastCodeOf
    (h : ∃ line ∈ header :: s.codeAfter header, s.bare line ≠ []) :
    s.IsLastCode header (s.lastCodeOf header (header :: s.codeAfter header)) := by
  obtain ⟨line, hline, hbare⟩ := h
  refine ⟨s.lastCodeOf_mem_measured header, ?_, fun later hlater hlt => ?_⟩
  · rcases s.lastCodeOf_cases header (header :: s.codeAfter header) with ⟨-, hnone⟩ |
      ⟨-, -, -, hcode, -⟩
    · exact absurd (hnone line hline) hbare
    · exact hcode
  · by_contra hcode
    exact Nat.not_le_of_lt hlt (le_lastCodeOf (List.mem_cons_of_mem header hlater) hcode)

/-- A body between braces opens at the first brace outside all brackets and closes at the brace
that matches it, or else at the last line of code. The construct ends with it. -/
theorem closesBody_or_leavesBodyOpen_measure
    (hbody : (s.measure header).body = some (.braces opening close)) :
    (s.measure header).last = close ∧
      (ClosesBody (s.marks (header :: s.codeAfter header)) opening.line close ∨
        LeavesBodyOpen (s.marks (header :: s.codeAfter header)) opening.line ∧
          s.IsLastCode header close) := by
  have hends := s.endsAs_measure header
  generalize s.measure header = c at hbody hends
  cases hends with
  | @closes before passed rest line found hlines hpasses hread =>
    obtain ⟨rfl, rfl⟩ := Body.braces.inj (Option.some.inj hbody)
    refine ⟨rfl, .inl ?_⟩
    have hclosed := (hpasses.describes Depth.describes_outside).closesBody_of_readLine hread
    rw [hlines, List.append_cons, marks_append, marks_append, marks_singleton]
    exact hclosed.append (s.marks rest)
  | settles hlines hpasses hbare hread hsettled hsettle =>
    exact absurd hbody (body_ne_braces_of_settlesAs (settlesAs_of_settle? hsettle))
  | @runsOutInBody _ found hpasses hopening =>
    obtain ⟨rfl, rfl⟩ := Body.braces.inj (Option.some.inj hbody)
    obtain ⟨before, behind, hmarks, houtside, hnothing, hopen, -⟩ :=
      (hpasses.describes Depth.describes_outside).staysOpen _ hopening
    refine ⟨rfl, .inr ⟨⟨before, behind, hmarks, houtside, hnothing, hopen⟩, ?_⟩⟩
    -- The brace that opened the body is bare code.
    refine isLastCode_lastCodeOf ?_
    have hbrace : (found.line, '{') ∈ s.marks (header :: s.codeAfter header) := by
      rw [← List.nil_append (s.marks _), hmarks]
      exact List.mem_append_right before List.mem_cons_self
    obtain ⟨line, hline, hmark⟩ := List.mem_flatMap.mp hbrace
    obtain ⟨c, hc, -⟩ := List.mem_map.mp hmark
    exact ⟨line, hline, List.ne_nil_of_mem hc⟩
  | runsOut hpasses hopening => cases hbody

/-- A body behind a brace that is closed inside brackets, and one that is never closed. -/
def unevenListing : Listing where
  document := .ofText
    "f(\x7b a: 1 \x7d) )\n\x7b g('\x7d') \x7b\n// \x7d\n\x7d \x7d x\nh \x7b\n  k(\n// \x7d".toList
    (some "javascript".toList)
  cut := none

theorem closesBody_or_leavesBodyOpen_measure_uneven :
    (unevenListing.measure 0).body = some (.braces ⟨1, true⟩ 3) ∧
      (unevenListing.measure 4).body = some (.braces ⟨4, false⟩ 5) ∧
      ((unevenListing.measure 0).last = 3 ∧
        (ClosesBody (unevenListing.marks (0 :: unevenListing.codeAfter 0)) 1 3 ∨
          LeavesBodyOpen (unevenListing.marks (0 :: unevenListing.codeAfter 0)) 1 ∧
            unevenListing.IsLastCode 0 3)) ∧
      (unevenListing.measure 4).last = 5 ∧
        (ClosesBody (unevenListing.marks (4 :: unevenListing.codeAfter 4)) 4 5 ∨
          LeavesBodyOpen (unevenListing.marks (4 :: unevenListing.codeAfter 4)) 4 ∧
            unevenListing.IsLastCode 4 5) := by
  have hclosed : (unevenListing.measure 0).body = some (.braces ⟨1, true⟩ 3) := by decide +kernel
  have hopen : (unevenListing.measure 4).body = some (.braces ⟨4, false⟩ 5) := by decide +kernel
  exact ⟨hclosed, hopen, closesBody_or_leavesBodyOpen_measure hclosed,
    closesBody_or_leavesBodyOpen_measure hopen⟩

end Listing

end LineGuard.Construct
