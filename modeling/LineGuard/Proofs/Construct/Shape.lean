/-
# What measuring comes to

A construct has one of four shapes, and each comes with the lines it is made of. The header
and whatever else is met line by line are lines measured, from the header on; only a body by
layout is found by looking further ahead.

The brace that opens a body is alone when it is on a line behind the header and that line
starts with a brace. It need not be the same brace.
-/

import LineGuard.Proofs.Construct.Measuring

namespace LineGuard.Construct

namespace Listing

variable {s : Listing} {header line : Nat} {lines : List Nat} {d final : Depth} {c : Construct}

/-- The shapes of what is measured from a header. -/
inductive HasShape (s : Listing) (header : Nat) : Construct → Prop where
  | statement {line : Nat} (hline : line ∈ header :: s.codeAfter header) :
      HasShape s header (statement header line)
  | braces {first close : Nat} (hfirst : first ∈ header :: s.codeAfter header)
      (hclose : close ∈ header :: s.codeAfter header) (hordered : first ≤ close) :
      HasShape s header (ofBraces header ⟨first, s.startsWithBrace header first⟩ close)
  | indented {line first last : Nat} (hline : line ∈ header :: s.codeAfter header)
      (hbody : s.indentedBody? line (s.document.indentation header) = some (first, last)) :
      HasShape s header ⟨header, line, some (.indented first last), last⟩
  | keyword {close : Nat}
      (hclose : s.keywordEnd? header (s.document.indentation header) = some close) :
      HasShape s header ⟨header, header, some (.keyword close), close⟩

theorem SettlesAs.hasShape {code : Text} (h : s.SettlesAs header line code c)
    (hline : line ∈ header :: s.codeAfter header) : s.HasShape header c := by
  cases h with
  | indented _ hbody => exact .indented hline hbody
  | keyword heq hclose =>
    subst heq
    exact .keyword hclose
  | statement => exact .statement hline

/-- The brace that opened the body, if one did, was there before or is on a line with code. -/
theorem PassesOver.opening_cases (h : s.PassesOver header d lines final) :
    final.opening = d.opening ∨ ∃ line ∈ lines, s.bare line ≠ [] ∧
      final.opening = some ⟨line, s.startsWithBrace header line⟩ := by
  induction h with
  | nil d => exact .inl rfl
  | bareless hbare _ ih =>
    rcases ih with hsame | ⟨line, hline, hown⟩
    · exact .inl hsame
    · exact .inr ⟨line, List.mem_cons_of_mem _ hline, hown⟩
  | @code d next final line rest hread _ _ ih =>
    rcases ih with hsame | ⟨line, hline, hown⟩
    · by_cases hbare : s.bare line = []
      · rw [hbare] at hread
        exact .inl (Depth.Step.inside.inj hread ▸ hsame)
      · rcases d.readLine_cases line (s.startsWithBrace header line) (s.bare line) with
          ⟨opening, hclosed, -⟩ | ⟨after, hinside, hopening⟩
        · cases hread.symm.trans hclosed
        · obtain rfl := Depth.Step.inside.inj (hread.symm.trans hinside)
          rcases hopening with hown | hbefore
          · exact .inr ⟨line, List.mem_cons_self, hbare, hsame.trans hown⟩
          · exact .inl (hsame.trans hbefore)
    · exact .inr ⟨line, List.mem_cons_of_mem _ hline, hown⟩

theorem hasShape_measure (s : Listing) (header : Nat) :
    s.HasShape header (s.measure header) := by
  have hends := s.endsAs_measure header
  generalize s.measure header = c at hends
  cases hends with
  | @closes before passed rest line opening hlines hpasses hread =>
    have hclose : line ∈ header :: s.codeAfter header := by
      rw [hlines]
      exact List.mem_append_right passed List.mem_cons_self
    rcases before.readLine_cases line (s.startsWithBrace header line) (s.bare line) with
      ⟨found, hclosed, hopening⟩ | ⟨next, hinside, -⟩
    · obtain rfl := Depth.Step.closed.inj (hread.symm.trans hclosed)
      rcases hopening with rfl | hbefore
      · exact .braces hclose hclose (Nat.le_refl _)
      · rcases hpasses.opening_cases with hnone | ⟨first, hfirst, -, hown⟩
        · cases hbefore.symm.trans hnone
        · obtain rfl := Option.some.inj (hbefore.symm.trans hown)
          have hordered := s.pairwise_measured header
          rw [hlines] at hordered
          obtain ⟨-, -, hbehind⟩ := List.pairwise_append.mp hordered
          refine .braces ?_ hclose (Nat.le_of_lt (hbehind first hfirst line List.mem_cons_self))
          rw [hlines]
          exact List.mem_append_left _ hfirst
    · cases hread.symm.trans hinside
  | @settles _ _ passed _ line _ hlines hpasses hbare hread hsettled hsettle =>
    refine (settlesAs_of_settle? hsettle).hasShape ?_
    rw [hlines]
    exact List.mem_append_right passed List.mem_cons_self
  | runsOutInBody hpasses hopening =>
    rcases hpasses.opening_cases with hnone | ⟨first, hfirst, hbare, hown⟩
    · cases hopening.symm.trans hnone
    · obtain rfl := Option.some.inj (hopening.symm.trans hown)
      exact .braces hfirst (s.lastCodeOf_mem_measured header) (le_lastCodeOf hfirst hbare)
  | runsOut hpasses hopening => exact .statement (s.lastCodeOf_mem_measured header)

end Listing

end LineGuard.Construct
