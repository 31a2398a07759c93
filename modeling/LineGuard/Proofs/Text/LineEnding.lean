/-
# Line endings

A line holds no line feed, whatever its text holds otherwise. How lines are ended does not
show in them: a carriage return may be put in front of every line feed, and the last line may
be ended or not.

The text must have no carriage return of its own for this. One in front of a line feed would
become content when another is put between the two, and one at the very end of a text is
content until a line feed follows it.
-/

import LineGuard.Text.Lines
import Mathlib.Data.List.Basic

namespace LineGuard.Text

variable {t line : Text} {c : Char}

/-- The text with every line feed preceded by a carriage return. -/
def withReturns (t : Text) : Text := t.flatMap fun c => if c = '\n' then ['\r', '\n'] else [c]

theorem withReturns_feed (rest : Text) :
    withReturns ('\n' :: rest) = '\r' :: '\n' :: withReturns rest := rfl

theorem withReturns_cons (hc : c ≠ '\n') (rest : Text) :
    withReturns (c :: rest) = c :: withReturns rest := by
  rw [withReturns, List.flatMap_cons, if_neg hc]
  rfl

/-- A character that ends no line goes in front of the first line, or makes a line. -/
theorem lines_cons (hfeed : c ≠ '\n') (hreturn : c ≠ '\r') (rest : Text) :
    lines (c :: rest) =
      match lines rest with
      | [] => [[c]]
      | line :: more => (c :: line) :: more :=
  lines.eq_4 c rest hfeed fun _ hc => absurd hc hreturn

theorem notMem_feed_of_mem_lines (h : line ∈ lines t) : '\n' ∉ line := by
  induction t using lines.induct generalizing line with
  | case1 => cases h
  | case2 rest ih =>
    rcases List.mem_cons.mp h with rfl | hrest
    · exact List.not_mem_nil
    · exact ih hrest
  | case3 rest ih =>
    rcases List.mem_cons.mp h with rfl | hrest
    · exact List.not_mem_nil
    · exact ih hrest
  | case4 c rest hfeed hreturn hlines =>
    rw [lines, hlines] at h
    · rw [List.mem_singleton.mp h]
      simpa using Ne.symm hfeed
    · exact hfeed
    · exact hreturn
  | case5 c rest hfeed hreturn first more hlines ih =>
    rw [lines, hlines] at h
    · rcases List.mem_cons.mp h with rfl | hmore
      · have hfirst : '\n' ∉ first := ih (hlines ▸ List.mem_cons_self)
        simpa [hfirst] using Ne.symm hfeed
      · exact ih (hlines ▸ List.mem_cons_of_mem first hmore)
    · exact hfeed
    · exact hreturn

theorem lines_withReturns (h : '\r' ∉ t) : lines (withReturns t) = lines t := by
  induction t with
  | nil => rfl
  | cons c rest ih =>
    obtain ⟨hc, hrest⟩ := not_or.mp (mt List.mem_cons.mpr h)
    by_cases hfeed : c = '\n'
    · subst hfeed
      rw [withReturns_feed, lines_return_feed, lines_feed, ih hrest]
    · rw [withReturns_cons hfeed, lines_cons hfeed (Ne.symm hc), lines_cons hfeed (Ne.symm hc),
        ih hrest]

/-- Ending the last line makes no further line. -/
theorem lines_concat_feed (hreturn : '\r' ∉ t) (hne : t ≠ []) (hlast : t.getLast? ≠ some '\n') :
    lines (t ++ ['\n']) = lines t := by
  induction t with
  | nil => exact absurd rfl hne
  | cons c rest ih =>
    obtain ⟨hc, hrest⟩ := not_or.mp (mt List.mem_cons.mpr hreturn)
    cases rest with
    | nil =>
      have hfeed : c ≠ '\n' := fun h => hlast (congrArg some h)
      rw [List.cons_append, lines_cons hfeed (Ne.symm hc), lines_cons hfeed (Ne.symm hc)]
      rfl
    | cons d more =>
      rw [List.getLast?_cons_cons] at hlast
      have hlines := ih hrest (List.cons_ne_nil d more) hlast
      by_cases hfeed : c = '\n'
      · subst hfeed
        rw [List.cons_append, lines_feed, lines_feed, hlines]
      · rw [List.cons_append, lines_cons hfeed (Ne.symm hc), lines_cons hfeed (Ne.symm hc), hlines]

/-- A text and the same text with other line endings: a carriage return in front of every line
feed, or a line feed behind a last line that has none. -/
inductive Reends (t : Text) : Text → Prop
  | returns : Reends t (withReturns t)
  | feed (hne : t ≠ []) (hlast : t.getLast? ≠ some '\n') : Reends t (t ++ ['\n'])

theorem Reends.lines_eq {s : Text} (h : Reends t s) (hreturn : '\r' ∉ t) : lines s = lines t := by
  cases h with
  | returns => exact lines_withReturns hreturn
  | feed hne hlast => exact lines_concat_feed hreturn hne hlast

end LineGuard.Text
