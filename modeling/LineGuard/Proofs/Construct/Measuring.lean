/-
# How measuring ends

Measuring goes from line to line until a brace closes the body, a line behind which nothing is
open settles what the construct is, or the lines run out. The lines in front of that are passed
over: they have no code, leave something open, or are carried on.

Everything about measured constructs comes from these endings. What has been passed over is
known by the depth it leaves, and the depth describes the text read so far.
-/

import LineGuard.Proofs.Construct.Depth

namespace LineGuard.Construct

namespace Listing

variable {s : Listing} {header line lastCode : Nat} {lines passed rest : List Nat}
  {d next final : Depth} {opening : Opening} {c : Construct}

/-- The bare code of some lines, character by character. -/
def marks (s : Listing) (lines : List Nat) : List Mark :=
  lines.flatMap fun line => (s.bare line).map (line, ·)

theorem marks_append (s : Listing) (lines rest : List Nat) :
    s.marks (lines ++ rest) = s.marks lines ++ s.marks rest :=
  List.flatMap_append

theorem marks_singleton (s : Listing) (line : Nat) :
    s.marks [line] = (s.bare line).map (line, ·) :=
  List.flatMap_singleton _ _

/-! ## What a line settles -/

/-- What a header line behind which nothing is open settles. -/
inductive SettlesAs (s : Listing) (header line : Nat) (code : Text) : Construct → Prop where
  | indented {first last : Nat} (hcolon : code.getLast? = some ':')
      (hbody : s.indentedBody? line (s.document.indentation header) = some (first, last)) :
      SettlesAs s header line code ⟨header, line, some (.indented first last), last⟩
  | keyword {close : Nat} (hline : line = header)
      (hclose : s.keywordEnd? header (s.document.indentation header) = some close) :
      SettlesAs s header line code ⟨header, line, some (.keyword close), close⟩
  | statement : SettlesAs s header line code (statement header line)

theorem settlesAs_of_settle? {code : Text} (h : s.settle? header line code = some c) :
    s.SettlesAs header line code c := by
  rw [settle?] at h
  split_ifs at h with hcolon hcontinues hblock
  · cases hbody : s.indentedBody? line (s.document.indentation header) with
    | none =>
      rw [hbody] at h
      exact Option.some.inj h ▸ .statement
    | some body =>
      rw [hbody] at h
      exact Option.some.inj h ▸ .indented hcolon hbody
  · cases hclose : s.keywordEnd? header (s.document.indentation header) with
    | none =>
      rw [hclose] at h
      exact Option.some.inj h ▸ .statement
    | some close =>
      rw [hclose] at h
      rw [Bool.and_eq_true, beq_iff_eq] at hblock
      exact Option.some.inj h ▸ .keyword hblock.1 hclose
  · exact Option.some.inj h ▸ .statement

/-- A header line goes on just when it does not end in a colon and either is carried on or has
a brace behind it. -/
theorem settle?_eq_none_iff {code : Text} : s.settle? header line code = none ↔
    code.getLast? ≠ some ':' ∧ (continues code = true ∨ s.braceFollows line = true) := by
  rw [settle?, ← Bool.or_eq_true]
  split_ifs with hcolon hcontinues hblock
  · cases s.indentedBody? line (s.document.indentation header) <;> simp [hcolon]
  · simp [hcolon, hcontinues]
  · cases s.keywordEnd? header (s.document.indentation header) <;> simp [hcontinues]
  · simp [hcontinues]

/-! ## Line by line -/

/-- Whether a line behind the header starts with a brace. -/
def startsWithBrace (s : Listing) (header line : Nat) : Bool :=
  header < line && Text.startsWith ['{'] (s.bare line)

/-- Measuring goes through some lines without an end. -/
inductive PassesOver (s : Listing) (header : Nat) : Depth → List Nat → Depth → Prop where
  | nil (d : Depth) : PassesOver s header d [] d
  | bareless {d final : Depth} {line : Nat} {rest : List Nat} (hbare : s.bare line = [])
      (hrest : PassesOver s header d rest final) : PassesOver s header d (line :: rest) final
  | code {d next final : Depth} {line : Nat} {rest : List Nat}
      (hread : d.readLine line (s.startsWithBrace header line) (s.bare line) = .inside next)
      (hgoesOn : next.isSettled = true → s.settle? header line (s.bare line) = none)
      (hrest : PassesOver s header next rest final) : PassesOver s header d (line :: rest) final

/-- The last of some lines that has bare code, or else a line from before. -/
def lastCodeOf (s : Listing) (lastCode : Nat) (lines : List Nat) : Nat :=
  lines.foldl (fun last line => if (s.bare line).isEmpty then last else line) lastCode

/-- What measuring comes to, by how it ends. -/
inductive EndsAs (s : Listing) (header : Nat) (d : Depth) (lastCode : Nat) (lines : List Nat) :
    Construct → Prop where
  | closes {before : Depth} {passed rest : List Nat} {line : Nat} {opening : Opening}
      (hlines : lines = passed ++ line :: rest) (hpasses : s.PassesOver header d passed before)
      (hread : before.readLine line (s.startsWithBrace header line) (s.bare line) =
        .closed opening) :
      EndsAs s header d lastCode lines (ofBraces header opening line)
  | settles {before next : Depth} {passed rest : List Nat} {line : Nat} {c : Construct}
      (hlines : lines = passed ++ line :: rest) (hpasses : s.PassesOver header d passed before)
      (hbare : s.bare line ≠ [])
      (hread : before.readLine line (s.startsWithBrace header line) (s.bare line) = .inside next)
      (hsettled : next.isSettled = true)
      (hsettle : s.settle? header line (s.bare line) = some c) :
      EndsAs s header d lastCode lines c
  | runsOutInBody {final : Depth} {opening : Opening} (hpasses : s.PassesOver header d lines final)
      (hopening : final.opening = some opening) :
      EndsAs s header d lastCode lines (ofBraces header opening (s.lastCodeOf lastCode lines))
  | runsOut {final : Depth} (hpasses : s.PassesOver header d lines final)
      (hopening : final.opening = none) :
      EndsAs s header d lastCode lines (statement header (s.lastCodeOf lastCode lines))

theorem EndsAs.bareless (hbare : s.bare line = []) (h : s.EndsAs header d lastCode rest c) :
    s.EndsAs header d lastCode (line :: rest) c := by
  have hlast : s.lastCodeOf lastCode (line :: rest) = s.lastCodeOf lastCode rest := by
    simp [lastCodeOf, hbare]
  cases h with
  | closes hlines hpasses hread =>
    exact .closes (congrArg (line :: ·) hlines) (.bareless hbare hpasses) hread
  | settles hlines hpasses hcode hread hsettled hsettle =>
    exact .settles (congrArg (line :: ·) hlines) (.bareless hbare hpasses) hcode hread hsettled
      hsettle
  | runsOutInBody hpasses hopening =>
    exact hlast ▸ .runsOutInBody (.bareless hbare hpasses) hopening
  | runsOut hpasses hopening => exact hlast ▸ .runsOut (.bareless hbare hpasses) hopening

theorem EndsAs.code (hbare : s.bare line ≠ [])
    (hread : d.readLine line (s.startsWithBrace header line) (s.bare line) = .inside next)
    (hgoesOn : next.isSettled = true → s.settle? header line (s.bare line) = none)
    (h : s.EndsAs header next line rest c) : s.EndsAs header d lastCode (line :: rest) c := by
  have hlast : s.lastCodeOf lastCode (line :: rest) = s.lastCodeOf line rest := by
    simp [lastCodeOf, hbare]
  cases h with
  | closes hlines hpasses hclosed =>
    exact .closes (congrArg (line :: ·) hlines) (.code hread hgoesOn hpasses) hclosed
  | settles hlines hpasses hcode hinside hsettled hsettle =>
    exact .settles (congrArg (line :: ·) hlines) (.code hread hgoesOn hpasses) hcode hinside
      hsettled hsettle
  | runsOutInBody hpasses hopening =>
    exact hlast ▸ .runsOutInBody (.code hread hgoesOn hpasses) hopening
  | runsOut hpasses hopening => exact hlast ▸ .runsOut (.code hread hgoesOn hpasses) hopening

/-- Measuring ends in one of the four ways. -/
theorem endsAs_measureFrom (s : Listing) (header : Nat) (d : Depth) (lastCode : Nat)
    (lines : List Nat) :
    s.EndsAs header d lastCode lines (s.measureFrom header d lastCode lines) := by
  induction lines generalizing d lastCode with
  | nil =>
    rw [measureFrom]
    cases hopening : d.opening with
    | some opening => exact .runsOutInBody (.nil d) hopening
    | none => exact .runsOut (.nil d) hopening
  | cons line rest ih =>
    rw [measureFrom]
    by_cases hempty : (s.bare line).isEmpty = true
    · rw [if_pos hempty]
      exact (ih d lastCode).bareless (List.isEmpty_iff.mp hempty)
    · rw [if_neg hempty]
      have hbare : s.bare line ≠ [] := fun hnil => hempty (List.isEmpty_iff.mpr hnil)
      cases hread : d.readLine line (s.startsWithBrace header line) (s.bare line) with
      | closed opening =>
        rw [startsWithBrace] at hread
        rw [hread]
        exact .closes (List.nil_append _).symm (.nil d) hread
      | inside next =>
        have hread' := hread
        rw [startsWithBrace] at hread'
        rw [hread']
        by_cases hsettled : next.isSettled = true
        · simp only [hsettled, if_true]
          cases hsettle : s.settle? header line (s.bare line) with
          | some c =>
            exact .settles (List.nil_append _).symm (.nil d) hbare hread hsettled hsettle
          | none => exact (ih next line).code hbare hread fun _ => hsettle
        · simp only [hsettled]
          exact (ih next line).code hbare hread fun h => absurd h hsettled

theorem endsAs_measure (s : Listing) (header : Nat) :
    s.EndsAs header .outside header (header :: s.codeAfter header) (s.measure header) :=
  s.endsAs_measureFrom header .outside header _

/-! ## What is passed over -/

/-- The depth behind lines that are passed over describes the text of the lines as well. -/
theorem PassesOver.describes {read : List Mark} (h : s.PassesOver header d lines final)
    (hd : d.Describes read) : final.Describes (read ++ s.marks lines) := by
  induction h generalizing read with
  | nil d => simpa [marks] using hd
  | @bareless _ _ line rest hbare _ ih => simpa [marks, hbare] using ih hd
  | @code _ _ _ line rest hread _ _ ih => simpa [marks] using ih (hd.of_readLine hread)

/-- The last line with code is the line from before, when none of the lines has any, or one of
them behind which there is none. -/
theorem lastCodeOf_cases (s : Listing) (lastCode : Nat) (lines : List Nat) :
    (s.lastCodeOf lastCode lines = lastCode ∧ ∀ line ∈ lines, s.bare line = []) ∨
      ∃ before behind, lines = before ++ s.lastCodeOf lastCode lines :: behind ∧
        s.bare (s.lastCodeOf lastCode lines) ≠ [] ∧ ∀ line ∈ behind, s.bare line = [] := by
  induction lines generalizing lastCode with
  | nil => exact .inl ⟨rfl, fun _ h => nomatch h⟩
  | cons line rest ih =>
    rw [lastCodeOf, List.foldl_cons, ← lastCodeOf]
    by_cases hbare : s.bare line = []
    · rw [if_pos (List.isEmpty_iff.mpr hbare)]
      rcases ih lastCode with ⟨hlast, hnone⟩ | ⟨before, behind, hrest, hcode, hnone⟩
      · exact .inl ⟨hlast, List.forall_mem_cons.mpr ⟨hbare, hnone⟩⟩
      · exact .inr ⟨line :: before, behind, congrArg (line :: ·) hrest, hcode, hnone⟩
    · rw [if_neg fun hempty => hbare (List.isEmpty_iff.mp hempty)]
      rcases ih line with ⟨hlast, hnone⟩ | ⟨before, behind, hrest, hcode, hnone⟩
      · exact .inr ⟨[], rest, by rw [hlast]; rfl, by rwa [hlast], hnone⟩
      · exact .inr ⟨line :: before, behind, congrArg (line :: ·) hrest, hcode, hnone⟩

/-! ## The lines measured -/

theorem mem_front_of_lt {lines front behind : List Nat} {line other : Nat}
    (hordered : lines.Pairwise (· < ·)) (hlines : lines = front ++ line :: behind)
    (hmem : other ∈ lines) (hlt : other < line) : other ∈ front := by
  subst hlines
  obtain ⟨-, hbehind, -⟩ := List.pairwise_append.mp hordered
  rcases List.mem_append.mp hmem with hfront | hlater
  · exact hfront
  · rcases List.mem_cons.mp hlater with rfl | hlater
    · exact absurd hlt (Nat.lt_irrefl _)
    · exact absurd hlt (Nat.lt_asymm ((List.pairwise_cons.mp hbehind).1 other hlater))

theorem mem_behind_of_lt {lines front behind : List Nat} {line other : Nat}
    (hordered : lines.Pairwise (· < ·)) (hlines : lines = front ++ line :: behind)
    (hmem : other ∈ lines) (hlt : line < other) : other ∈ behind := by
  subst hlines
  obtain ⟨-, -, hfront⟩ := List.pairwise_append.mp hordered
  rcases List.mem_append.mp hmem with hearlier | hbehind
  · exact absurd hlt (Nat.lt_asymm (hfront other hearlier line List.mem_cons_self))
  · rcases List.mem_cons.mp hbehind with rfl | hbehind
    · exact absurd hlt (Nat.lt_irrefl _)
    · exact hbehind

theorem mem_linesAfter {later : Nat} :
    later ∈ s.linesAfter line ↔ line < later ∧ later < s.document.lineCount := by
  refine ⟨lt_of_mem_linesAfter, fun h => ?_⟩
  rw [linesAfter, List.mem_range'_1]
  omega

theorem pairwise_codeAfter (s : Listing) (line : Nat) : (s.codeAfter line).Pairwise (· < ·) :=
  List.Pairwise.filter _ List.pairwise_lt_range'

/-- The lines measured, from the header on, come in order. -/
theorem pairwise_measured (s : Listing) (header : Nat) :
    (header :: s.codeAfter header).Pairwise (· < ·) :=
  List.pairwise_cons.mpr ⟨fun _ hline => (mem_linesAfter.mp (List.mem_filter.mp hline).1).1,
    s.pairwise_codeAfter header⟩

/-- The header is the first of the lines measured, and none is past the end of a document that
has the header. -/
theorem bounds_of_mem_measured (h : line ∈ header :: s.codeAfter header) :
    header ≤ line ∧ (header < s.document.lineCount → line < s.document.lineCount) := by
  rcases List.mem_cons.mp h with rfl | hafter
  · exact ⟨Nat.le_refl _, id⟩
  · obtain ⟨hlt, hcount⟩ := mem_linesAfter.mp (List.mem_filter.mp hafter).1
    exact ⟨Nat.le_of_lt hlt, fun _ => hcount⟩

theorem lastCodeOf_mem_measured (s : Listing) (header : Nat) :
    s.lastCodeOf header (header :: s.codeAfter header) ∈ header :: s.codeAfter header := by
  rcases s.lastCodeOf_cases header (header :: s.codeAfter header) with ⟨hlast, -⟩ |
    ⟨before, behind, hlines, -⟩
  · rw [hlast]
    exact List.mem_cons_self
  · generalize s.lastCodeOf header (header :: s.codeAfter header) = last at hlines
    rw [hlines]
    exact List.mem_append_right before List.mem_cons_self

/-- No line with bare code is behind the last. -/
theorem le_lastCodeOf (hline : line ∈ header :: s.codeAfter header) (hbare : s.bare line ≠ []) :
    line ≤ s.lastCodeOf header (header :: s.codeAfter header) := by
  rcases s.lastCodeOf_cases header (header :: s.codeAfter header) with ⟨-, hnone⟩ |
    ⟨before, behind, hlines, -, hnone⟩
  · exact absurd (hnone line hline) hbare
  · by_contra hlt
    exact hbare (hnone line (mem_behind_of_lt (s.pairwise_measured header) hlines hline
      (Nat.lt_of_not_le hlt)))

/-! ## Where measuring stops -/

/-- The bare code from a header down to a line, that of both included. -/
def readUpTo (s : Listing) (header line : Nat) : List Mark :=
  s.marks ((header :: s.codeAfter header).filter (· ≤ line))

/-- Measuring from a header goes on behind a line: the line has no bare code, leaves something
open, or is carried on by an operator or a brace, which a colon at its end prevents. -/
def GoesOn (s : Listing) (header line : Nat) : Prop :=
  s.bare line = [] ∨ ¬ IsOutside (s.readUpTo header line) ∨
    (s.bare line).getLast? ≠ some ':' ∧
      (continues (s.bare line) = true ∨ s.braceFollows line = true)

/-- Measuring from a header stops at a line, without a body having begun. -/
structure StopsAt (s : Listing) (header line : Nat) : Prop where
  mem : line ∈ header :: s.codeAfter header
  goesOn : ∀ earlier ∈ header :: s.codeAfter header, earlier < line → s.GoesOn header earlier
  not_goesOn : ¬ s.GoesOn header line
  opensNothing : OpensNothing (s.readUpTo header line)

theorem readUpTo_eq (hlines : header :: s.codeAfter header = passed ++ line :: rest) :
    s.readUpTo header line = s.marks (passed ++ [line]) := by
  have hordered := s.pairwise_measured header
  rw [hlines] at hordered
  obtain ⟨-, hbehind, hbefore⟩ := List.pairwise_append.mp hordered
  have hpassed : passed.filter (· ≤ line) = passed :=
    List.filter_eq_self.mpr fun l hl =>
      decide_eq_true (Nat.le_of_lt (hbefore l hl line List.mem_cons_self))
  have hrest : rest.filter (· ≤ line) = [] :=
    List.filter_eq_nil_iff.mpr fun l hl => by
      simpa using (List.pairwise_cons.mp hbehind).1 l hl
  rw [readUpTo, hlines, List.filter_append, hpassed,
    List.filter_cons_of_pos (by simp), hrest]

theorem PassesOver.exists_of_append {before behind : List Nat}
    (h : s.PassesOver header d (before ++ behind) final) :
    ∃ between, s.PassesOver header d before between ∧ s.PassesOver header between behind final := by
  induction before generalizing d with
  | nil => exact ⟨d, .nil d, h⟩
  | cons line rest ih =>
    cases h with
    | bareless hbare hrest =>
      obtain ⟨between, hbefore, hbehind⟩ := ih hrest
      exact ⟨between, .bareless hbare hbefore, hbehind⟩
    | code hread hgoesOn hrest =>
      obtain ⟨between, hbefore, hbehind⟩ := ih hrest
      exact ⟨between, .code hread hgoesOn hbefore, hbehind⟩

/-- Measuring goes on behind each line that is passed over. -/
theorem PassesOver.goesOn (hlines : header :: s.codeAfter header = passed ++ rest)
    (h : s.PassesOver header .outside passed final) (hline : line ∈ passed) :
    s.GoesOn header line := by
  obtain ⟨before, after, rfl⟩ := List.append_of_mem hline
  obtain ⟨between, hbefore, hbehind⟩ := h.exists_of_append
  rw [List.append_assoc, List.cons_append] at hlines
  rw [GoesOn, readUpTo_eq hlines]
  cases hbehind with
  | bareless hbare => exact .inl hbare
  | @code _ next _ _ _ hread hgoesOn =>
    have hnext := (hbefore.describes Depth.describes_outside).of_readLine hread
    rw [List.nil_append, ← marks_singleton, ← marks_append] at hnext
    by_cases hsettled : next.isSettled = true
    · exact .inr (.inr (settle?_eq_none_iff.mp (hgoesOn hsettled)))
    · exact .inr (.inl fun houtside => hsettled (hnext.isSettled_iff.mpr houtside))

/-- A line that settles what the construct is, measuring stops at. -/
theorem PassesOver.stopsAt (hlines : header :: s.codeAfter header = passed ++ line :: rest)
    (h : s.PassesOver header .outside passed d) (hbare : s.bare line ≠ [])
    (hread : d.readLine line (s.startsWithBrace header line) (s.bare line) = .inside next)
    (hsettled : next.isSettled = true) (hsettle : s.settle? header line (s.bare line) = some c) :
    s.StopsAt header line := by
  have hnext := (h.describes Depth.describes_outside).of_readLine hread
  rw [List.nil_append, ← marks_singleton, ← marks_append, ← readUpTo_eq hlines] at hnext
  refine ⟨?_, fun earlier hearlier hlt => ?_, ?_, hnext.opensNothing ?_⟩
  · rw [hlines]
    exact List.mem_append_right passed List.mem_cons_self
  · exact h.goesOn hlines (mem_front_of_lt (s.pairwise_measured header) hlines hearlier hlt)
  · rintro (hempty | hopen | hgoesOn)
    · exact hbare hempty
    · exact hopen (hnext.isSettled_iff.mp hsettled)
    · cases hsettle.symm.trans (settle?_eq_none_iff.mpr hgoesOn)
  · simp only [Depth.isSettled, Bool.and_eq_true, Option.isNone_iff_eq_none] at hsettled
    exact hsettled.1.1

/-- Measuring does not end in front of a line that it stops at. -/
theorem StopsAt.notMem_passed (h : s.StopsAt header line)
    (hlines : header :: s.codeAfter header = passed ++ rest)
    (hpasses : s.PassesOver header .outside passed final) : line ∉ passed :=
  fun hmem => h.not_goesOn (hpasses.goesOn hlines hmem)

/-- Up to a line that measuring stops at, no brace opens a body. -/
theorem StopsAt.opensNothing_of_le {earlier : Nat} (h : s.StopsAt header line)
    (hlines : header :: s.codeAfter header = passed ++ earlier :: rest)
    (hline : line ∈ earlier :: rest) : OpensNothing (s.marks (passed ++ [earlier])) := by
  have hnothing := h.opensNothing
  rcases List.mem_cons.mp hline with rfl | hrest
  · rwa [readUpTo_eq hlines] at hnothing
  · obtain ⟨between, after, rfl⟩ := List.append_of_mem hrest
    have hsplit : header :: s.codeAfter header =
        (passed ++ earlier :: between) ++ line :: after := by simpa using hlines
    rw [readUpTo_eq hsplit, List.append_cons passed, List.append_assoc, marks_append] at hnothing
    exact hnothing.of_append

/-- The line that measuring stops at settles what is measured. -/
theorem StopsAt.settle?_eq (h : s.StopsAt header line) :
    s.settle? header line (s.bare line) = some (s.measure header) := by
  have hends := s.endsAs_measure header
  generalize s.measure header = c at hends
  have hmem (passed rest : List Nat) (final : Depth)
      (hlines : header :: s.codeAfter header = passed ++ rest)
      (hpasses : s.PassesOver header .outside passed final) : line ∈ rest := by
    have hall := h.mem
    rw [hlines] at hall
    exact (List.mem_append.mp hall).resolve_left (h.notMem_passed hlines hpasses)
  cases hends with
  | @closes before passed rest later opening hlines hpasses hread =>
    have hclosed := (hpasses.describes Depth.describes_outside).closesBody_of_readLine hread
    rw [List.nil_append, ← marks_singleton, ← marks_append] at hclosed
    exact absurd (h.opensNothing_of_le hlines (hmem _ _ _ hlines hpasses))
      hclosed.not_opensNothing
  | @settles before next passed rest later c hlines hpasses hbare hread hsettled hsettle =>
    rcases List.mem_cons.mp (hmem _ _ _ hlines hpasses) with rfl | hrest
    · exact hsettle
    · have hstops := hpasses.stopsAt hlines hbare hread hsettled hsettle
      have hordered := s.pairwise_measured header
      rw [hlines] at hordered
      obtain ⟨-, hbehind, -⟩ := List.pairwise_append.mp hordered
      have hlt := (List.pairwise_cons.mp hbehind).1 line hrest
      exact absurd (h.goesOn later hstops.mem hlt) hstops.not_goesOn
  | runsOutInBody hpasses hopening => cases hmem _ [] _ (List.append_nil _).symm hpasses
  | runsOut hpasses hopening => cases hmem _ [] _ (List.append_nil _).symm hpasses

end Listing

end LineGuard.Construct
