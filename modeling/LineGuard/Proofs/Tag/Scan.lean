/-
# Searching a line for its tag

The search goes over a line from the left. Where no match begins it passes one
character, and where one begins it passes the whole match. `Scan` is this walk as a
relation, one constructor for each of the two; what holds of every walk is proved by
induction on it.

A match takes the at sign of its tag with it, so a line has no more matches than at
signs, and on a line with a single one the first match is the only one.
-/

import LineGuard.Proofs.Tag.Reading

namespace LineGuard

namespace Tag

variable {t rest left text : Text} {line column : Nat} {candidate : Candidate} {tag : Tag}

/-! ## What a match takes -/

/-- A match takes a piece off the text, the at sign within. -/
theorem exists_eq_append_of_readCandidate? (h : readCandidate? t = some (candidate, left)) :
    ∃ piece, t = piece ++ left ∧ '@' ∈ piece := by
  obtain ⟨behind, afterSuffix, afterAdded, hopens, hsuffix, hadded, hremoved⟩ :=
    readCandidate?_eq_some_iff.mp h
  obtain ⟨mark, _, blanks, words, rfl, _, hgrants⟩ := hopens
  obtain ⟨more, rfl⟩ := hgrants.exists_eq_cons
  have hleft : left <:+ behind := by
    have := readSuffix_suffix behind
    rw [hsuffix] at this
    exact ((modifiers_iff.mpr hremoved).suffix.trans (modifiers_iff.mpr hadded).suffix).trans this
  obtain ⟨inner, rfl⟩ := hleft
  exact ⟨mark ++ (blanks ++ '@' :: (more ++ inner)), by simp, by simp⟩

theorem head?_of_mem_marks : ∀ mark ∈ marks, (mark.head?.map Text.isBlank) = some false := by
  decide

/-- A match begins with a mark, and no mark begins with a blank. -/
theorem readCandidate?_cons_of_isBlank {c : Char} (h : Text.isBlank c = true) :
    readCandidate? (c :: t) = none := by
  cases hread : readCandidate? (c :: t) with
  | none => rfl
  | some found =>
    obtain ⟨candidate, left⟩ := found
    obtain ⟨_, _, _, ⟨mark, hmark, _, _, happend, _⟩, _⟩ := readCandidate?_eq_some_iff.mp hread
    have hhead := head?_of_mem_marks mark hmark
    cases mark with
    | nil => cases hhead
    | cons d mark =>
      obtain ⟨rfl, _⟩ := List.cons.inj happend
      rw [List.head?_cons, Option.map_some, h] at hhead
      cases hhead

/-! ## The walk -/

/-- A walk over a text that begins at a column, with the matches it finds. -/
inductive Scan : Nat → Text → List (Nat × Candidate) → Prop
  | done {column : Nat} : Scan column [] []
  | pass {column : Nat} {c : Char} {rest : Text} {found : List (Nat × Candidate)}
      (noMatch : readCandidate? (c :: rest) = none)
      (others : Scan (column + c.utf8Size) rest found) : Scan column (c :: rest) found
  | take {column : Nat} {piece left : Text} {candidate : Candidate}
      {found : List (Nat × Candidate)}
      (isMatch : readCandidate? (piece ++ left) = some (candidate, left))
      (others : Scan (column + Text.byteLength piece) left found) :
      Scan column (piece ++ left) ((column, candidate) :: found)

/-- Characters that belong to a match are passed. -/
theorem candidatesFrom_append (piece left : Text) (column : Nat) :
    candidatesFrom piece.length column (piece ++ left) =
      candidatesFrom 0 (column + Text.byteLength piece) left := by
  induction piece generalizing column with
  | nil => rfl
  | cons c piece ih =>
    rw [List.length_cons, List.cons_append, candidatesFrom, ih, Text.byteLength_cons, Nat.add_assoc]

/-- The search is such a walk. -/
theorem scan_candidatesFrom (column : Nat) (t : Text) :
    Scan column t (candidatesFrom 0 column t) := by
  -- A match takes many characters at once, so the induction is on the length.
  induction hlength : t.length using Nat.strong_induction_on generalizing column t with
  | _ length ih =>
    cases t with
    | nil => exact .done
    | cons c rest =>
      cases hread : readCandidate? (c :: rest) with
      | none =>
        have hothers := ih rest.length (by simp [← hlength]) (column + c.utf8Size) rest rfl
        rw [candidatesFrom, hread]
        exact .pass hread hothers
      | some found =>
        obtain ⟨candidate, left⟩ := found
        obtain ⟨piece, happend, hat⟩ := exists_eq_append_of_readCandidate? hread
        cases piece with
        | nil => cases hat
        | cons d piece =>
          obtain ⟨rfl, rfl⟩ := List.cons.inj happend
          have hshorter : left.length < length := by
            rw [← hlength, List.length_cons, List.append_eq, List.length_append]
            omega
          have hothers := ih left.length hshorter (column + Text.byteLength (c :: piece)) left rfl
          have hskip : (piece ++ left).length - left.length = piece.length := by simp
          have hfound : candidatesFrom 0 column (c :: (piece ++ left)) =
              (column, candidate) ::
                candidatesFrom 0 (column + Text.byteLength (c :: piece)) left := by
            rw [candidatesFrom, show readCandidate? (c :: (piece ++ left)) = _ from hread]
            simp only [hskip, candidatesFrom_append, Text.byteLength_cons, Nat.add_assoc]
          exact hfound ▸ .take hread hothers

/-- What a walk finds are matches, each at the column of its text. -/
theorem Scan.exists_of_mem {found : List (Nat × Candidate)} (h : Scan column t found) {start : Nat}
    (hmem : (start, candidate) ∈ found) : ∃ before rest left, t = before ++ rest ∧
      start = column + Text.byteLength before ∧ readCandidate? rest = some (candidate, left) := by
  induction h with
  | done => cases hmem
  | @pass column c rest found _ _ ih =>
    obtain ⟨before, rest, left, rfl, rfl, hread⟩ := ih hmem
    exact ⟨c :: before, rest, left, rfl, by rw [Text.byteLength_cons, Nat.add_assoc], hread⟩
  | @take column piece left other found hread _ ih =>
    rcases List.mem_cons.mp hmem with heq | hmem
    · obtain ⟨rfl, rfl⟩ := Prod.mk.inj heq
      exact ⟨[], piece ++ left, left, rfl, rfl, hread⟩
    · obtain ⟨before, rest, left, rfl, rfl, hread⟩ := ih hmem
      refine ⟨piece ++ before, rest, left, by simp, ?_, hread⟩
      rw [Text.byteLength_append, Nat.add_assoc]

/-- Without an at sign nothing is found. -/
theorem Scan.eq_nil_of_notMem {found : List (Nat × Candidate)} (h : Scan column t found)
    (hat : '@' ∉ t) : found = [] := by
  induction h with
  | done => rfl
  | pass _ _ ih => exact ih fun hmem => hat (List.mem_cons_of_mem _ hmem)
  | take hread _ _ =>
    obtain ⟨piece, happend, hmem⟩ := exists_eq_append_of_readCandidate? hread
    rw [happend] at hat
    exact absurd (List.mem_append_left _ hmem) hat

/-! ## The first match -/

/-- A match begins behind the text `before`, and none begins further left. -/
structure FirstMatch (t before : Text) (candidate : Candidate) (left : Text) : Prop where
  isMatch : ∃ rest, t = before ++ rest ∧ readCandidate? rest = some (candidate, left)
  leftmost : ∀ passed rest, t = passed ++ rest → (readCandidate? rest).isSome →
    before.length ≤ passed.length

/-- A walk either finds nothing, as no match begins anywhere, or it finds the first match
first and goes on behind it. -/
theorem Scan.cases_firstMatch {found : List (Nat × Candidate)} (h : Scan column t found) :
    (found = [] ∧ ∀ passed rest, t = passed ++ rest → readCandidate? rest = none) ∨
      ∃ before candidate left start others, FirstMatch t before candidate left ∧
        found = (column + Text.byteLength before, candidate) :: others ∧
        Scan start left others := by
  induction h with
  | done =>
    refine .inl ⟨rfl, fun passed rest happend => ?_⟩
    rw [(List.append_eq_nil_iff.mp happend.symm).2]
    rfl
  | @pass column c rest found hnone _ ih =>
    -- No match begins here, so the places of matches all move by one character.
    rcases ih with ⟨rfl, hnowhere⟩ | ⟨before, candidate, left, start, others, hfirst, rfl, hothers⟩
    · refine .inl ⟨rfl, fun passed remaining happend => ?_⟩
      cases passed with
      | nil => exact (show c :: rest = remaining from happend) ▸ hnone
      | cons d passed => exact hnowhere passed remaining (List.cons.inj happend).2
    · obtain ⟨remaining, rfl, hread⟩ := hfirst.isMatch
      refine .inr ⟨c :: before, candidate, left, start, others, ⟨⟨remaining, rfl, hread⟩, ?_⟩, ?_,
        hothers⟩
      · intro passed behind happend hsome
        cases passed with
        | nil =>
          rw [← show c :: (before ++ remaining) = behind from happend, hnone] at hsome
          cases hsome
        | cons d passed =>
          exact Nat.succ_le_succ (hfirst.leftmost passed behind (List.cons.inj happend).2 hsome)
      · rw [Text.byteLength_cons, Nat.add_assoc]
  | @take column piece left candidate found hread hothers _ =>
    exact .inr ⟨[], candidate, left, _, found, ⟨⟨_, rfl, hread⟩, fun _ _ _ _ => Nat.zero_le _⟩, rfl,
      hothers⟩

/-! ## Tags of lines -/

theorem mem_candidatesFrom_of_parse? (h : parse? text line = some tag) :
    ∃ column candidate, (column, candidate) ∈ candidatesFrom 0 0 text ∧
      candidate.tag? line column = some tag := by
  obtain ⟨⟨column, candidate⟩, hmem, htag⟩ := List.exists_of_findSome?_eq_some h
  exact ⟨column, candidate, hmem, htag⟩

/-- A tag is read off the line it is found on, at its column. -/
theorem exists_reads_of_parse? (h : parse? text line = some tag) :
    ∃ before t, text = before ++ t ∧ Reads t tag ∧ tag.line = line ∧
      tag.column = Text.byteLength before := by
  obtain ⟨column, candidate, hmem, htag⟩ := mem_candidatesFrom_of_parse? h
  obtain ⟨before, t, left, rfl, rfl, hread⟩ := (scan_candidatesFrom 0 text).exists_of_mem hmem
  obtain ⟨hline, hcolumn, -⟩ := Candidate.tag?_eq_some_iff.mp htag
  rw [Nat.zero_add] at hcolumn
  refine ⟨before, t, rfl, reads_iff.mpr ⟨candidate, left, hread, ?_⟩, hline, hcolumn⟩
  rw [hline, hcolumn, ← Nat.zero_add (Text.byteLength before)]
  exact htag

theorem candidatesFrom_append_of_isBlank {lead : Text}
    (hlead : ∀ c ∈ lead, Text.isBlank c = true) :
    candidatesFrom 0 column (lead ++ t) = candidatesFrom 0 (column + Text.byteLength lead) t := by
  induction lead generalizing column with
  | nil => rfl
  | cons c lead ih =>
    have hblank := hlead c List.mem_cons_self
    rw [List.cons_append, candidatesFrom, readCandidate?_cons_of_isBlank hblank]
    rw [ih fun d hd => hlead d (List.mem_cons_of_mem _ hd), Text.byteLength_cons, Nat.add_assoc]

/-- A tag that nothing but blanks stands in front of is the tag of its line. -/
theorem parse?_append_of_isBlank {lead : Text} (hlead : ∀ c ∈ lead, Text.isBlank c = true)
    (h : Reads t tag) (line : Nat) :
    parse? (lead ++ t) line = some { tag with line, column := Text.byteLength lead } := by
  have hplaced : Reads t { tag with line, column := Text.byteLength lead } := h
  obtain ⟨candidate, left, hread, htag⟩ := reads_iff.mp hplaced
  rw [parse?, candidatesFrom_append_of_isBlank hlead, Nat.zero_add]
  rcases (scan_candidatesFrom (Text.byteLength lead) t).cases_firstMatch with
    ⟨_, hnowhere⟩ | ⟨before, first, behind, start, others, hfirst, hfound, _⟩
  · rw [hnowhere [] t rfl] at hread
    cases hread
  · -- The match at the very beginning is the first one.
    have hbefore := hfirst.leftmost [] t rfl (by rw [hread]; rfl)
    obtain rfl := List.eq_nil_of_length_eq_zero (Nat.le_zero.mp hbefore)
    obtain ⟨rest, rfl, hmatch⟩ := hfirst.isMatch
    obtain ⟨rfl, _⟩ := Prod.mk.inj (Option.some.inj (hread.symm.trans hmatch))
    rw [hfound, List.findSome?_cons]
    simp only [Text.byteLength_nil, Nat.add_zero, htag]

theorem line_of_parse? (h : parse? text line = some tag) : tag.line = line := by
  obtain ⟨_, _, _, _, hline, _⟩ := exists_reads_of_parse? h
  exact hline

/-! ## Tags of documents -/

theorem line_of_mem_parseLines {lines : List Text} {number : Nat}
    (h : tag ∈ parseLines number lines) :
    number ≤ tag.line ∧ tag.line < number + lines.length := by
  induction lines generalizing number with
  | nil => cases h
  | cons text lines ih =>
    rcases List.mem_append.mp h with hhere | hlater
    · rw [line_of_parse? (Option.mem_toList.mp hhere)]
      exact ⟨Nat.le_refl _, Nat.lt_add_of_pos_right (Nat.succ_pos _)⟩
    · have := ih hlater
      rw [List.length_cons]
      omega

theorem exists_parse?_of_mem_parseLines {lines : List Text} {number : Nat}
    (h : tag ∈ parseLines number lines) :
    ∃ index text, lines[index]? = some text ∧ tag.line = number + index ∧
      parse? text tag.line = some tag := by
  induction lines generalizing number with
  | nil => cases h
  | cons text lines ih =>
    rcases List.mem_append.mp h with hhere | hlater
    · have hparse := Option.mem_toList.mp hhere
      exact ⟨0, text, rfl, line_of_parse? hparse, by rwa [line_of_parse? hparse]⟩
    · obtain ⟨index, text', hindex, hline, hparse⟩ := ih hlater
      exact ⟨index + 1, text', hindex, by rw [hline, Nat.add_assoc, Nat.add_comm 1], hparse⟩

/-- A line has one tag at most, so tags come with growing lines. -/
theorem pairwise_line_parseLines (number : Nat) (lines : List Text) :
    (parseLines number lines).Pairwise (·.line < ·.line) := by
  induction lines generalizing number with
  | nil => exact .nil
  | cons text lines ih =>
    rw [parseLines, List.pairwise_append]
    refine ⟨?_, ih _, ?_⟩
    · cases parse? text number with
      | none => exact .nil
      | some tag => exact List.pairwise_singleton _ _
    · intro first hfirst later hlater
      rw [line_of_parse? (Option.mem_toList.mp hfirst)]
      exact (line_of_mem_parseLines hlater).1

end Tag

namespace Document

variable (d : Document)

theorem pairwise_line_tags : d.tags.Pairwise (·.line < ·.line) :=
  Tag.pairwise_line_parseLines 0 d.lines.toList

theorem line_lt_lineCount_of_mem_tags {d : Document} {tag : Tag} (h : tag ∈ d.tags) :
    tag.line < d.lineCount := by
  have := (Tag.line_of_mem_parseLines h).2
  rwa [Nat.zero_add] at this

/-- A tag of a document is read off its line, at its column. -/
theorem exists_reads_of_mem_tags {d : Document} {tag : Tag} (h : tag ∈ d.tags) :
    ∃ before t, d.line tag.line = before ++ t ∧ Tag.Reads t tag ∧
      tag.column = Text.byteLength before := by
  obtain ⟨index, text, hindex, hline, hparse⟩ := Tag.exists_parse?_of_mem_parseLines h
  obtain ⟨before, t, htext, hreads, -, hcolumn⟩ := Tag.exists_reads_of_parse? hparse
  refine ⟨before, t, ?_, hreads, hcolumn⟩
  rw [line, hline, Nat.zero_add, ← Array.getElem?_toList, hindex]
  exact htext

end Document

end LineGuard
