/-
# The lines of a construct

A construct is measured downwards from its header, line by line, and where the measuring
stops it ends. So its lines come in order: the header ends no earlier than it starts, the
construct no earlier than its header, and the body no later than the construct. All of them
are lines of the document, because measuring never reads past its end; text that closes
nothing runs to the last line of code and not beyond.

The one step back is the line in front of a brace that stands alone. It is not taken
further than the header.
-/

import LineGuard.Proofs.Scope.Placement

namespace LineGuard

theorem Document.lt_lineCount_of_isCode {d : Document} {line : Nat} (h : d.isCode line = true) :
    line < d.lineCount := by
  by_contra hpast
  rw [isCode, kind_eq_blank (Nat.le_of_not_lt hpast)] at h
  cases h

namespace Construct

/-- The lines of a construct are in order, from its header to the end of a document. -/
structure LiesIn (header lineCount : Nat) (c : Construct) : Prop where
  header_le_headerEnd : header ≤ c.headerEnd
  headerEnd_le_last : c.headerEnd ≤ c.last
  last_lt : c.last < lineCount
  body_le_last : ∀ span, c.bodySpan? = some span → span.last ≤ c.last

variable {header line close lineCount : Nat} {opening : Opening} {s : Listing}

theorem liesIn_statement (hheader : header ≤ line) (hline : line < lineCount) :
    (statement header line).LiesIn header lineCount where
  header_le_headerEnd := hheader
  headerEnd_le_last := Nat.le_refl _
  last_lt := hline
  body_le_last _ hspan := nomatch hspan

theorem liesIn_ofBraces (hheader : header ≤ opening.line) (hopening : opening.line ≤ close)
    (hclose : close < lineCount) : (ofBraces header opening close).LiesIn header lineCount where
  header_le_headerEnd := by
    rw [ofBraces]
    split
    · exact Nat.le_max_right _ _
    · exact hheader
  headerEnd_le_last := by
    rw [ofBraces]
    split
    · exact Nat.max_le.mpr ⟨Nat.le_trans (Nat.sub_le _ _) hopening, Nat.le_trans hheader hopening⟩
    · exact hopening
  last_lt := hclose
  body_le_last span hspan := by
    obtain rfl := Option.some.inj hspan
    dsimp only [ofBraces]
    split
    · exact Nat.max_le.mpr ⟨hopening, Nat.le_refl _⟩
    · next hbehind =>
      simp only [Bool.or_eq_true, beq_iff_eq, not_or] at hbehind
      exact Nat.max_le.mpr ⟨Nat.lt_of_le_of_ne hopening hbehind.2, Nat.le_refl _⟩

namespace Listing

/-! ## Measuring -/

/-- What is measured from a line of a document lies in the document. -/
theorem liesIn_measure (s : Listing) (hheader : header < s.document.lineCount) :
    (s.measure header).LiesIn header s.document.lineCount := by
  have hshape := s.hasShape_measure header
  generalize s.measure header = c at hshape
  cases hshape with
  | statement hline =>
    obtain ⟨hle, hcount⟩ := bounds_of_mem_measured hline
    exact liesIn_statement hle (hcount hheader)
  | braces hfirst hclose hordered =>
    exact liesIn_ofBraces (bounds_of_mem_measured hfirst).1 hordered
      ((bounds_of_mem_measured hclose).2 hheader)
  | indented hline hbody =>
    have hrun := isDeeperRun_of_indentedBody? hbody
    refine ⟨(bounds_of_mem_measured hline).1,
      Nat.le_trans (Nat.le_of_lt hrun.lt_first) hrun.first_le_last, hrun.visible_last.lt_lineCount,
      fun span hspan => ?_⟩
    obtain rfl := Option.some.inj hspan
    exact Nat.max_le.mpr ⟨hrun.first_le_last, Nat.le_refl _⟩
  | keyword hclose =>
    have hend := isFirstEnd_of_keywordEnd? hclose
    refine ⟨Nat.le_refl _, Nat.le_of_lt hend.lt_close,
      Document.lt_lineCount_of_isCode hend.isCode, fun span hspan => ?_⟩
    obtain rfl := Option.some.inj hspan
    exact Nat.max_le.mpr ⟨hend.lt_close, Nat.sub_le _ _⟩

end Listing

/-! ## Searching -/

/-- The part that a keyword names ends with the construct at the latest. -/
theorem LiesIn.last_of_part? {keyword : Keyword} {c : Construct} {start : Nat} {span : Span}
    (h : c.LiesIn header lineCount) (hstart : start ≤ header)
    (hpart : { c with start }.part? keyword = some span) : span.last ≤ c.last := by
  have hheader := Nat.le_trans hstart h.header_le_headerEnd
  cases keyword with
  | signature =>
    obtain rfl := Option.some.inj hpart
    exact Nat.max_le.mpr ⟨Nat.le_trans hheader h.headerEnd_le_last, h.headerEnd_le_last⟩
  | body => exact h.body_le_last span hpart
  | function | classLike | block | statement | expression =>
    obtain rfl := Option.some.inj hpart
    exact Nat.max_le.mpr ⟨Nat.le_trans hheader h.headerEnd_le_last, Nat.le_refl _⟩

/-- A search through the text finds nothing that goes on behind the end of the document. -/
theorem last_lt_of_locate? {q : Query} {span : Span} (h : locate? q = some span) :
    span.last < q.document.lineCount := by
  obtain ⟨c, hc, hpart⟩ := Option.bind_eq_some_iff.mp h
  obtain ⟨line, -, start, -, hstart, hcode, -, rfl⟩ := Listing.exists_measure_of_searchLines hc
  have hline : line < q.document.lineCount := Document.lt_lineCount_of_isCode hcode
  have hlies := (Listing.ofQuery q).liesIn_measure hline
  exact Nat.lt_of_le_of_lt (hlies.last_of_part? hstart hpart) hlies.last_lt

end Construct

end LineGuard
