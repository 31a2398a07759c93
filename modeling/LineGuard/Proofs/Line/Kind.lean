/-
# The kind of one line

Lines are classified one after the other, and each passes on what it leaves open. The kind
of a line is therefore a matter of two things, what its text holds and what the lines in
front of it leave open.

The simplest case is a line outside any block that begins with a comment mark of the
language: all of it is comment. What is cut off at the end of such a line, which is nothing
but blanks, could not make a mark of it, nor a directive.
-/

import LineGuard.Document
import LineGuard.Proofs.Text.Piece

namespace LineGuard

/-! ## One line among others -/

theorem LineKind.getElem?_classifyAll (comments : CommentSyntax) (state : BlockState)
    (lines : List Text) (index : Nat) :
    (classifyAll comments state lines)[index]? = lines[index]?.map fun text =>
      (classify comments (stateAfter comments state (lines.take index)) text).1 := by
  induction lines generalizing state index with
  | nil => rfl
  | cons line rest ih =>
    cases index with
    | zero => rfl
    | succ index => exact ih (classify comments state line).2 index

namespace Document

variable {d : Document} {line : Nat}

/-- What the lines in front of a line leave open. -/
def stateBefore (d : Document) (line : Nat) : BlockState :=
  LineKind.stateAfter d.comments .outside (d.lines.toList.take line)

theorem lt_lineCount_of_line_ne_nil (h : d.line line ≠ []) : line < d.lineCount := by
  by_contra hpast
  exact h (line_eq_nil (Nat.le_of_not_lt hpast))

theorem kind_eq_classify (h : line < d.lineCount) :
    d.kind line = (LineKind.classify d.comments (d.stateBefore line) (d.line line)).1 := by
  have hkinds : d.kinds.toList = LineKind.classifyAll d.comments .outside d.lines.toList := by
    rw [d.kinds_eq, d.lines_eq]
    rfl
  have hline : d.lines[line]? = some d.lines[line] := Array.getElem?_eq_getElem h
  rw [kind, ← Array.getElem?_toList, hkinds, LineKind.getElem?_classifyAll, Array.getElem?_toList,
    Document.line, hline]
  rfl

end Document

/-! ## Comment marks -/

namespace CommentSyntax

variable {comments : CommentSyntax} {t rest blanks : Text}

/-- What tells a directive from a comment: the letters of its name, or the opening of an
attribute. -/
def tellsDirective (c : Char) : Bool := c.isAlpha || "![".toList.contains c

theorem isDirective_append (hseam : Text.Stops tellsDirective rest) :
    isDirective (t ++ rest) = isDirective t := by
  have hword : (t ++ rest).takeWhile Char.isAlpha = t.takeWhile Char.isAlpha := by
    have hstops : Text.Stops Char.isAlpha rest := hseam.mono fun c hc => by simp [tellsDirective, hc]
    rw [List.takeWhile_append, hstops.takeWhile_eq_nil, List.append_nil]
    split
    · next hall => exact (List.takeWhile_prefix Char.isAlpha).eq_of_length hall |>.symm
    · rfl
  rw [isDirective, isDirective, hword, Text.startsWith_append (hseam.contains (by decide)),
    Text.startsWith_append (hseam.contains (by decide))]

theorem isDirective_append_of_isBlank (hblanks : ∀ c ∈ blanks, Text.isBlank c = true) :
    isDirective (t ++ blanks) = isDirective t := by
  apply isDirective_append
  intro c hc
  have hblank := hblanks c (List.mem_of_head? hc)
  rw [tellsDirective, Bool.or_eq_false_iff]
  constructor
  · by_contra halpha
    rw [Bool.not_eq_false, Text.isAlpha_iff, Text.isUpper_iff, Text.isLower_iff] at halpha
    simp only [Text.isBlank, Bool.or_eq_true, Bool.and_eq_true, decide_eq_true_eq,
      beq_iff_eq] at hblank
    omega
  · rw [List.contains_eq_mem, decide_eq_false_iff_not]
    exact Text.notMem_of_isBlank (by decide) c hblank

/-- Which mark it can be is told by the first character. -/
theorem startsComment_cons (comments : CommentSyntax) (c : Char) (t : Text) :
    comments.startsComment (c :: t) =
      if c = '/' then Text.startsWith ['/'] t
      else if c = '-' then Text.startsWith ['-'] t && comments.doubleDash
      else if c = '#' then
        match comments.hash with
        | .always => true
        | .unlessDirective => !isDirective t
        | .never => false
      else false := by
  by_cases hslash : c = '/'
  · subst hslash
    cases t with
    | nil => rfl
    | cons d t =>
      rcases eq_or_ne d '/' with rfl | hd
      · rfl
      · simp [startsComment, Text.startsWith, List.isPrefixOf, hd, hd.symm]
  · by_cases hdash : c = '-'
    · subst hdash
      cases t with
      | nil => rfl
      | cons d t =>
        rcases eq_or_ne d '-' with rfl | hd
        · rfl
        · simp [startsComment, Text.startsWith, List.isPrefixOf, hd, hd.symm]
    · by_cases hhash : c = '#'
      · subst hhash
        rfl
      · simp [startsComment, hslash, hdash, hhash]

theorem startsComment_append_of_isBlank (hblanks : ∀ c ∈ blanks, Text.isBlank c = true) :
    comments.startsComment (t ++ blanks) = comments.startsComment t := by
  cases t with
  | nil =>
    cases blanks with
    | nil => rfl
    | cons c blanks =>
      have hblank := hblanks c List.mem_cons_self
      have hne {mark : Char} (hmark : Text.isBlank mark = false) : c ≠ mark := by
        rintro rfl
        rw [hblank] at hmark
        cases hmark
      rw [List.nil_append, startsComment_cons, if_neg (hne (by decide)), if_neg (hne (by decide)),
        if_neg (hne (by decide))]
      rfl
  | cons c t =>
    rw [List.cons_append, startsComment_cons, startsComment_cons,
      isDirective_append_of_isBlank hblanks,
      Text.startsWith_append_of_isBlank (by decide) hblanks,
      Text.startsWith_append_of_isBlank (by decide) hblanks]

/-- Blanks at the end do not matter to what begins a comment. -/
theorem startsComment_trimEnd (comments : CommentSyntax) (t : Text) :
    comments.startsComment (Text.trimEnd t) = comments.startsComment t := by
  obtain ⟨blanks, hblanks, happend⟩ := Text.exists_eq_trimEnd_append t
  calc
    comments.startsComment (Text.trimEnd t)
      = comments.startsComment (Text.trimEnd t ++ blanks) :=
        (startsComment_append_of_isBlank hblanks).symm
    _ = comments.startsComment t := congrArg _ happend.symm

/-- A text that begins with the mark of a line comment opens no block. -/
theorem blockOpening?_of_startsComment (h : comments.startsComment t = true) :
    LineKind.blockOpening? t = none := by
  unfold startsComment at h
  split at h
  · rfl
  · rfl
  · rfl
  · cases h

end CommentSyntax

/-! ## Lines that are comment throughout -/

namespace Document

/-- A line outside any block that begins, its leading blanks aside, with the mark of a line
comment. -/
structure IsLineComment (d : Document) (line : Nat) : Prop where
  outside : d.stateBefore line = .outside
  startsComment : d.comments.startsComment (Text.trimStart (d.line line)) = true

variable {d : Document} {line : Nat}

theorem IsLineComment.kind_eq (h : d.IsLineComment line) : d.kind line = .comment := by
  have hmark : d.comments.startsComment (Text.trim (d.line line)) = true := by
    rw [Text.trim, CommentSyntax.startsComment_trimEnd]
    exact h.startsComment
  have hnonempty : Text.trim (d.line line) ≠ [] := by
    intro hempty
    rw [hempty] at hmark
    cases hmark
  have hline : line < d.lineCount := by
    refine lt_lineCount_of_line_ne_nil fun hempty => hnonempty ?_
    rw [hempty]
    rfl
  rw [kind_eq_classify hline, h.outside, LineKind.classify, LineKind.classifyOutside,
    CommentSyntax.blockOpening?_of_startsComment hmark]
  simp [hnonempty, hmark]

end Document

end LineGuard
