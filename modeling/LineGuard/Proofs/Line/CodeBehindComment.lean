/-
# Code behind a closed comment

The kind of a line is decided by what is open in front of it and by what it begins with. Where
a comment is closed on a line and code stands behind it, neither shows the code. A line that
begins with a comment which it closes is comment, one on which an open comment is closed is
documentation, and what the rest of the line holds is not looked at.

So the code on such a line passes for documentation wherever documentation is asked for. A
documentation block in front of the line takes it in, and a search for a construct goes past
it. Only the next lines are not touched, since the comment is closed.
-/

import LineGuard.Construct.Locate
import LineGuard.Proofs.Line.Block
import LineGuard.Proofs.Region.Activation
import LineGuard.Tag.Grammar

namespace LineGuard

/-! ## The line by itself -/

namespace LineKind

/-- Text that begins with an ASCII letter or digit, which no comment does. -/
def BeginsCode (t : Text) : Prop := ∃ c, t.head? = some c ∧ c.isAlphanum = true

/-- A line on which a comment is closed with code behind it, and what is open in front of the
line. -/
inductive ClosesBeforeCode : BlockState → Text → Prop where
  | comment {within behind : Text} (hwithin : Text.includes "*/".toList within = false)
      (hcode : BeginsCode behind) :
      ClosesBeforeCode .outside ("/*".toList ++ (within ++ ("*/".toList ++ ' ' :: behind)))
  | markup {within behind : Text} (hwithin : Text.includes "-->".toList within = false)
      (hcode : BeginsCode behind) :
      ClosesBeforeCode .outside ("<!--".toList ++ (within ++ ("-->".toList ++ ' ' :: behind)))
  /-- The comment was opened on an earlier line. -/
  | opened {within behind : Text} (hwithin : Text.includes "*/".toList within = false)
      (hcode : BeginsCode behind) :
      ClosesBeforeCode (.documentation "*/".toList) (within ++ ("*/".toList ++ ' ' :: behind))

variable {comments : CommentSyntax} {state : BlockState} {close behind line : Text}

theorem ClosesBeforeCode.ne_nil (h : ClosesBeforeCode state line) : line ≠ [] := by
  cases h <;> simp

theorem includes_within (close within behind : Text) :
    Text.includes close (within ++ (close ++ behind)) = true :=
  Text.includes_iff.mpr ⟨within, behind, List.append_assoc _ _ _⟩

/-- A comment that is closed on the line it begins makes all of the line comment. -/
theorem classify_of_opens {mark within : Text} (hmark : mark ≠ [])
    (hvisible : mark.any Text.isBlank = false)
    (hopens : ∀ rest, Opens close rest (mark ++ rest)) :
    classify comments .outside (mark ++ (within ++ (close ++ behind))) = (comment, .outside) := by
  have hclose := (hopens []).visible
  rw [classify, Text.trim_append hmark (by simpa using hvisible), classifyOutside_of_opens (hopens _),
    Text.includes_trimEnd hclose.1 hclose.2, includes_within]
  rfl

/-- The line of a closed comment is comment or documentation, whatever stands behind it, and
leaves nothing open. -/
theorem ClosesBeforeCode.classify_eq (h : ClosesBeforeCode state line) :
    classify comments state line =
      (if state = .outside then LineKind.comment else LineKind.docBlock, .outside) := by
  cases h with
  | comment => exact classify_of_opens (by decide) (by decide) .comment
  | markup => exact classify_of_opens (by decide) (by decide) .markup
  | opened =>
    rw [classify_documentation (by decide) (by decide), includes_within]
    rfl

end LineKind

/-! ## The line in its document -/

namespace Document

variable {d : Document} {line : Nat}

/-- A line that counts as documentation wherever that matters. -/
structure PassesForDocumentation (d : Document) (line : Nat) : Prop where
  isDocumentation_eq : d.isDocumentation line = true
  isCode_eq : d.isCode line = false
  /-- A documentation block that reaches the line in front takes this line in as well, unless a
  tag stands on it or the scope ends before it. -/
  le_contextEnd : ∀ (tags : List Tag) (scope : Scope), scope.startLine < line →
    (∀ tag ∈ tags, tag.line ≠ line) → (∀ last, scope.endLine = some last → line ≤ last) →
    line - 1 ≤ Activation.contextEnd d tags scope → line ≤ Activation.contextEnd d tags scope
  /-- A search for a construct goes past the line as if it were not among those searched. -/
  firstConstruct?_eq : ∀ s : Construct.Listing, s.document = d → ∀ keyword decorators lines,
    s.firstConstruct? keyword decorators (line :: lines) =
      s.firstConstruct? keyword decorators lines

theorem passesForDocumentation_of_isDocumentation (h : d.isDocumentation line = true) :
    d.PassesForDocumentation line := by
  have hcode : d.isCode line = false := by
    rw [isDocumentation] at h
    rw [isCode]
    cases hkind : d.kind line <;> rw [hkind] at h <;> first | rfl | cases h
  refine ⟨h, hcode, ?_, ?_⟩
  case refine_1 =>
    intro tags scope hstart htags hend hbefore
    refine Activation.le_contextEnd_iff.mpr (.inr ⟨hend, fun between hlt hle => ?_⟩)
    rcases Nat.eq_or_lt_of_le hle with rfl | hlt'
    · exact ⟨h, htags⟩
    · rcases Activation.le_contextEnd_iff.mp hbefore with hfirst | ⟨-, hdocumented⟩
      · omega
      · exact hdocumented between hlt (by omega)
  case refine_2 =>
    rintro s rfl keyword decorators lines
    rw [Construct.Listing.firstConstruct?, hcode]
    rfl

/-- A line with code behind a closed comment passes for documentation, whatever the marks of
line comments and whatever the code. The lines behind it are read as they are at the top of a
document. -/
theorem passesForDocumentation_of_closesBeforeCode (d : Document) (line : Nat)
    (h : LineKind.ClosesBeforeCode (d.stateBefore line) (d.line line)) :
    (∀ comments, LineKind.classify comments (d.stateBefore line) (d.line line) =
      (if d.stateBefore line = .outside then LineKind.comment else LineKind.docBlock, .outside)) ∧
    d.PassesForDocumentation line ∧ d.stateBefore (line + 1) = .outside := by
  have hline : line < d.lineCount := lt_lineCount_of_line_ne_nil h.ne_nil
  refine ⟨fun comments => h.classify_eq, passesForDocumentation_of_isDocumentation ?_, ?_⟩
  · rw [isDocumentation, kind_eq_classify hline, h.classify_eq]
    split <;> rfl
  · rw [stateBefore_succ hline, h.classify_eq]

/-- A context tag with a line for each way code can stand behind a closed comment, and a line
that is nothing but code. -/
def closedCommentDocument : Document :=
  .ofText
    "// @guard:ai:context\n/* note */ x = 1\n/* more\n*/ y = 2\n<!-- markup --> z = 3\nw = 4\n".toList
    (some "c".toList)

/-- The context tag on the first line. -/
def closedCommentTag : Tag := ⟨0, 0, .ai, none, .context, .unbounded⟩

theorem closesBeforeCode_closedCommentDocument :
    LineKind.ClosesBeforeCode (closedCommentDocument.stateBefore 1)
      (closedCommentDocument.line 1) ∧
    LineKind.ClosesBeforeCode (closedCommentDocument.stateBefore 3)
      (closedCommentDocument.line 3) ∧
    LineKind.ClosesBeforeCode (closedCommentDocument.stateBefore 4)
      (closedCommentDocument.line 4) := by
  have hcomment : LineKind.ClosesBeforeCode .outside "/* note */ x = 1".toList :=
    .comment (show Text.includes _ " note ".toList = false by decide) ⟨'x', rfl, by decide⟩
  have hopened : LineKind.ClosesBeforeCode (.documentation "*/".toList) "*/ y = 2".toList :=
    .opened (show Text.includes _ [] = false by decide) ⟨'y', rfl, by decide⟩
  have hmarkup : LineKind.ClosesBeforeCode .outside "<!-- markup --> z = 3".toList :=
    .markup (show Text.includes _ " markup ".toList = false by decide) ⟨'z', rfl, by decide⟩
  have hlines :
      (closedCommentDocument.stateBefore 1 = .outside ∧
        closedCommentDocument.line 1 = "/* note */ x = 1".toList) ∧
      (closedCommentDocument.stateBefore 3 = .documentation "*/".toList ∧
        closedCommentDocument.line 3 = "*/ y = 2".toList) ∧
      (closedCommentDocument.stateBefore 4 = .outside ∧
        closedCommentDocument.line 4 = "<!-- markup --> z = 3".toList) := by decide +kernel
  obtain ⟨hone, hthree, hfour⟩ := hlines
  rw [hone.1, hone.2, hthree.1, hthree.2, hfour.1, hfour.2]
  exact ⟨hcomment, hopened, hmarkup⟩

theorem passesForDocumentation_closedCommentDocument :
    (LineKind.ClosesBeforeCode (closedCommentDocument.stateBefore 1)
      (closedCommentDocument.line 1) ∧ closedCommentDocument.PassesForDocumentation 1) ∧
    (LineKind.ClosesBeforeCode (closedCommentDocument.stateBefore 3)
      (closedCommentDocument.line 3) ∧ closedCommentDocument.PassesForDocumentation 3) ∧
    LineKind.ClosesBeforeCode (closedCommentDocument.stateBefore 4)
      (closedCommentDocument.line 4) ∧ closedCommentDocument.PassesForDocumentation 4 := by
  obtain ⟨hcomment, hopened, hmarkup⟩ := closesBeforeCode_closedCommentDocument
  exact ⟨⟨hcomment, (passesForDocumentation_of_closesBeforeCode _ 1 hcomment).2.1⟩,
    ⟨hopened, (passesForDocumentation_of_closesBeforeCode _ 3 hopened).2.1⟩,
    hmarkup, (passesForDocumentation_of_closesBeforeCode _ 4 hmarkup).2.1⟩

/-- Lines with code behind a closed comment that are not code. The documentation of the tag in
front reaches over all of them, and a search for a statement goes past them to line five. -/
theorem not_isCode_of_closesBeforeCode :
    (LineKind.ClosesBeforeCode (closedCommentDocument.stateBefore 1)
        (closedCommentDocument.line 1) ∧
      LineKind.ClosesBeforeCode (closedCommentDocument.stateBefore 3)
        (closedCommentDocument.line 3) ∧
      LineKind.ClosesBeforeCode (closedCommentDocument.stateBefore 4)
        (closedCommentDocument.line 4)) ∧
    [1, 3, 4].map closedCommentDocument.isCode = [false, false, false] ∧
    closedCommentDocument.tags = [closedCommentTag] ∧
    Activation.contextEnd closedCommentDocument [closedCommentTag] ⟨0, 0, none, .unbounded⟩ = 4 ∧
    ((Construct.Listing.mk closedCommentDocument none).firstConstruct? .statement none
      [1, 2, 3, 4, 5]).map (·.start) = some 5 :=
  ⟨closesBeforeCode_closedCommentDocument, by decide +kernel⟩

end Document

end LineGuard
