/-
# Lines in front of a document

Lines may be put in front of a document without a change to what is found out about it,
except that everything lies further down. Two things must be true of these lines. No tag
stands on them, for a tag without an end would reach into the document; and no block is
open behind them, for the document would begin inside it.

An analysis looks back from a line to tags only, and the tags of the longer document are
those of the shorter one. So the stages follow one another: the kinds of the lines, the
tags, their scopes, the activations with the documentation blocks of context tags, and the
last activation in force on each line. On the lines in front nothing has taken effect.
-/

import LineGuard.Proofs.Analysis.Locality
import LineGuard.Proofs.Scope.Shift

namespace LineGuard

/-! ## Lines and kinds -/

/-- Lines that carry no tag, and behind which no block is open. -/
structure Neutral (comments : CommentSyntax) (lead : List Text) : Prop where
  untagged : Tag.parseLines 0 lead = []
  closed : LineKind.stateAfter comments .outside lead = .outside

namespace Document

variable {lead : List Text} {d d' : Document}

/-- A document of the same language that consists of some lines and the lines of another
document behind them. -/
structure Prepends (lead : List Text) (d d' : Document) : Prop where
  language_eq : d'.language = d.language
  lines_eq : d'.lines.toList = lead ++ d.lines.toList

theorem toList_kinds (d : Document) :
    d.kinds.toList = LineKind.classifyAll d.comments .outside d.lines.toList := by
  rw [d.kinds_eq, d.lines_eq, comments]

theorem Prepends.comments_eq (h : Prepends lead d d') : d'.comments = d.comments := by
  rw [comments, comments, h.language_eq]

theorem Prepends.kinds_eq (h : Prepends lead d d') (hlead : Neutral d.comments lead) :
    d'.kinds.toList = LineKind.classifyAll d.comments .outside lead ++ d.kinds.toList := by
  rw [toList_kinds, toList_kinds, h.lines_eq, h.comments_eq, LineKind.classifyAll_append,
    hlead.closed]

theorem Prepends.shiftedBy (h : Prepends lead d d') (hlead : Neutral d.comments lead)
    (hnonempty : 0 < d.lineCount) : d.ShiftedBy lead.length d' where
  nonempty := hnonempty
  language_eq := h.language_eq
  lineCount_eq := by
    rw [lineCount, lineCount, ← Array.length_toList, ← Array.length_toList, h.lines_eq,
      List.length_append]
  line_eq number := by
    rw [line, line, ← Array.getElem?_toList, ← Array.getElem?_toList, h.lines_eq,
      List.getElem?_append_right (Nat.le_add_right _ _), Nat.add_sub_cancel_left]
  kind_eq number := by
    have hlength := LineKind.length_classifyAll d.comments .outside lead
    rw [kind, kind, ← Array.getElem?_toList, ← Array.getElem?_toList, h.kinds_eq hlead,
      List.getElem?_append_right (hlength ▸ Nat.le_add_right _ _), hlength,
      Nat.add_sub_cancel_left]

end Document

namespace Text

/-- A line that is ended by a line feed comes first. It must not hold a line feed itself,
and a carriage return at its end would belong to the line ending. -/
theorem lines_append_feed {line : Text} (hfeed : '\n' ∉ line) (hreturn : line.getLast? ≠ some '\r')
    (rest : Text) : lines (line ++ '\n' :: rest) = line :: lines rest := by
  induction line with
  | nil => rfl
  | cons c line ih =>
    have hc : c ≠ '\n' := fun h => hfeed (h ▸ List.mem_cons_self)
    have hnext : ∀ more, c = '\r' → line ++ '\n' :: rest = '\n' :: more → False := by
      intro more hc hmore
      cases line with
      | nil => exact hreturn (congrArg some hc)
      | cons next line =>
        obtain rfl : next = '\n' := (List.cons.inj hmore).1
        exact hfeed (List.mem_cons_of_mem c List.mem_cons_self)
    have hrest : lines (line ++ '\n' :: rest) = line :: lines rest := by
      cases line with
      | nil => rfl
      | cons next line =>
        apply ih (fun hmem => hfeed (List.mem_cons_of_mem c hmem))
        rwa [List.getLast?_cons_cons] at hreturn
    rw [List.cons_append, lines, hrest]
    · exact hc
    · exact hnext

/-- Lines that are each ended by a line feed come first. -/
theorem lines_unlines_append {lead : List Text}
    (hlead : ∀ line ∈ lead, '\n' ∉ line ∧ line.getLast? ≠ some '\r') (rest : Text) :
    lines (unlines lead ++ rest) = lead ++ lines rest := by
  induction lead with
  | nil => rfl
  | cons line lead ih =>
    have hline := hlead line List.mem_cons_self
    have hrest := ih fun other hother => hlead other (List.mem_cons_of_mem line hother)
    rw [unlines] at hrest
    rw [unlines, List.flatMap_cons, List.append_assoc, List.append_assoc, List.singleton_append,
      lines_append_feed hline.1 hline.2, hrest, List.cons_append]

end Text

/-- Any lines can be put in front of any document. -/
theorem Document.prepends_ofText {lead : List Text}
    (hlead : ∀ line ∈ lead, '\n' ∉ line ∧ line.getLast? ≠ some '\r') (source : Text)
    (language : Option Text) :
    (ofText source language).Prepends lead (ofText (Text.unlines lead ++ source) language) where
  language_eq := rfl
  lines_eq := Text.lines_unlines_append hlead source

/-! ## Tags -/

namespace Tag

theorem parse?_add (text : Text) (offset line : Nat) :
    parse? text (offset + line) = (parse? text line).map (·.shift offset) := by
  rw [parse?, parse?, List.map_findSome?]
  apply congrArg (List.findSome? · (candidatesFrom 0 0 text))
  funext found
  obtain ⟨column, candidate⟩ := found
  show candidate.tag? (offset + line) column = (candidate.tag? line column).map _
  rw [Candidate.tag?, Candidate.tag?, Option.map_map]
  rfl

theorem parseLines_add (offset number : Nat) (lines : List Text) :
    parseLines (offset + number) lines = (parseLines number lines).map (·.shift offset) := by
  induction lines generalizing number with
  | nil => rfl
  | cons text rest ih =>
    rw [parseLines, parseLines, List.map_append, parse?_add, Nat.add_assoc, ih]
    cases parse? text number <;> rfl

end Tag

theorem Document.Prepends.tags_eq {lead : List Text} {d d' : Document} (h : d.Prepends lead d')
    (hlead : Neutral d.comments lead) : d'.tags = d.tags.map (·.shift lead.length) := by
  rw [tags, h.lines_eq, Tag.parseLines_append, hlead.untagged, List.nil_append, Nat.add_comm 0,
    Tag.parseLines_add, tags]

/-! ## Activations -/

def Frame.shift (offset : Nat) (frame : Frame) : Frame :=
  { frame with tagLine := offset + frame.tagLine, bound := frame.bound.map (offset + ·) }

theorem Frame.expiredAt_shift (offset line : Nat) (frame : Frame) :
    (frame.shift offset).expiredAt (offset + line) = frame.expiredAt line := by
  rw [expiredAt, expiredAt, shift, Option.any_map]
  apply congrArg (Option.any · frame.bound)
  funext bound
  exact decide_eq_decide.mpr Nat.add_lt_add_iff_left

/-- The same rule, owed to a tag further down. -/
def Rule.shift (offset : Nat) (rule : Rule) : Rule :=
  { rule with sourceLine := rule.sourceLine.map (offset + ·) }

namespace Activation

def shift (offset : Nat) (a : Activation) : Activation where
  startLine := offset + a.startLine
  frame := a.frame.shift offset

variable {offset : Nat} {d d' : Document} (tags : List Tag)

theorem contextLimit_shift (h : d.ShiftedBy offset d') (scope : Scope) :
    contextLimit d' (scope.shift offset) = offset + contextLimit d scope := by
  obtain ⟨last, hlast, hlast'⟩ := h.exists_lastLine?
  rw [contextLimit, contextLimit, hlast, hlast', Scope.shift]
  cases scope.endLine with
  | none => rfl
  | some stop => exact Nat.add_min_add_left ..

/-- The documentation behind a scope is followed along the same lines. -/
theorem contextEnd_shift (h : d.ShiftedBy offset d') (scope : Scope) :
    contextEnd d' (tags.map (·.shift offset)) (scope.shift offset) =
      offset + contextEnd d tags scope := by
  have hcontinues : (fun line => !(tags.map (·.shift offset)).any (·.line == line) &&
      d'.isDocumentation line) ∘ (offset + ·) =
      fun line => !tags.any (·.line == line) && d.isDocumentation line := by
    funext line
    rw [Function.comp_apply, List.any_map, h.isDocumentation_eq]
    simp only [Function.comp_def, Tag.shift, add_beq_add_left]
  rw [contextEnd, contextEnd, contextEndFrom, contextEndFrom, Nat.add_sub_add_right,
    Nat.add_sub_add_right, contextLimit_shift h]
  simp only [Scope.shift]
  rw [Nat.add_sub_add_left, Nat.add_assoc, ← List.map_add_range', List.takeWhile_map, hcontinues,
    List.getLast?_map]
  generalize List.getLast? _ = last
  cases last <;> rfl

theorem ofTag_shift (h : d.ShiftedBy offset d') (tag : Tag) (scope : Scope) :
    ofTag d' (tags.map (·.shift offset)) (tag.shift offset) (scope.shift offset) =
      (ofTag d tags tag scope).shift offset := by
  have hbound : (if tag.permission.isContext then some (offset + contextEnd d tags scope)
      else (scope.shift offset).endLine) =
        (if tag.permission.isContext then some (contextEnd d tags scope)
          else scope.endLine).map (offset + ·) := by
    split <;> rfl
  rw [ofTag, contextEnd_shift tags h]
  exact congrArg (fun bound => Activation.mk _ ⟨_, _, _, bound⟩) hbound

theorem noLaterThan_shift (a b : Activation) :
    (a.shift offset).noLaterThan (b.shift offset) = a.noLaterThan b := by
  rw [Bool.eq_iff_iff, noLaterThan_iff, noLaterThan_iff]
  simp only [shift, Frame.shift]
  omega

/-- Being moved down alike, activations keep their order. -/
theorem inOrder_shift (h : d.ShiftedBy offset d') (scopes : List Scope) (target : Target) :
    inOrder d' (tags.map (·.shift offset)) (scopes.map (·.shift offset)) target =
      (inOrder d tags scopes target).map (·.shift offset) := by
  rw [inOrder, inOrder, List.map_mergeSort fun a _ b _ => (noLaterThan_shift a b).symm]
  rw [List.zip_map, List.filter_map, List.map_map, List.map_map]
  apply congrArg (List.mergeSort · noLaterThan)
  apply congrFun
  apply congrArg
  funext placed
  exact ofTag_shift tags h placed.1 placed.2

theorem inForce_shift (a : Activation) (later : List Activation) (line : Nat) :
    (a.shift offset).inForce (later.map (·.shift offset)) (offset + line) =
      a.inForce later line := by
  have hstarted : (fun b : Activation => decide (b.startLine ≤ offset + line)) ∘ shift offset =
      fun b => decide (b.startLine ≤ line) :=
    funext fun _ => decide_eq_decide.mpr Nat.add_le_add_iff_left
  rw [inForce, inForce, List.any_map, hstarted]
  simp only [shift, Frame.expiredAt_shift, Nat.add_le_add_iff_left]
  rfl

theorem lastInForce?_shift (activations : List Activation) (line : Nat) :
    lastInForce? (offset + line) (activations.map (·.shift offset)) =
      (lastInForce? line activations).map (·.shift offset) := by
  induction activations with
  | nil => rfl
  | cons a later ih =>
    rw [List.map_cons, lastInForce?, lastInForce?, ih, inForce_shift, Option.map_or]
    split <;> rfl

end Activation

/-! ## Rules and grants -/

/-- The same grants, further down. -/
def LineGrants.shift (offset : Nat) (grants : LineGrants) : LineGrants :=
  { grants with line := offset + grants.line }

namespace Analysis

variable {options : Options} {table : LanguageTable} {lead : List Text} {d d' : Document}

theorem textScope_shift {offset : Nat} (h : d.ShiftedBy offset d') (tag : Tag) :
    textScope options table d' (tag.shift offset) = (textScope options table d tag).shift offset :=
  Resolver.resolve_shift rfl h

variable (h : d.Prepends lead d') (hlead : Neutral d.comments lead) (hnonempty : 0 < d.lineCount)

include h hlead hnonempty

theorem map_textScope_shift :
    d'.tags.map (textScope options table d') =
      (d.tags.map (textScope options table d)).map (·.shift lead.length) := by
  rw [h.tags_eq hlead, List.map_map, List.map_map]
  apply List.map_congr_left
  intro tag _
  exact textScope_shift (h.shiftedBy hlead hnonempty) tag

theorem inOrder_eq (target : Target) :
    Activation.inOrder d' d'.tags (d'.tags.map (textScope options table d')) target =
      (Activation.inOrder d d.tags (d.tags.map (textScope options table d)) target).map
        (·.shift lead.length) := by
  rw [map_textScope_shift h hlead hnonempty, h.tags_eq hlead,
    Activation.inOrder_shift d.tags (h.shiftedBy hlead hnonempty)]

/-- What governs a line governs it further down. -/
theorem textRule_shift (line : Nat) (target : Target) :
    textRule options table d' (lead.length + line) target =
      (textRule options table d line target).shift lead.length := by
  rw [textRule, textRule, inOrder_eq h hlead hnonempty, Activation.lastInForce?_shift,
    Region.ruleOf, Region.ruleOf]
  cases Activation.lastInForce? line _ <;> rfl

/-- No tag governs the lines in front. -/
theorem textRule_eq_ofDefault {line : Nat} (hline : line < lead.length) (target : Target) :
    textRule options table d' line target = .ofDefault (options.defaults.get target) := by
  have hlater : ∀ a ∈ Activation.inOrder d' d'.tags (d'.tags.map (textScope options table d'))
      target, line < a.startLine := by
    rw [inOrder_eq h hlead hnonempty]
    intro a ha
    obtain ⟨b, _, rfl⟩ := List.mem_map.mp ha
    exact Nat.lt_add_right _ hline
  rw [textRule, Activation.lastInForce?_eq_none_of_lt hlater]
  rfl

theorem grantsOf_shift (line : Nat) :
    grantsOf (lead.length + line) (textRule options table d' (lead.length + line)) =
      (grantsOf line (textRule options table d line)).shift lead.length := by
  rw [grantsOf, textRule_shift h hlead hnonempty, textRule_shift h hlead hnonempty]
  rfl

theorem grantsOf_eq_default {line : Nat} (hline : line < lead.length) :
    grantsOf line (textRule options table d' line) =
      ⟨line, ⟨options.defaults.ai, false⟩, ⟨options.defaults.human, false⟩⟩ := by
  rw [grantsOf, textRule_eq_ofDefault h hlead hnonempty hline,
    textRule_eq_ofDefault h hlead hnonempty hline]
  rfl

omit h hlead hnonempty

/-- An analysis without a tree, by the rules of the lines. -/
theorem exists_ofText_lines_eq (options : Options) (table : LanguageTable) (d : Document) :
    ∃ a, ofText options table d = .ok a ∧ a.tags = d.tags ∧
      a.scopes = d.tags.map (textScope options table d) ∧
      a.permissions.lines =
        (List.range d.lineCount).map fun line => grantsOf line (textRule options table d line) := by
  obtain ⟨a, hok, htags, hscopes, hlength, _⟩ := exists_ofText_eq_ok options table d
  obtain ⟨_, hok', hgrants⟩ := exists_ofText_getElem? options table d
  obtain rfl := Except.ok.inj (hok'.symm.trans hok)
  refine ⟨_, hok, htags, hscopes, ?_⟩
  apply List.ext_getElem?
  intro line
  by_cases hline : line < d.lineCount
  · rw [hgrants line hline, List.getElem?_map, List.getElem?_range hline, Option.map_some]
  · have hbehind : d.lineCount ≤ line := Nat.le_of_not_lt hline
    rw [List.getElem?_eq_none (hlength ▸ hbehind), List.getElem?_eq_none (by simpa using hbehind)]

/-- Lines in front of a document that carry no tag and leave no block open move its analysis
down, and change nothing else about it. They have the default permissions themselves. -/
theorem exists_ofText_shift (options : Options) (table : LanguageTable)
    (h : d.Prepends lead d') (hlead : Neutral d.comments lead) (hnonempty : 0 < d.lineCount) :
    ∃ a a', ofText options table d = .ok a ∧ ofText options table d' = .ok a' ∧
      a'.tags = a.tags.map (·.shift lead.length) ∧
      a'.scopes = a.scopes.map (·.shift lead.length) ∧
      a'.permissions.lines =
        ((List.range lead.length).map fun line =>
          ⟨line, ⟨options.defaults.ai, false⟩, ⟨options.defaults.human, false⟩⟩) ++
        a.permissions.lines.map (·.shift lead.length) := by
  obtain ⟨a, hok, htags, hscopes, hlines⟩ := exists_ofText_lines_eq options table d
  obtain ⟨a', hok', htags', hscopes', hlines'⟩ := exists_ofText_lines_eq options table d'
  refine ⟨a, a', hok, hok', ?_, ?_, ?_⟩
  · rw [htags', htags, h.tags_eq hlead]
  · rw [hscopes', hscopes, map_textScope_shift h hlead hnonempty]
  · rw [hlines', hlines, (h.shiftedBy hlead hnonempty).lineCount_eq, List.range_add,
      List.map_append, List.map_map, List.map_map]
    congr 1
    · apply List.map_congr_left
      intro line hline
      exact grantsOf_eq_default h hlead hnonempty (List.mem_range.mp hline)
    · apply List.map_congr_left
      intro line _
      exact grantsOf_shift h hlead hnonempty line

/-- A docstring of two lines, a comment, and a string that is closed behind code. -/
def leadingLines : List Text :=
  ["\"\"\"What this is", "about.\"\"\"", "# A note", "t = \"\"\"a", "b\"\"\""].map (·.toList)

/-- A decorated function under a tag, with documentation inside it, and a count. -/
def decoratedDocument : Document :=
  .ofText ("# @guard:ai:n.func\n@cached\ndef f(a):\n".toList ++
    "    # @guard:human:context\n    # why\n    return a\ny = 2  # @guard:ai:w.1\n\nz = 3".toList)
    (some "python".toList)

/-- The same function behind the leading lines. -/
def precededDocument : Document :=
  .ofText (Text.unlines leadingLines ++ decoratedDocument.source) (some "python".toList)

theorem exists_ofText_shift_decorated :
    decoratedDocument.Prepends leadingLines precededDocument ∧
      Neutral decoratedDocument.comments leadingLines ∧ 0 < decoratedDocument.lineCount ∧
      ∃ a a', ofText .standard LanguageTable.builtin decoratedDocument = .ok a ∧
        ofText .standard LanguageTable.builtin precededDocument = .ok a' ∧
        a'.tags = a.tags.map (·.shift 5) ∧ a'.scopes = a.scopes.map (·.shift 5) ∧
        a'.permissions.lines =
          ((List.range 5).map fun line => ⟨line, ⟨.read, false⟩, ⟨.write, false⟩⟩) ++
          a.permissions.lines.map (·.shift 5) := by
  have hprepends : decoratedDocument.Prepends leadingLines precededDocument :=
    Document.prepends_ofText (by decide +kernel) _ _
  have hneutral : Neutral decoratedDocument.comments leadingLines :=
    ⟨by decide +kernel, by decide +kernel⟩
  have hnonempty : 0 < decoratedDocument.lineCount := by decide +kernel
  exact ⟨hprepends, hneutral, hnonempty, exists_ofText_shift _ _ hprepends hneutral hnonempty⟩

end Analysis

end LineGuard
