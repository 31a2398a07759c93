/-
# Blocks from their opening to their end

A block that a line opens goes on to the first later line that ends it, and to the last line of
the document if none does. In between every line is of one kind, a blank line as well, and
behind the end the lines are classified as they are at the top of a document.

Blocks are of two sorts. Documentation is opened by what a line begins with and ended by the
mark that closes it. A string of the code is opened by a line of code that holds its quotes an
odd number of times, and ended by the next line that does. One fact carries both: what is open
between two lines stays the same up to the line that ends it.
-/

import LineGuard.Proofs.Line.Kind
import LineGuard.Proofs.Text.Piece

namespace LineGuard

/-! ## What opens a block -/

namespace LineKind

/-- A trimmed line that begins with the opening of a documentation block, the mark that closes
the block, and the text behind the opening. -/
inductive Opens : (close behind trimmed : Text) → Prop where
  | comment (behind : Text) : Opens "*/".toList behind ("/*".toList ++ behind)
  | markup (behind : Text) : Opens "-->".toList behind ("<!--".toList ++ behind)
  /-- One letter may stand in front of the quotes of a docstring. -/
  | docstring {mark quotes : Text} (hmark : mark = [] ∨ ∃ c ∈ stringMarks, mark = [c])
      (hquotes : quotes ∈ tripleQuotes) (behind : Text) :
      Opens quotes behind (mark ++ quotes ++ behind)

/-- The quotes that occur an odd number of times in a line, the double ones before the single. -/
inductive HoldsOdd : (quotes line : Text) → Prop where
  | double {line : Text} (hodd : Text.occurrences ['"', '"', '"'] line % 2 = 1) :
      HoldsOdd ['"', '"', '"'] line
  | single {line : Text} (heven : Text.occurrences ['"', '"', '"'] line % 2 = 0)
      (hodd : Text.occurrences ['\'', '\'', '\''] line % 2 = 1) :
      HoldsOdd ['\'', '\'', '\''] line

variable {close behind quotes trimmed : Text}

theorem mem_tripleQuotes :
    quotes ∈ tripleQuotes ↔ quotes = ['"', '"', '"'] ∨ quotes = ['\'', '\'', '\''] := by
  simp [tripleQuotes]

theorem findSome?_tripleQuotes_eq_some_iff {t : Text} :
    (tripleQuotes.findSome? fun quotes => (Text.after? quotes t).map (quotes, ·)) =
      some (close, behind) ↔ close ∈ tripleQuotes ∧ t = close ++ behind := by
  constructor
  · intro h
    obtain ⟨quotes, hquotes, hsome⟩ := List.exists_of_findSome?_eq_some h
    obtain ⟨rest, hrest, heq⟩ := Option.map_eq_some_iff.mp hsome
    obtain ⟨rfl, rfl⟩ := Prod.mk.inj heq
    exact ⟨hquotes, Text.after?_eq_some_iff.mp hrest⟩
  · rintro ⟨hclose, rfl⟩
    rcases mem_tripleQuotes.mp hclose with rfl | rfl
    · rfl
    · rfl

theorem docstring?_eq_some_iff : docstring? trimmed = some (close, behind) ↔
    ∃ mark, (mark = [] ∨ ∃ c ∈ stringMarks, mark = [c]) ∧ close ∈ tripleQuotes ∧
      trimmed = mark ++ close ++ behind := by
  cases trimmed with
  | nil =>
    refine iff_of_false (fun h => nomatch h) ?_
    rintro ⟨mark, -, hclose, hnil⟩
    have hempty : close = [] := (List.append_eq_nil_iff.mp (List.append_eq_nil_iff.mp hnil.symm).1).2
    subst hempty
    exact absurd hclose (by decide)
  | cons c rest =>
    rw [docstring?]
    by_cases hc : c ∈ stringMarks
    · rw [if_pos (List.contains_iff_mem.mpr hc), findSome?_tripleQuotes_eq_some_iff]
      constructor
      · rintro ⟨hclose, rfl⟩
        exact ⟨[c], .inr ⟨c, hc, rfl⟩, hclose, rfl⟩
      · rintro ⟨mark, rfl | ⟨d, -, rfl⟩, hclose, heq⟩
        · -- No letter is a quote, so the quotes do not begin with the letter.
          rcases mem_tripleQuotes.mp hclose with rfl | rfl <;>
            exact absurd ((List.cons.inj heq).1 ▸ hc) (by decide)
        · exact ⟨hclose, (List.cons.inj heq).2⟩
    · rw [if_neg (mt List.contains_iff_mem.mp hc), findSome?_tripleQuotes_eq_some_iff]
      constructor
      · rintro ⟨hclose, heq⟩
        exact ⟨[], .inl rfl, hclose, heq⟩
      · rintro ⟨mark, rfl | ⟨d, hd, rfl⟩, hclose, heq⟩
        · exact ⟨hclose, heq⟩
        · exact absurd ((List.cons.inj heq).1 ▸ hd) hc

theorem blockOpening?_eq_some_iff :
    blockOpening? trimmed = some (close, behind) ↔ Opens close behind trimmed := by
  constructor
  · intro h
    rw [blockOpening?, Option.or_eq_some_iff, Option.or_eq_some_iff] at h
    rcases h with hcomment | ⟨-, hmarkup | ⟨-, hdocstring⟩⟩
    · obtain ⟨rest, hrest, heq⟩ := Option.map_eq_some_iff.mp hcomment
      obtain ⟨rfl, rfl⟩ := Prod.mk.inj heq
      obtain rfl := Text.after?_eq_some_iff.mp hrest
      exact .comment rest
    · obtain ⟨rest, hrest, heq⟩ := Option.map_eq_some_iff.mp hmarkup
      obtain ⟨rfl, rfl⟩ := Prod.mk.inj heq
      obtain rfl := Text.after?_eq_some_iff.mp hrest
      exact .markup rest
    · obtain ⟨mark, hmark, hclose, rfl⟩ := docstring?_eq_some_iff.mp hdocstring
      exact .docstring hmark hclose behind
  · intro h
    cases h with
    | comment => rfl
    | markup => rfl
    | docstring hmark hquotes =>
      rename_i mark
      have hdocstring : docstring? (mark ++ close ++ behind) = some (close, behind) :=
        docstring?_eq_some_iff.mpr ⟨mark, hmark, hquotes, rfl⟩
      obtain ⟨c, rest, heq, hslash, hangle⟩ :
          ∃ c rest, mark ++ close ++ behind = c :: rest ∧ c ≠ '/' ∧ c ≠ '<' := by
        rcases hmark with rfl | ⟨c, hc, rfl⟩
        · rcases mem_tripleQuotes.mp hquotes with rfl | rfl <;>
            exact ⟨_, _, rfl, by decide, by decide⟩
        · refine ⟨c, _, rfl, ?_, ?_⟩ <;>
            · rintro rfl
              exact absurd hc (by decide)
      rw [blockOpening?, hdocstring, heq]
      simp [Text.after?, List.isPrefixOf?, hslash.symm, hangle.symm]

theorem find?_tripleQuotes_eq_some_iff {line : Text} :
    (tripleQuotes.find? fun quotes => Text.occurrences quotes line % 2 == 1) = some quotes ↔
      HoldsOdd quotes line := by
  rw [tripleQuotes, List.find?_cons, List.find?_cons, List.find?_nil]
  constructor
  · intro h
    split at h
    · next hdouble =>
      obtain rfl := Option.some.inj h
      exact .double (beq_iff_eq.mp hdouble)
    · next hdouble =>
      split at h
      · next hsingle =>
        obtain rfl := Option.some.inj h
        rw [beq_eq_false_iff_ne] at hdouble
        exact .single (by omega) (beq_iff_eq.mp hsingle)
      · cases h
  · rintro (hodd | ⟨heven, hodd⟩)
    · simp [hodd]
    · simp [heven, hodd]

theorem visible_of_mem_tripleQuotes (h : quotes ∈ tripleQuotes) :
    quotes ≠ [] ∧ quotes.any Text.isBlank = false := by
  rcases mem_tripleQuotes.mp h with rfl | rfl <;> decide

/-- No closing mark of a block is blank anywhere. -/
theorem Opens.visible (h : Opens close behind trimmed) :
    close ≠ [] ∧ close.any Text.isBlank = false := by
  cases h with
  | comment | markup => decide
  | docstring _ hquotes => exact visible_of_mem_tripleQuotes hquotes

theorem HoldsOdd.mem_tripleQuotes {line : Text} (h : HoldsOdd quotes line) :
    quotes ∈ tripleQuotes := by
  cases h <;> decide

theorem occurrences_trim_of_mem_tripleQuotes (h : quotes ∈ tripleQuotes) (line : Text) :
    Text.occurrences quotes (Text.trim line) = Text.occurrences quotes line :=
  Text.occurrences_trim (visible_of_mem_tripleQuotes h).1 (visible_of_mem_tripleQuotes h).2 line

theorem holdsOdd_trim {line : Text} : HoldsOdd quotes (Text.trim line) ↔ HoldsOdd quotes line := by
  have hdouble := occurrences_trim_of_mem_tripleQuotes (mem_tripleQuotes.mpr (.inl rfl)) line
  have hsingle := occurrences_trim_of_mem_tripleQuotes (mem_tripleQuotes.mpr (.inr rfl)) line
  rw [← find?_tripleQuotes_eq_some_iff, ← find?_tripleQuotes_eq_some_iff]
  simp only [tripleQuotes, List.find?_cons, List.find?_nil, hdouble, hsingle]

/-! ## One line -/

variable {comments : CommentSyntax}

theorem classifyOutside_of_opens (h : Opens close behind trimmed) :
    classifyOutside comments trimmed =
      if Text.includes close behind then (comment, .outside)
      else (docBlock, .documentation close) := by
  have hopening := blockOpening?_eq_some_iff.mpr h
  have hnonempty : trimmed ≠ [] := by
    rintro rfl
    cases hopening
  rw [classifyOutside, hopening, if_neg (by simpa using hnonempty)]

theorem classifyOutside_of_code (h : (classifyOutside comments trimmed).1 = code) :
    (classifyOutside comments trimmed).2 = openedByCode trimmed := by
  unfold classifyOutside at h ⊢
  split at h
  · cases h
  · next hnonempty =>
    rw [if_neg hnonempty]
    cases hopening : blockOpening? trimmed with
    | some opening =>
      simp only [hopening] at h
      split at h <;> cases h
    | none =>
      simp only [hopening] at h ⊢
      split at h
      · cases h
      · next hcode => rw [if_neg hcode]

theorem openedByCode_of_holdsOdd (h : HoldsOdd quotes trimmed) :
    openedByCode trimmed = .string quotes := by
  rw [openedByCode, find?_tripleQuotes_eq_some_iff.mpr h]

theorem classify_documentation (hclose : close ≠ []) (hvisible : close.any Text.isBlank = false)
    (line : Text) : classify comments (.documentation close) line =
      (docBlock, if Text.includes close line then .outside else .documentation close) := by
  rw [classify, Text.includes_trim hclose hvisible]

theorem classify_string (hquotes : quotes ∈ tripleQuotes) (line : Text) :
    classify comments (.string quotes) line =
      (code, if Text.occurrences quotes line % 2 == 1 then .outside else .string quotes) := by
  rw [classify, occurrences_trim_of_mem_tripleQuotes hquotes]

end LineKind

/-! ## From line to line -/

namespace Document

variable {d : Document} {first line : Nat}

theorem stateBefore_succ (h : line < d.lineCount) : d.stateBefore (line + 1) =
    (LineKind.classify d.comments (d.stateBefore line) (d.line line)).2 := by
  have hline : d.lines[line]? = some d.lines[line] := Array.getElem?_eq_getElem h
  rw [stateBefore, stateBefore, List.take_add_one, Array.getElem?_toList, hline, LineKind.stateAfter,
    List.foldl_append, Document.line, hline]
  rfl

/-- From a line on all lines are of one kind, up to the first later line that ends the block or
to the last line there is, and behind the line that ends it no block is open. -/
structure RunsFrom (d : Document) (first : Nat) (kind : LineKind) (ends : Text → Bool) :
    Prop where
  kind_eq : ∀ line < d.lineCount, first ≤ line →
    (∀ between, first < between → between < line → ends (d.line between) = false) →
    d.kind line = kind
  outside_behind : ∀ last < d.lineCount, first < last → ends (d.line last) = true →
    (∀ between, first < between → between < last → ends (d.line between) = false) →
    d.stateBefore (last + 1) = .outside

/-- Whatever makes each line of one kind and stays open until a line ends it runs on. -/
theorem runsFrom_of_steady {kind : LineKind} {state : BlockState} {ends : Text → Bool}
    (hfirst : d.kind first = kind) (hopened : d.stateBefore (first + 1) = state)
    (hsteady : ∀ text, LineKind.classify d.comments state text =
      (kind, if ends text then .outside else state)) :
    d.RunsFrom first kind ends := by
  have hstate (line : Nat) (hlater : first < line) (hline : line ≤ d.lineCount)
      (hbetween : ∀ between, first < between → between < line →
        ends (d.line between) = false) : d.stateBefore line = state := by
    induction line, hlater using Nat.le_induction with
    | base => exact hopened
    | succ line hlater ih =>
      rw [stateBefore_succ hline, ih (by omega) fun k hk hlt => hbetween k hk (by omega), hsteady,
        hbetween line hlater (by omega)]
      rfl
  constructor
  case kind_eq =>
    intro line hline hlater hbetween
    rcases Nat.eq_or_lt_of_le hlater with rfl | hlater
    · exact hfirst
    · rw [kind_eq_classify hline, hstate line hlater (Nat.le_of_lt hline) hbetween, hsteady]
  case outside_behind =>
    intro last hlast hlater hends hbetween
    rw [stateBefore_succ hlast, hstate last hlater (Nat.le_of_lt hlast) hbetween, hsteady, hends]
    rfl

/-- A line outside any block that opens documentation it does not close is the first of a run
of documentation, and a line of code that holds quotes an odd number of times is the first of
a run of code. -/
theorem runsFrom_of_outside (d : Document) (first : Nat) (houtside : d.stateBefore first = .outside) :
    (∀ close behind, LineKind.Opens close behind (Text.trim (d.line first)) →
      Text.includes close behind = false → d.RunsFrom first .docBlock (Text.includes close)) ∧
    (d.kind first = .code → ∀ quotes, LineKind.HoldsOdd quotes (d.line first) →
      d.RunsFrom first .code fun text => Text.occurrences quotes text % 2 == 1) := by
  constructor
  · intro close behind hopens hopen
    have hclassify : LineKind.classify d.comments .outside (d.line first) =
        (.docBlock, .documentation close) := by
      rw [LineKind.classify, LineKind.classifyOutside_of_opens hopens, hopen]
      rfl
    have hline : first < d.lineCount := by
      refine lt_lineCount_of_line_ne_nil fun hempty => ?_
      rw [hempty, ← LineKind.blockOpening?_eq_some_iff] at hopens
      cases hopens
    refine runsFrom_of_steady ?_ ?_ (LineKind.classify_documentation hopens.visible.1
      hopens.visible.2)
    · rw [kind_eq_classify hline, houtside, hclassify]
    · rw [stateBefore_succ hline, houtside, hclassify]
  · intro hcode quotes hodd
    have hline : first < d.lineCount := by
      by_contra hpast
      rw [kind_eq_blank (Nat.le_of_not_lt hpast)] at hcode
      cases hcode
    have hclassify := hcode
    rw [kind_eq_classify hline, houtside] at hclassify
    refine runsFrom_of_steady hcode ?_ (LineKind.classify_string hodd.mem_tripleQuotes)
    rw [stateBefore_succ hline, houtside, LineKind.classify,
      LineKind.classifyOutside_of_code hclassify,
      LineKind.openedByCode_of_holdsOdd (LineKind.holdsOdd_trim.mpr hodd)]

/-- A docstring and a string of the code that are both closed, and markup that is not. -/
def blockDocument : Document :=
  .ofText "x = 1\nr\"\"\"Doc\n\nend\"\"\" y\ns = '''raw\n\n''' + t\n<!-- note\n\n".toList none

theorem runsFrom_of_outside_blockDocument :
    (blockDocument.stateBefore 1 = .outside ∧
      blockDocument.RunsFrom 1 .docBlock (Text.includes ['"', '"', '"'])) ∧
    (blockDocument.stateBefore 4 = .outside ∧ blockDocument.kind 4 = .code ∧
      blockDocument.RunsFrom 4 .code fun text =>
        Text.occurrences ['\'', '\'', '\''] text % 2 == 1) ∧
    (blockDocument.stateBefore 7 = .outside ∧
      blockDocument.RunsFrom 7 .docBlock (Text.includes "-->".toList)) := by
  have hlines :
      (blockDocument.stateBefore 1 = .outside ∧
        Text.trim (blockDocument.line 1) = ['r'] ++ ['"', '"', '"'] ++ "Doc".toList) ∧
      (blockDocument.stateBefore 4 = .outside ∧ blockDocument.kind 4 = .code ∧
        blockDocument.line 4 = "s = '''raw".toList) ∧
      (blockDocument.stateBefore 7 = .outside ∧
        Text.trim (blockDocument.line 7) = "<!--".toList ++ " note".toList) := by
    decide +kernel
  obtain ⟨⟨hone, htrimOne⟩, ⟨hfour, hcode, htextFour⟩, hseven, htrimSeven⟩ := hlines
  have hdocstring : LineKind.Opens ['"', '"', '"'] "Doc".toList
      (Text.trim (blockDocument.line 1)) := by
    rw [htrimOne]
    exact .docstring (.inr ⟨'r', by decide, rfl⟩) (by decide) _
  have hstring : LineKind.HoldsOdd ['\'', '\'', '\''] (blockDocument.line 4) := by
    rw [htextFour]
    exact .single (by decide) (by decide)
  have hmarkup : LineKind.Opens "-->".toList " note".toList
      (Text.trim (blockDocument.line 7)) := by
    rw [htrimSeven]
    exact .markup _
  exact ⟨⟨hone, (runsFrom_of_outside _ _ hone).1 _ _ hdocstring (by decide)⟩,
    ⟨hfour, hcode, (runsFrom_of_outside _ _ hfour).2 hcode _ hstring⟩,
    hseven, (runsFrom_of_outside _ _ hseven).1 _ _ hmarkup (by decide)⟩

end Document

end LineGuard
