/-
# Scopes further down

Wherever a document is read for the lines of a scope, lines are counted from the tag or
from a header, and nothing is read in front of them. A document whose lines reappear in
another, all the same number of lines further down and of the same kinds, is therefore read
alike there, and whatever is found lies that number of lines further down.

Two places need a second look. The line in front of a brace, or in front of a closing
`end`, is reckoned by taking one off, which does nothing on line zero; but there the result
is raised to the header at least, and that moves along. And the window behind a tag is cut
at the last line of the document, so the document must have one.
-/

import LineGuard.Scope.Resolver

namespace LineGuard

theorem add_beq_add_left (offset m n : Nat) : (offset + m == offset + n) = (m == n) := by
  rw [Bool.eq_iff_iff, beq_iff_eq, beq_iff_eq, Nat.add_left_cancel_iff]

/-- The same lines, further down. -/
def Span.shift (offset : Nat) (span : Span) : Span where
  first := offset + span.first
  last := offset + span.last
  first_le_last := Nat.add_le_add_left span.first_le_last offset

theorem Span.shift_between (offset first last : Nat) :
    (between first last).shift offset = between (offset + first) (offset + last) := by
  simp only [shift, between, Nat.add_max_add_left]

/-! ## Documents -/

namespace Document

/-- The lines of a document reappear in another one, further down and of the same kinds. -/
structure ShiftedBy (offset : Nat) (d d' : Document) : Prop where
  nonempty : 0 < d.lineCount
  language_eq : d'.language = d.language
  lineCount_eq : d'.lineCount = offset + d.lineCount
  line_eq : ∀ line, d'.line (offset + line) = d.line line
  kind_eq : ∀ line, d'.kind (offset + line) = d.kind line

namespace ShiftedBy

variable {offset : Nat} {d d' : Document} (h : d.ShiftedBy offset d')

include h

theorem exists_lastLine? :
    ∃ last, d.lastLine? = some last ∧ d'.lastLine? = some (offset + last) := by
  obtain ⟨last, hlast⟩ := Nat.exists_eq_succ_of_ne_zero (Nat.ne_of_gt h.nonempty)
  refine ⟨last, ?_, ?_⟩
  · rw [lastLine?, hlast]
  · rw [lastLine?, h.lineCount_eq, hlast]
    rfl

theorem isCode_eq (line : Nat) : d'.isCode (offset + line) = d.isCode line := by
  rw [isCode, isCode, h.kind_eq]

theorem isDocumentation_eq (line : Nat) :
    d'.isDocumentation (offset + line) = d.isDocumentation line := by
  rw [isDocumentation, isDocumentation, h.kind_eq]

theorem firstVisible?_eq (line : Nat) :
    d'.firstVisible? (offset + line) = d.firstVisible? line := by
  rw [firstVisible?, firstVisible?, h.line_eq]

theorem indentation_eq (line : Nat) : d'.indentation (offset + line) = d.indentation line := by
  rw [indentation, indentation, h.line_eq]

theorem hasCodeBefore_eq (line column : Nat) :
    d'.hasCodeBefore (offset + line) column = d.hasCodeBefore line column := by
  rw [hasCodeBefore, hasCodeBefore, h.line_eq]

end ShiftedBy

end Document

namespace Construct

variable {offset : Nat}

/-! ## Constructs -/

def Opening.shift (offset : Nat) (opening : Opening) : Opening :=
  { opening with line := offset + opening.line }

def Body.shift (offset : Nat) : Body → Body
  | .braces opening close => .braces (opening.shift offset) (offset + close)
  | .indented first last => .indented (offset + first) (offset + last)
  | .keyword close => .keyword (offset + close)

/-- The same construct, further down. -/
def shift (offset : Nat) (c : Construct) : Construct where
  start := offset + c.start
  headerEnd := offset + c.headerEnd
  body := c.body.map (·.shift offset)
  last := offset + c.last

/-- The line in front of a brace is never taken to be in front of the header. -/
theorem shift_ofBraces (header close : Nat) (opening : Opening) :
    (ofBraces header opening close).shift offset =
      ofBraces (offset + header) (opening.shift offset) (offset + close) := by
  have hheader : offset + max (opening.line - 1) header =
      max (offset + opening.line - 1) (offset + header) := by
    omega
  obtain ⟨line, isAlone⟩ := opening
  cases isAlone with
  | true => exact congrArg (Construct.mk _ · _ _) hheader
  | false => rfl

theorem hasBody_shift (c : Construct) : (c.shift offset).hasBody = c.hasBody := by
  rw [hasBody, hasBody, shift, Option.isSome_map]

/-- Whether a construct will do is not a matter of where it lies. -/
theorem filter_shift {suits : Construct → Bool} (hsuits : ∀ c, suits (c.shift offset) = suits c)
    (c? : Option Construct) :
    (c?.map (·.shift offset)).filter suits = (c?.filter suits).map (·.shift offset) := by
  rw [Option.filter_map]
  exact congrArg (fun suits => (c?.filter suits).map _) (funext hsuits)

theorem isBraces_shift (body : Body) : (body.shift offset).isBraces = body.isBraces := by
  cases body <;> rfl

theorem bodySpan?_shift (c : Construct) :
    (c.shift offset).bodySpan? = c.bodySpan?.map (·.shift offset) := by
  rw [bodySpan?, bodySpan?, shift, Option.map_map, Option.map_map]
  apply congrArg (Option.map · c.body)
  funext body
  cases body with
  | braces opening close =>
    simp only [Function.comp_apply, Body.shift, Opening.shift, add_beq_add_left]
    split
    · exact (Span.shift_between ..).symm
    · rw [Span.shift_between, Nat.add_assoc]
  | indented first last => exact (Span.shift_between ..).symm
  | keyword close =>
    -- On line zero nothing comes before the closing word, and the span has its first line only.
    simp only [Function.comp_apply, Body.shift, Span.between, Span.shift, Span.mk.injEq]
    omega

theorem part?_shift (c : Construct) (keyword : Keyword) :
    (c.shift offset).part? keyword = (c.part? keyword).map (·.shift offset) := by
  cases keyword with
  | body => exact c.bodySpan?_shift
  | _ => exact congrArg some (Span.shift_between ..).symm

/-! ## Brackets -/

namespace Depth

def shift (offset : Nat) (d : Depth) : Depth :=
  { d with opening := d.opening.map (·.shift offset) }

def Step.shift (offset : Nat) : Step → Step
  | .closed opening => .closed (opening.shift offset)
  | .inside depth => .inside (depth.shift offset)

theorem isSettled_shift (d : Depth) : (d.shift offset).isSettled = d.isSettled := by
  rw [isSettled, isSettled, shift, Option.isNone_map]

theorem read_shift (d : Depth) (line : Nat) (isAlone : Bool) (c : Char) :
    (d.shift offset).read (offset + line) isAlone c = (d.read line isAlone c).shift offset := by
  rw [read, read, isSettled_shift]
  split
  · rfl
  · split
    · rfl
    · split
      -- An opening brace is noted with its line, and a closing one gives that line back.
      · cases d.isSettled <;> rfl
      · split
        · cases hopening : d.opening with
          | none => simp only [shift, hopening, Option.map_none, Step.shift]
          | some opening =>
            simp only [shift, hopening, Option.map_some]
            split
            · rfl
            · simp only [Step.shift, shift, Option.map_some]
        · rfl

theorem readLine_shift (d : Depth) (line : Nat) (isAlone : Bool) (t : Text) :
    (d.shift offset).readLine (offset + line) isAlone t =
      (d.readLine line isAlone t).shift offset := by
  induction t generalizing d with
  | nil => rfl
  | cons c rest ih =>
    rw [readLine, readLine, read_shift]
    cases d.read line isAlone c with
    | closed opening => rfl
    | inside next => exact ih next

end Depth

/-! ## Listings -/

namespace Listing

/-- The same reading of a document and of one further down. -/
structure ShiftedBy (offset : Nat) (s s' : Listing) : Prop where
  document : s.document.ShiftedBy offset s'.document
  cut_eq : s'.cut = s.cut.map fun (line, column) => (offset + line, column)

namespace ShiftedBy

variable {s s' : Listing} (h : s.ShiftedBy offset s')

include h

theorem lexis_eq : s'.lexis = s.lexis := by
  rw [lexis, lexis, Document.comments, Document.comments, h.document.language_eq]

theorem text_eq (line : Nat) : s'.text (offset + line) = s.text line := by
  rw [text, text, h.document.line_eq, h.cut_eq]
  cases s.cut with
  | none => rfl
  | some cut => simp only [Option.map_some, Nat.add_left_cancel_iff]

theorem bare_eq (line : Nat) : s'.bare (offset + line) = s.bare line := by
  rw [bare, bare, h.lexis_eq, h.text_eq]

theorem linesAfter_eq (line : Nat) :
    s'.linesAfter (offset + line) = (s.linesAfter line).map (offset + ·) := by
  rw [linesAfter, linesAfter, h.document.lineCount_eq, List.map_add_range', Nat.add_assoc,
    Nat.add_sub_add_left]

theorem isCode_comp : s'.document.isCode ∘ (offset + ·) = s.document.isCode :=
  funext h.document.isCode_eq

theorem codeAfter_eq (line : Nat) :
    s'.codeAfter (offset + line) = (s.codeAfter line).map (offset + ·) := by
  rw [codeAfter, codeAfter, h.linesAfter_eq, List.filter_map, h.isCode_comp]

theorem braceFollows_eq (line : Nat) : s'.braceFollows (offset + line) = s.braceFollows line := by
  rw [braceFollows, braceFollows, h.linesAfter_eq, List.find?_map, h.isCode_comp, Option.any_map]
  apply congrArg (Option.any · _)
  funext next
  exact congrArg (Text.startsWith ['{'] <| Text.trimStart ·) (h.text_eq next)

theorem indentedBody?_eq (line base : Nat) :
    s'.indentedBody? (offset + line) base =
      (s.indentedBody? line base).map fun (first, last) => (offset + first, offset + last) := by
  have hvisible : (fun l => (s'.document.firstVisible? l).isSome) ∘ (offset + ·) =
      fun l => (s.document.firstVisible? l).isSome :=
    funext fun l => congrArg Option.isSome (h.document.firstVisible?_eq l)
  have hdeeper : (fun l => decide (base < s'.document.indentation l)) ∘ (offset + ·) =
      fun l => decide (base < s.document.indentation l) :=
    funext fun l => congrArg (decide <| base < ·) (h.document.indentation_eq l)
  rw [indentedBody?, indentedBody?, h.linesAfter_eq, List.filter_map, hvisible, List.takeWhile_map,
    hdeeper, List.head?_map, List.getLast?_map]
  generalize ((s.linesAfter line).filter fun l => (s.document.firstVisible? l).isSome).takeWhile
    (fun l => decide (base < s.document.indentation l)) = body
  cases body.head? <;> cases body.getLast? <;> rfl

theorem keywordEnd?_eq (header base : Nat) :
    s'.keywordEnd? (offset + header) base = (s.keywordEnd? header base).map (offset + ·) := by
  rw [keywordEnd?, keywordEnd?, h.codeAfter_eq, List.find?_map, Option.filter_map]
  have hindentation := h.document.indentation_eq
  have htext := h.text_eq
  simp only [Function.comp_def, hindentation, htext]

theorem settle?_eq (header line : Nat) (code : Text) :
    s'.settle? (offset + header) (offset + line) code =
      (s.settle? header line code).map (·.shift offset) := by
  rw [settle?, settle?, h.document.indentation_eq, h.braceFollows_eq, h.indentedBody?_eq,
    h.keywordEnd?_eq, add_beq_add_left]
  dsimp only
  split
  · cases s.indentedBody? line (s.document.indentation header) <;> rfl
  · split
    · rfl
    · split
      · cases s.keywordEnd? header (s.document.indentation header) <;> rfl
      · rfl

/-- Measuring depends on a header line only through the lines behind it, so it comes to the
same construct, further down. -/
theorem measureFrom_eq (header : Nat) (d : Depth) (lastCode : Nat) (lines : List Nat) :
    s'.measureFrom (offset + header) (d.shift offset) (offset + lastCode)
        (lines.map (offset + ·)) =
      (s.measureFrom header d lastCode lines).shift offset := by
  induction lines generalizing d lastCode with
  | nil =>
    rw [List.map_nil, measureFrom, measureFrom, Depth.shift]
    cases d.opening with
    | none => rfl
    | some opening => exact (shift_ofBraces ..).symm
  | cons line rest ih =>
    have hbehind : decide (offset + header < offset + line) = decide (header < line) :=
      decide_eq_decide.mpr Nat.add_lt_add_iff_left
    rw [List.map_cons, measureFrom, measureFrom, h.bare_eq, hbehind, Depth.readLine_shift]
    by_cases hempty : (s.bare line).isEmpty = true
    · simp only [hempty, if_true]
      exact ih d lastCode
    · simp only [hempty]
      cases d.readLine line _ (s.bare line) with
      | closed opening => exact (shift_ofBraces ..).symm
      | inside next =>
        simp only [Depth.Step.shift, Depth.isSettled_shift, h.settle?_eq]
        by_cases hsettled : next.isSettled = true
        · simp only [hsettled, if_true]
          cases s.settle? header line (s.bare line) with
          | some construct => rfl
          | none => exact ih next line
        · simp only [hsettled]
          exact ih next line

theorem measure_eq (header : Nat) :
    s'.measure (offset + header) = (s.measure header).shift offset := by
  rw [measure, measure, h.codeAfter_eq]
  exact h.measureFrom_eq header .outside header (header :: s.codeAfter header)

/-! ## Looking for constructs -/

theorem function?_eq (line : Nat) :
    s'.function? (offset + line) = (s.function? line).map (·.shift offset) := by
  have hbraces (c : Construct) :
      (c.shift offset).body.any Body.isBraces = c.body.any Body.isBraces := by
    rw [shift, Option.any_map]
    exact congrArg (Option.any · c.body) (funext isBraces_shift)
  rw [function?, function?, h.text_eq, h.measure_eq]
  split
  · rfl
  · split
    · exact filter_shift hbraces (some (s.measure line))
    · rfl

theorem block?_eq (line : Nat) :
    s'.block? (offset + line) = (s.block? line).map (·.shift offset) := by
  rw [block?, block?, h.measure_eq]
  exact filter_shift hasBody_shift (some (s.measure line))

theorem class?_eq (line : Nat) :
    s'.class? (offset + line) = (s.class? line).map (·.shift offset) := by
  rw [class?, class?, h.text_eq, h.block?_eq]
  split <;> rfl

theorem construct?_eq (keyword : Keyword) (line : Nat) :
    s'.construct? keyword (offset + line) = (s.construct? keyword line).map (·.shift offset) := by
  cases keyword with
  | function => exact h.function?_eq line
  | classLike => exact h.class?_eq line
  | signature =>
    rw [construct?, construct?, h.function?_eq, h.class?_eq, Option.map_or]
  | body =>
    rw [construct?, construct?, h.function?_eq, h.class?_eq, h.block?_eq, ← Option.map_or,
      ← Option.map_or, filter_shift hasBody_shift]
  | block => exact h.block?_eq line
  | statement | expression => exact congrArg some (h.measure_eq line)

/-- The first construct is found on the same line, further down, and takes its decorators
along. -/
theorem firstConstruct?_eq (keyword : Keyword) (decorators : Option Nat) (lines : List Nat) :
    s'.firstConstruct? keyword (decorators.map (offset + ·)) (lines.map (offset + ·)) =
      (s.firstConstruct? keyword decorators lines).map (·.shift offset) := by
  induction lines generalizing decorators with
  | nil => rfl
  | cons line rest ih =>
    rw [List.map_cons, firstConstruct?, firstConstruct?, h.document.isCode_eq, h.text_eq,
      h.construct?_eq]
    split
    · exact ih decorators
    · split
      · rw [← ih, Option.map_or, Option.map_some]
      · cases s.construct? keyword line with
        | none => exact ih none
        | some construct => cases decorators <;> rfl

end ShiftedBy

end Listing

end Construct

/-! ## Queries -/

namespace Query

/-- The same question about a document further down. -/
def shift (offset : Nat) (d' : Document) (q : Query) : Query :=
  { q with document := d', tagLine := offset + q.tagLine }

variable {offset : Nat} {d' : Document} {q : Query} (h : q.document.ShiftedBy offset d')

theorem searchStart_shift : (q.shift offset d').searchStart = offset + q.searchStart := by
  rw [searchStart, searchStart, shift]
  split <;> rfl

include h

theorem searchLines_shift : (q.shift offset d').searchLines = q.searchLines.map (offset + ·) := by
  obtain ⟨last, hlast, hlast'⟩ := h.exists_lastLine?
  rw [searchLines, searchLines, searchStart_shift, List.map_add_range']
  simp only [shift, hlast, hlast', Option.getD_some]
  rw [Nat.add_assoc, Nat.add_min_add_left, Nat.add_assoc offset, Nat.add_sub_add_left]

theorem ofQuery_shift :
    (Construct.Listing.ofQuery q).ShiftedBy offset (.ofQuery (q.shift offset d')) where
  document := h
  cut_eq := by
    rw [Construct.Listing.ofQuery, Construct.Listing.ofQuery, shift]
    dsimp only
    split <;> rfl

/-- The same construct is found, further down. -/
theorem locate?_shift :
    Construct.locate? (q.shift offset d') = (Construct.locate? q).map (·.shift offset) := by
  have hfirst := (ofQuery_shift h).firstConstruct?_eq q.keyword none q.searchLines
  rw [Construct.locate?, Construct.locate?, searchLines_shift h]
  show ((Construct.Listing.ofQuery (q.shift offset d')).firstConstruct? q.keyword
    ((none : Option Nat).map (offset + ·)) _).bind (·.part? q.keyword) = _
  rw [hfirst]
  cases (Construct.Listing.ofQuery q).firstConstruct? q.keyword none q.searchLines with
  | none => rfl
  | some construct => exact construct.part?_shift q.keyword

end Query

/-! ## Scopes -/

/-- The same tag, further down. -/
def Tag.shift (offset : Nat) (tag : Tag) : Tag := { tag with line := offset + tag.line }

/-- The same scope, further down. -/
def Scope.shift (offset : Nat) (scope : Scope) : Scope where
  tagLine := offset + scope.tagLine
  startLine := offset + scope.startLine
  endLine := scope.endLine.map (offset + ·)
  origin := scope.origin

theorem Scope.shift_bounded (offset tagLine : Nat) (span : Span) (origin : ScopeOrigin) :
    (bounded tagLine span origin).shift offset =
      bounded (offset + tagLine) (span.shift offset) origin := rfl

namespace Resolver

variable {Node : Type} {r : Resolver Node} {offset : Nat} {d d' : Document} {tag : Tag}

theorem governedSpan_shift (tagLine : Nat) (keyword : Construct.Keyword) (construct : Span) :
    governedSpan (offset + tagLine) keyword (construct.shift offset) =
      (governedSpan tagLine keyword construct).shift offset := by
  cases keyword with
  | body => rfl
  | _ =>
    simp only [governedSpan]
    rw [Span.shift_between, ← Nat.add_min_add_left]
    rfl

variable (h : d.ShiftedBy offset d')

include h

theorem query_shift (keyword : Construct.Keyword) (added removed : List Text) :
    r.query d' (tag.shift offset) keyword added removed =
      (r.query d tag keyword added removed).shift offset d' := by
  simp only [query, Query.shift, Tag.shift, h.language_eq, h.hasCodeBefore_eq]

theorem countedScope_shift (tagLine count : Nat) :
    countedScope d' (offset + tagLine) count = (countedScope d tagLine count).shift offset := by
  obtain ⟨last, hlast, hlast'⟩ := h.exists_lastLine?
  simp only [countedScope, hlast, hlast', Option.getD_some, Scope.shift_bounded, Span.shift_between,
    Nat.add_assoc, Nat.add_max_add_left, Nat.add_min_add_left]

omit h

variable [DecidableEq Node] (htree : r.tree = none)

include htree

theorem constructScope_shift {q : Query} (hq : q.document.ShiftedBy offset d') :
    r.constructScope (q.shift offset d') = (r.constructScope q).shift offset := by
  have hplace : r.place? (q.shift offset d') =
      (r.place? q).map fun (span, origin) => (span.shift offset, origin) := by
    simp only [place?, placeByTree?, placeByText?, htree, Query.locate?_shift hq]
    split
    · cases Construct.locate? q <;> rfl
    · rfl
  rw [constructScope, constructScope, hplace]
  by_cases hinline : (q.isInline && q.keyword == .signature) = true
  · rw [if_pos hinline]
    exact if_pos hinline
  · rw [if_neg hinline]
    refine (if_neg hinline).trans ?_
    cases r.place? q with
    | none => rfl
    | some placed => exact congrArg (Scope.bounded _ · _) (governedSpan_shift ..)

/-- Without a tree, a tag further down is given the same scope, further down. -/
theorem resolve_shift (h : d.ShiftedBy offset d') :
    r.resolve d' (tag.shift offset) = (r.resolve d tag).shift offset := by
  have hreach : (tag.shift offset).reach = tag.reach := rfl
  rw [resolve, resolve, hreach]
  cases tag.reach with
  | unbounded => rfl
  | lines count => exact countedScope_shift h tag.line count
  | construct keyword added removed =>
    dsimp only
    rw [query_shift h]
    exact constructScope_shift htree h

end Resolver

end LineGuard
