/-
# The text behind the lines

A document keeps the text it was read from, and no stage of an analysis looks at it again. Two
texts with the same lines are therefore analysed alike, and a report on one is a report on the
other. Line endings are what such texts may differ in.

Where constructs are looked for in the lines, the two documents are compared as a document and
the same one no lines further down. That asks for a first line; texts without lines are empty,
so there is only one of them.
-/

import LineGuard.Language.Builtin
import LineGuard.Proofs.Analysis.Faults
import LineGuard.Proofs.Scope.Shift
import LineGuard.Proofs.Text.LineEnding
import LineGuard.Rendering.Format
import LineGuard.Tree.Memory

namespace LineGuard

variable {Node : Type}

namespace Document

variable {d : Document} {source : Text} (h : Text.lines source = Text.lines d.source)

/-- The document with the same lines that another text has. -/
def withSource (d : Document) (source : Text) (h : Text.lines source = Text.lines d.source) :
    Document where
  source
  language := d.language
  lines := d.lines
  kinds := d.kinds
  lines_eq := h ▸ d.lines_eq
  kinds_eq := h ▸ d.kinds_eq

include h

theorem ofText_eq_withSource : ofText source d.language = d.withSource source h :=
  (eq_ofText (d.withSource source h)).symm

/-- A text without lines is empty, so nothing is changed. -/
theorem withSource_of_lineCount_eq_zero (hempty : d.lineCount = 0) : d.withSource source h = d := by
  have hlines : Text.lines d.source = [] := by
    rw [lineCount, d.lines_eq] at hempty
    simpa using hempty
  have hsource : source = d.source :=
    (Text.lines_eq_nil_iff.mp (h.trans hlines)).trans (Text.lines_eq_nil_iff.mp hlines).symm
  subst hsource
  rfl

theorem shiftedBy_withSource (hnonempty : 0 < d.lineCount) :
    d.ShiftedBy 0 (d.withSource source h) where
  nonempty := hnonempty
  language_eq := rfl
  lineCount_eq := (Nat.zero_add _).symm
  line_eq number := by
    rw [Nat.zero_add]
    rfl
  kind_eq number := by
    rw [Nat.zero_add]
    rfl

end Document

theorem Span.shift_zero (span : Span) : span.shift 0 = span := by
  simp [shift]

/-! ## One tag -/

namespace Resolver

variable {r : Resolver Node} {d : Document} {source : Text}
  (h : Text.lines source = Text.lines d.source) {keyword : Construct.Keyword}
  {added removed : List Text} {tag : Tag}

theorem placeByText?_withSource :
    r.placeByText? (r.query (d.withSource source h) tag keyword added removed) =
      r.placeByText? (r.query d tag keyword added removed) := by
  rcases Nat.eq_zero_or_pos d.lineCount with hempty | hnonempty
  · rw [Document.withSource_of_lineCount_eq_zero h hempty]
  · have hshift := d.shiftedBy_withSource h hnonempty
    have htag : tag.shift 0 = tag := by simp [Tag.shift]
    have hlocate := Query.locate?_shift (q := r.query d tag keyword added removed) hshift
    rw [← query_shift hshift, htag] at hlocate
    have hspans : (·.shift 0) = (id : Span → Span) := funext Span.shift_zero
    rw [placeByText?, placeByText?, hlocate, hspans, Option.map_id_fun, id]

theorem scopeFrom_withSource (placed : Option Span) :
    r.scopeFrom (r.query (d.withSource source h) tag keyword added removed) placed =
      r.scopeFrom (r.query d tag keyword added removed) placed := by
  rw [scopeFrom, scopeFrom, placeByText?_withSource]
  rfl

variable [DecidableEq Node]

theorem resolve_withSource : r.resolve (d.withSource source h) tag = r.resolve d tag := by
  rw [resolve, resolve]
  cases tag.reach with
  | unbounded => rfl
  | lines count => rfl
  | construct keyword added removed =>
    dsimp only
    rw [constructScope_eq, constructScope_eq, scopeFrom_withSource]
    rfl

variable {u : UnreliableTree Node} {asked : Nat}

theorem place_withSource :
    r.place u (d.withSource source h) asked tag = r.place u d asked tag := by
  rw [place, place]
  cases hreach : tag.reach with
  | construct keyword added removed =>
    simp only [placeConstruct, scopeFrom_withSource h]
    rfl
  | _ =>
    dsimp only
    rw [resolve_withSource]

theorem placeEach_withSource (tags : List Tag) :
    r.placeEach u (d.withSource source h) asked tags = r.placeEach u d asked tags := by
  induction tags generalizing asked with
  | nil => rfl
  | cons tag rest ih => rw [placeEach, placeEach, place_withSource, ih]

end Resolver

/-! ## The analysis -/

namespace Analysis

variable (options : Options) (table : LanguageTable) {d : Document} {source : Text}
  (h : Text.lines source = Text.lines d.source)

theorem ofScopes_withSource (scopes : List Scope) :
    ofScopes options (d.withSource source h) scopes = ofScopes options d scopes := rfl

theorem render_withSource (a : Analysis) (format : ReportFormat) :
    a.render (d.withSource source h) format = a.render d format := by
  cases format <;> rfl

variable [DecidableEq Node]

theorem ofDocument_withSource (tree : Option (SyntaxTree Node)) :
    ofDocument options table tree (d.withSource source h) = ofDocument options table tree d := by
  have hresolve : (resolver options table tree).resolve (d.withSource source h) =
      (resolver options table tree).resolve d :=
    funext fun _ => Resolver.resolve_withSource h
  rw [ofDocument_eq_ofScopes, ofDocument_eq_ofScopes, ofScopes_withSource, hresolve]
  rfl

theorem ofUnreliable_withSource (u : UnreliableTree Node) :
    ofUnreliable options table (d.withSource source h) u = ofUnreliable options table d u := by
  have hplacements : placements options table (d.withSource source h) u =
      placements options table d u :=
    Resolver.placeEach_withSource h d.tags
  rw [ofUnreliable, ofUnreliable, ofScopes_withSource, hplacements]

/-- A text without carriage returns has one analysis however its lines are ended, with a syntax
tree, without one, or with one that is unreliable; and each report on it is the same. -/
theorem exists_ofDocument_of_reends (options : Options) (table : LanguageTable)
    (language : Option Text) {source source' : Text} (hreturn : '\r' ∉ source)
    (hends : Text.Reends source source') (tree : Option (SyntaxTree Node))
    (u : UnreliableTree Node) :
    let d : Document := .ofText source language
    let d' : Document := .ofText source' language
    (∃ a, ofDocument options table tree d = .ok a ∧ ofDocument options table tree d' = .ok a ∧
        ∀ format, a.render d' format = a.render d format) ∧
      ∃ a, ofUnreliable options table d u = .ok a ∧ ofUnreliable options table d' u = .ok a ∧
        ∀ format, a.render d' format = a.render d format := by
  intro d d'
  have hlines : Text.lines source' = Text.lines d.source := hends.lines_eq hreturn
  have hd' : d' = d.withSource source' hlines := Document.ofText_eq_withSource hlines
  rw [hd', ofDocument_withSource, ofUnreliable_withSource, ofDocument_eq_ofScopes, ofUnreliable]
  have hrender (a : Analysis) (format : ReportFormat) :
      a.render (d.withSource source' hlines) format = a.render d format :=
    render_withSource hlines a format
  constructor
  · obtain ⟨a, hok, -⟩ := exists_ofScopes_eq_ok options d
      (d.tags.map ((resolver options table tree).resolve d))
    exact ⟨a, hok, hok, hrender a⟩
  · obtain ⟨a, hok, -⟩ := exists_ofScopes_eq_ok options d
      ((placements options table d u).map (·.scope))
    exact ⟨a, hok, hok, hrender a⟩

/-- A tag and a function, without a line feed at the end. -/
def unendedFunction : Text := "# @guard:ai:n.func\n\ndef f(a):\n    return a\nx = 1".toList

/-- The nodes of `unendedFunction`. -/
def unendedFunctionTree : MemoryTree :=
  (MemoryTree.root "module".toList ⟨0, 0, 4, 5⟩).add 0 (by decide)
    "function_definition".toList ⟨2, 0, 3, 12⟩

theorem exists_ofDocument_of_reends_unendedFunction :
    let d : Document := .ofText unendedFunction (some "python".toList)
    let returned : Document := .ofText unendedFunction.withReturns (some "python".toList)
    let ended : Document := .ofText (unendedFunction ++ ['\n']) (some "python".toList)
    let tree := unendedFunctionTree.toSyntaxTree
    ('\r' ∉ unendedFunction ∧ Text.Reends unendedFunction unendedFunction.withReturns ∧
        Text.Reends unendedFunction (unendedFunction ++ ['\n'])) ∧
      unendedFunction.withReturns =
        "# @guard:ai:n.func\r\n\r\ndef f(a):\r\n    return a\r\nx = 1".toList ∧
      d.tags.map ((resolver .standard .builtin (some tree)).resolve d) =
        [⟨0, 0, some 3, .syntaxTree⟩] ∧
      (∃ a, ofDocument .standard .builtin (some tree) d = .ok a ∧
        ofDocument .standard .builtin (some tree) returned = .ok a) ∧
      ∃ a, ofUnreliable .standard .builtin d (.steady tree) = .ok a ∧
        ofUnreliable .standard .builtin ended (.steady tree) = .ok a := by
  intro d returned ended tree
  have hreturn : '\r' ∉ unendedFunction := by decide
  have hfeed : Text.Reends unendedFunction (unendedFunction ++ ['\n']) :=
    .feed (by decide) (by decide)
  obtain ⟨⟨a, hok, hok', -⟩, -⟩ := exists_ofDocument_of_reends .standard .builtin
    (some "python".toList) hreturn .returns (some tree) (.steady tree)
  obtain ⟨-, b, hbok, hbok', -⟩ := exists_ofDocument_of_reends .standard .builtin
    (some "python".toList) hreturn hfeed (some tree) (.steady tree)
  exact ⟨⟨hreturn, .returns, hfeed⟩, by decide, by decide +kernel, ⟨a, hok, hok'⟩, b, hbok, hbok'⟩

end Analysis

end LineGuard
