/-
# How far a search looks

A search through the text looks at a window of lines behind the tag and stops at the first
line that gives a construct. The window bounds where a construct may start. It does not bound
the construct: what is measured from its header line reaches as far as it reaches.

So the lines of a longer window are those of a shorter one and some more, and whatever was
found among the former is found again, with the decorators that were met on the way to it. A
longer window places tags that a shorter one leaves open, and moves none.
-/

import LineGuard.Language.Builtin
import LineGuard.Scope.Resolver
import LineGuard.Tag.Grammar
import Mathlib.Tactic.SplitIfs

namespace LineGuard

/-- A longer window looks at the same lines first. -/
theorem Query.searchLines_prefix (q : Query) {window : Nat} (h : q.window ≤ window) :
    q.searchLines <+: { q with window }.searchLines := by
  have hcount :
      min (q.searchStart + q.window) (q.document.lastLine?.getD 0) + 1 - q.searchStart ≤
        min (q.searchStart + window) (q.document.lastLine?.getD 0) + 1 - q.searchStart := by
    omega
  obtain ⟨added, hadded⟩ := Nat.exists_eq_add_of_le hcount
  have hlines : { q with window }.searchLines =
      List.range' q.searchStart
        (min (q.searchStart + q.window) (q.document.lastLine?.getD 0) + 1 - q.searchStart +
          added) :=
    congrArg (List.range' q.searchStart) hadded
  rw [hlines, ← List.range'_append_1]
  exact List.prefix_append _ _

namespace Construct

variable {s : Listing} {keyword : Keyword} {lines : List Nat} {c : Construct}

/-- What is found among some lines is found when more lines follow. -/
theorem Listing.firstConstruct?_append {decorators : Option Nat}
    (h : s.firstConstruct? keyword decorators lines = some c) (more : List Nat) :
    s.firstConstruct? keyword decorators (lines ++ more) = some c := by
  induction lines generalizing decorators with
  | nil => cases h
  | cons line rest ih =>
    rw [firstConstruct?] at h
    rw [List.cons_append, firstConstruct?]
    split_ifs at h ⊢ with hcode hdecorator
    · exact ih h
    · exact ih h
    · cases hconstruct : s.construct? keyword line with
      | some construct => rwa [hconstruct] at h
      | none =>
        rw [hconstruct] at h
        exact ih h

theorem locate?_of_window_le {q : Query} {span : Span} (h : locate? q = some span) {window : Nat}
    (hle : q.window ≤ window) : locate? { q with window } = some span := by
  obtain ⟨c, hfound, hpart⟩ := Option.bind_eq_some_iff.mp h
  obtain ⟨more, hlines⟩ := q.searchLines_prefix hle
  have hfound' := Listing.firstConstruct?_append hfound more
  rw [hlines] at hfound'
  exact Option.bind_eq_some_iff.mpr ⟨c, hfound', hpart⟩

end Construct

namespace Resolver

variable {Node : Type} [DecidableEq Node]

/-- With a shorter window, a construct has the scope it has with a longer one or is not found. -/
theorem constructScope_of_window_le {r : Resolver Node} (htree : r.tree = none) (q : Query)
    {window : Nat} (hle : q.window ≤ window) :
    r.constructScope q = r.constructScope { q with window } ∨
      r.constructScope q = .openEnded q.tagLine .unresolved := by
  have hplace (q : Query) : r.place? q = (r.placeByText? q).map (·, .heuristic) := by
    rw [place?, placeByTree?, htree]
    rfl
  by_cases hinline : (q.isInline && q.keyword == .signature) = true
  · rw [constructScope, constructScope, if_pos hinline, if_pos hinline]
    exact .inl rfl
  · rw [constructScope, constructScope, if_neg hinline, if_neg hinline, hplace, hplace]
    cases hplaced : r.placeByText? q with
    | none => exact .inr rfl
    | some span =>
      rw [placeByText?] at hplaced
      split_ifs at hplaced with htext
      rw [placeByText?, if_pos htext, Construct.locate?_of_window_le hplaced hle]
      exact .inl rfl

/-- Without a syntax tree, a scope with an end keeps its place when the window grows, and what
a longer window does not find a shorter one does not find either. -/
theorem resolve_of_window_le (table : LanguageTable) (readsText : Bool) (d : Document) (tag : Tag)
    {window window' : Nat} (hle : window ≤ window') :
    let scope :=
      (Resolver.mk table (none : Option (SyntaxTree Node)) readsText window).resolve d tag
    let scope' :=
      (Resolver.mk table (none : Option (SyntaxTree Node)) readsText window').resolve d tag
    (scope.isBounded = true → scope' = scope) ∧
      (scope'.origin = .unresolved → scope.origin = .unresolved) := by
  intro scope scope'
  have hcases : scope = scope' ∨ scope = .openEnded tag.line .unresolved := by
    dsimp only [scope, scope', resolve]
    cases tag.reach with
    | unbounded => exact .inl rfl
    | lines count => exact .inl rfl
    | construct keyword added removed => exact constructScope_of_window_le rfl _ hle
  rcases hcases with hsame | hopen
  · exact ⟨fun _ => hsame.symm, fun hunresolved => hsame ▸ hunresolved⟩
  · refine ⟨fun hbounded => ?_, fun _ => congrArg Scope.origin hopen⟩
    rw [hopen] at hbounded
    cases hbounded

/-- A function under a decorator. Its header is the third line behind the tag. -/
def cachedFunction : Document :=
  .ofText "# @guard:ai:n.func\n@cached\n\ndef f(a):\n    b = a\n\n    return b\nx = 1".toList
    (some "python".toList)

def cachedFunctionTag : Tag := ⟨0, 0, .ai, none, .deny, .construct .function [] []⟩

/-- Places by the text of a window. -/
def withinWindow (window : Nat) : Resolver Nat := ⟨.builtin, none, true, window⟩

/-- The largest machine word. -/
def widestWindow : Nat := 18446744073709551615

theorem resolve_of_window_le_cachedFunction :
    cachedFunctionTag ∈ cachedFunction.tags ∧
      (2 ≤ widestWindow ∧
        (withinWindow 2).resolve cachedFunction cachedFunctionTag = ⟨0, 0, some 6, .heuristic⟩ ∧
        (withinWindow widestWindow).resolve cachedFunction cachedFunctionTag =
          ⟨0, 0, some 6, .heuristic⟩) ∧
      (0 ≤ 1 ∧
        ((withinWindow 1).resolve cachedFunction cachedFunctionTag).origin = .unresolved ∧
        ((withinWindow 0).resolve cachedFunction cachedFunctionTag).origin = .unresolved) := by
  have hplaced : (withinWindow 2).resolve cachedFunction cachedFunctionTag =
      ⟨0, 0, some 6, .heuristic⟩ := by decide +kernel
  have hopen : ((withinWindow 1).resolve cachedFunction cachedFunctionTag).origin =
      .unresolved := by decide +kernel
  have hlonger : 2 ≤ widestWindow := by decide
  have hsame : (withinWindow widestWindow).resolve cachedFunction cachedFunctionTag =
      (withinWindow 2).resolve cachedFunction cachedFunctionTag :=
    (resolve_of_window_le .builtin true cachedFunction cachedFunctionTag hlonger).1
      (congrArg Scope.isBounded hplaced)
  exact ⟨by decide +kernel, ⟨hlonger, hplaced, hsame.trans hplaced⟩, Nat.zero_le 1, hopen,
    (resolve_of_window_le .builtin true cachedFunction cachedFunctionTag (Nat.zero_le 1)).2 hopen⟩

end Resolver

end LineGuard
