/-
# Where the text places a construct

A search through the text looks at the lines of its window only, and each of them
lies behind the tag or, for a tag that trails code, is the tag's own. What it finds
starts there: decorators lie in the window like the line they belong to, and the body
of a construct never starts in front of its header. So every scope found without a
syntax tree starts on the line of its tag, except that of a body, which may start
later.
-/

import LineGuard.Proofs.Construct.LayoutBody
import LineGuard.Proofs.Construct.Shape
import LineGuard.Scope.Resolver
import Mathlib.Data.List.Basic

namespace LineGuard

namespace Construct

/-! ## Bodies start behind headers -/

/-- The body of a construct, if it has one, does not start in front of a line. -/
def BodyFrom (first : Nat) (c : Construct) : Prop :=
  ∀ span, c.bodySpan? = some span → first ≤ span.first

variable {first header line last : Nat} {s : Listing}

theorem bodyFrom_statement : BodyFrom first (statement line last) := fun _ h => nomatch h

theorem bodyFrom_ofBraces {opening : Opening} (h : first ≤ opening.line) :
    BodyFrom first (ofBraces header opening last) := by
  intro span hspan
  simp only [bodySpan?, ofBraces, Option.map_some, Option.some.injEq] at hspan
  subst hspan
  split_ifs
  · exact h
  · exact Nat.le_succ_of_le h

namespace Listing

/-- The header line may be that of the opening brace, so that the body starts with it. -/
theorem bodyFrom_measure (s : Listing) (header : Nat) : BodyFrom header (s.measure header) := by
  have hshape := s.hasShape_measure header
  generalize s.measure header = c at hshape
  cases hshape with
  | statement hline => exact bodyFrom_statement
  | braces hfirst hclose hordered => exact bodyFrom_ofBraces (bounds_of_mem_measured hfirst).1
  | indented hline hbody =>
    intro span hspan
    obtain rfl := Option.some.inj hspan
    exact Nat.le_trans (bounds_of_mem_measured hline).1
      (Nat.le_of_lt (isDeeperRun_of_indentedBody? hbody).lt_first)
  | keyword hclose =>
    intro span hspan
    obtain rfl := Option.some.inj hspan
    exact Nat.le_succ header

/-! ## Constructs lie in the window -/

/-- Whatever starts on a line for a keyword is measured there. -/
theorem eq_measure_of_construct? {keyword : Keyword} {c : Construct}
    (h : s.construct? keyword line = some c) : c = s.measure line := by
  have hblock {c : Construct} (h : s.block? line = some c) : c = s.measure line := by
    obtain ⟨hc, _⟩ := Option.filter_eq_some_iff.mp h
    exact (Option.some.inj hc).symm
  have hclass {c : Construct} (h : s.class? line = some c) : c = s.measure line := by
    rw [class?] at h
    split_ifs at h
    exact hblock h
  have hfunction {c : Construct} (h : s.function? line = some c) : c = s.measure line := by
    rw [function?] at h
    split_ifs at h
    · exact (Option.some.inj h).symm
    · obtain ⟨hc, _⟩ := Option.filter_eq_some_iff.mp h
      exact (Option.some.inj hc).symm
  cases keyword with
  | function => exact hfunction h
  | classLike => exact hclass h
  | block => exact hblock h
  | signature =>
    rcases Option.or_eq_some_iff.mp h with h | ⟨_, h⟩
    · exact hfunction h
    · exact hclass h
  | body =>
    obtain ⟨h, _⟩ := Option.filter_eq_some_iff.mp h
    rcases Option.or_eq_some_iff.mp h with h | ⟨_, h⟩
    · exact hfunction h
    · rcases Option.or_eq_some_iff.mp h with h | ⟨_, h⟩
      · exact hclass h
      · exact hblock h
  | statement => exact (Option.some.inj h).symm
  | expression => exact (Option.some.inj h).symm

/-- What a search finds is measured from a line of code that it looks at. It starts on that
line, or on the first of the decorators in front of it. -/
theorem exists_measure_of_firstConstruct? {keyword : Keyword} {decorators : Option Nat}
    {lines : List Nat} {c : Construct} (hgrowing : lines.Pairwise (· ≤ ·))
    (hdecorators : ∀ l, decorators = some l → ∀ line ∈ lines, l ≤ line)
    (h : s.firstConstruct? keyword decorators lines = some c) :
    ∃ line ∈ lines, ∃ start ≤ line, (decorators = some start ∨ start ∈ lines) ∧
      s.document.isCode line = true ∧ s.construct? keyword line = some (s.measure line) ∧
      c = { s.measure line with start } := by
  -- Decorators come from lines already looked at, so the bound on them is kept as well.
  induction lines generalizing decorators with
  | nil => cases h
  | cons line rest ih =>
    obtain ⟨hahead, hrest⟩ := List.pairwise_cons.mp hgrowing
    have hgoOn {decorators' : Option Nat}
        (hfrom : ∀ l, decorators' = some l → decorators = some l ∨ l = line)
        (h' : s.firstConstruct? keyword decorators' rest = some c) :
        ∃ line' ∈ line :: rest, ∃ start ≤ line',
          (decorators = some start ∨ start ∈ line :: rest) ∧ s.document.isCode line' = true ∧
          s.construct? keyword line' = some (s.measure line') ∧
          c = { s.measure line' with start } := by
      have hdecorators' (l : Nat) (hl : decorators' = some l) (line' : Nat)
          (hline' : line' ∈ rest) : l ≤ line' := by
        rcases hfrom l hl with hbefore | rfl
        · exact hdecorators l hbefore line' (List.mem_cons_of_mem _ hline')
        · exact hahead line' hline'
      obtain ⟨line', hmem, start, hstart, horigin, hfound⟩ := ih hrest hdecorators' h'
      refine ⟨line', List.mem_cons_of_mem _ hmem, start, hstart, ?_, hfound⟩
      rcases horigin with hcarried | hlater
      · rcases hfrom start hcarried with hbefore | rfl
        · exact .inl hbefore
        · exact .inr List.mem_cons_self
      · exact .inr (List.mem_cons_of_mem _ hlater)
    rw [firstConstruct?] at h
    split_ifs at h with hcode hdecorator
    · exact hgoOn (fun _ => .inl) h
    · refine hgoOn (fun l hl => ?_) h
      rcases Option.or_eq_some_iff.mp hl with hbefore | ⟨_, hown⟩
      · exact .inl hbefore
      · exact .inr (Option.some.inj hown).symm
    · cases hconstruct : s.construct? keyword line with
      | none =>
        rw [hconstruct] at h
        exact hgoOn (by simp) h
      | some measured =>
        rw [hconstruct] at h
        obtain rfl := eq_measure_of_construct? hconstruct
        have hcode' : s.document.isCode line = true := by simpa using hcode
        cases decorators with
        | none =>
          exact ⟨line, List.mem_cons_self, line, Nat.le_refl _, .inr List.mem_cons_self, hcode',
            hconstruct, (Option.some.inj h).symm⟩
        | some l =>
          exact ⟨line, List.mem_cons_self, l, hdecorators l rfl line List.mem_cons_self, .inl rfl,
            hcode', hconstruct, (Option.some.inj h).symm⟩

/-- What is found for a query starts on a line that the query looks at, and so does its
header. -/
theorem exists_measure_of_searchLines {q : Query} {c : Construct}
    (h : (ofQuery q).firstConstruct? q.keyword none q.searchLines = some c) :
    ∃ line ∈ q.searchLines, ∃ start ∈ q.searchLines, start ≤ line ∧
      q.document.isCode line = true ∧
      (ofQuery q).construct? q.keyword line = some ((ofQuery q).measure line) ∧
      c = { (ofQuery q).measure line with start } := by
  obtain ⟨line, hline, start, hstart, hnone | hmem, hfound⟩ :=
    exists_measure_of_firstConstruct? (List.pairwise_le_range' 1) (by simp) h
  · cases hnone
  · exact ⟨line, hline, start, hmem, hstart, hfound⟩

end Listing

/-- The part that a keyword names starts where the construct does, or behind. -/
theorem le_first_of_part? {keyword : Keyword} {c : Construct} {span : Span}
    (hstart : first ≤ c.start) (hbody : BodyFrom first c) (h : c.part? keyword = some span) :
    first ≤ span.first := by
  cases keyword with
  | body => exact hbody span h
  | function | classLike | block | signature | statement | expression =>
    obtain rfl := Option.some.inj h
    exact hstart

/-- A search through the text finds nothing in front of the first line it looks at. -/
theorem searchStart_le_of_locate? {q : Query} {span : Span} (h : locate? q = some span) :
    q.searchStart ≤ span.first := by
  obtain ⟨c, hc, hpart⟩ := Option.bind_eq_some_iff.mp h
  obtain ⟨line, hline, start, hstart, -, -, -, rfl⟩ := Listing.exists_measure_of_searchLines hc
  refine le_first_of_part? (List.mem_range'_1.mp hstart).1 (fun span hspan => ?_) hpart
  exact Nat.le_trans (List.mem_range'_1.mp hline).1
    ((Listing.ofQuery q).bodyFrom_measure line span hspan)

end Construct

/-! ## Scopes start on the line of their tag -/

/-- A tag that names the body of a construct. -/
def Tag.NamesBody (tag : Tag) : Prop :=
  ∃ added removed, tag.reach = .construct .body added removed

namespace Resolver

variable {Node : Type} [DecidableEq Node] {r : Resolver Node} {d : Document} {tag : Tag}

/-- No scope ends in front of its start. -/
theorem startLine_le_endLine_resolve {last : Nat} (h : (r.resolve d tag).endLine = some last) :
    (r.resolve d tag).startLine ≤ last := by
  have hbounded {tagLine : Nat} {span : Span} {origin : ScopeOrigin}
      (h : (Scope.bounded tagLine span origin).endLine = some last) :
      (Scope.bounded tagLine span origin).startLine ≤ last :=
    Option.some.inj h ▸ span.first_le_last
  unfold resolve at h ⊢
  cases hreach : tag.reach with
  | unbounded => simp [hreach, Scope.openEnded] at h
  | lines count =>
    rw [hreach] at h
    exact hbounded h
  | construct keyword added removed =>
    rw [hreach] at h
    simp only [constructScope] at h ⊢
    split_ifs at h ⊢ with hinline
    · exact hbounded h
    · cases hplace : r.place? (r.query d tag keyword added removed) with
      | none => simp [hplace, Scope.openEnded] at h
      | some placed =>
        rw [hplace] at h
        exact hbounded h

variable {q : Query} {span : Span} {origin : ScopeOrigin}

/-- What is placed is placed by the tree, or else by the text. -/
theorem cases_of_place? (h : r.place? q = some (span, origin)) :
    (r.placeByTree? q = some span ∧ origin = .syntaxTree) ∨
      (Construct.locate? q = some span ∧ origin = .heuristic) := by
  rcases Option.or_eq_some_iff.mp h with htree | ⟨-, htext⟩
  · obtain ⟨found, hfound, heq⟩ := Option.map_eq_some_iff.mp htree
    obtain ⟨rfl, rfl⟩ := Prod.mk.inj heq
    exact .inl ⟨hfound, rfl⟩
  · obtain ⟨found, hfound, heq⟩ := Option.map_eq_some_iff.mp htext
    obtain ⟨rfl, rfl⟩ := Prod.mk.inj heq
    rw [placeByText?] at hfound
    split_ifs at hfound
    exact .inr ⟨hfound, rfl⟩

/-- Without a tree, what is placed is placed by the text. -/
theorem locate?_of_place? (htree : r.tree = none) (h : r.place? q = some (span, origin)) :
    Construct.locate? q = some span ∧ origin = .heuristic := by
  rcases cases_of_place? h with ⟨hplaced, -⟩ | htext
  · rw [placeByTree?, htree] at hplaced
    cases hplaced
  · exact htext

/-- Without a tree, the scope of a tag starts on the line of the tag, that of a body
possibly behind it. -/
theorem startLine_resolve (htree : r.tree = none) :
    tag.line ≤ (r.resolve d tag).startLine ∧
      (¬ tag.NamesBody → (r.resolve d tag).startLine = tag.line) := by
  unfold resolve
  cases hreach : tag.reach with
  | unbounded => exact ⟨Nat.le_refl _, fun _ => rfl⟩
  | lines count => exact ⟨Nat.le_refl _, fun _ => rfl⟩
  | construct keyword added removed =>
    simp only [constructScope]
    split_ifs with hinline
    · exact ⟨Nat.le_refl _, fun _ => rfl⟩
    · cases hplace : r.place? (r.query d tag keyword added removed) with
      | none => exact ⟨Nat.le_refl _, fun _ => rfl⟩
      | some placed =>
        obtain ⟨span, origin⟩ := placed
        have hfirst := Construct.searchStart_le_of_locate? (locate?_of_place? htree hplace).1
        have hbehind : tag.line ≤ span.first := by
          refine Nat.le_trans ?_ hfirst
          rw [Query.searchStart]
          split_ifs
          · exact Nat.le_refl _
          · exact Nat.le_succ _
        cases keyword with
        | body => exact ⟨hbehind, fun hnot => absurd ⟨added, removed, hreach⟩ hnot⟩
        | function | classLike | block | signature | statement | expression =>
          have hstart : min tag.line span.first = tag.line := Nat.min_eq_left hbehind
          exact ⟨Nat.le_of_eq hstart.symm, fun _ => hstart⟩

end Resolver

end LineGuard
