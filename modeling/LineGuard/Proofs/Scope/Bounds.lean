/-
# The bounds of a scope

A scope that no syntax tree has a say in is made of lines of its document. It starts on the
line of its tag or, for a body, behind it; it does not end in front of its start, nor behind
the last line. How it was found tells whether it names an end at all: a tag that names none
and a construct that is nowhere to be seen leave it open, and then it starts on the line of
the tag.

The bounds from below are those of the search for constructs and hold of any text. The
bounds from above come from how constructs are measured. A count of lines is cut at the
last line of the document, however many lines it asks for.
-/

import LineGuard.Language.Builtin
import LineGuard.Proofs.Construct.Extent
import LineGuard.Proofs.Region.Activation
import LineGuard.Proofs.Tag.Scan

namespace LineGuard

/-- A scope is a possible one for a tag of a document. -/
structure Scope.WellPlaced (d : Document) (tag : Tag) (scope : Scope) : Prop where
  tagLine_eq : scope.tagLine = tag.line
  /-- Just these two ways of finding a scope find no end. -/
  endLine_eq_none_iff :
    scope.endLine = none ↔ scope.origin = .unbounded ∨ scope.origin = .unresolved
  startLine_of_open : scope.endLine = none → scope.startLine = tag.line
  ordered : ∀ last, scope.endLine = some last →
    tag.line ≤ scope.startLine ∧ scope.startLine ≤ last ∧
      ∃ final, d.lastLine? = some final ∧ last ≤ final
  /-- Only a body can start behind its tag. -/
  startLine_eq : ¬ tag.NamesBody → scope.startLine = tag.line
  /-- And it does, unless its tag trails code. -/
  lt_startLine : tag.NamesBody → d.hasCodeBefore tag.line tag.column = false →
    scope.endLine ≠ none → tag.line < scope.startLine
  /-- Lines are counted from the tag, as far as the document goes. -/
  endLine_of_lines : ∀ count, tag.reach = .lines count →
    ∃ final, d.lastLine? = some final ∧ scope.endLine = some (min (tag.line + count) final)

variable {d : Document} {tag : Tag}

theorem Tag.not_namesBody_of_lines {count : Nat} (h : tag.reach = .lines count) :
    ¬ tag.NamesBody := by
  rintro ⟨added, removed, hbody⟩
  cases h.symm.trans hbody

namespace Resolver

/-- A scope that names no end. -/
theorem wellPlaced_openEnded {origin : ScopeOrigin}
    (horigin : origin = .unbounded ∨ origin = .unresolved)
    (hreach : ∀ count, tag.reach ≠ .lines count) :
    (Scope.openEnded tag.line origin).WellPlaced d tag where
  tagLine_eq := rfl
  endLine_eq_none_iff := ⟨fun _ => horigin, fun _ => rfl⟩
  startLine_of_open _ := rfl
  ordered _ hlast := nomatch hlast
  startLine_eq _ := rfl
  lt_startLine _ _ hend := absurd rfl hend
  endLine_of_lines count hcount := absurd hcount (hreach count)

/-- A scope that is a span of lines, for a tag that names a construct. -/
theorem wellPlaced_bounded {keyword : Construct.Keyword} {added removed : List Text} {span : Span}
    {origin : ScopeOrigin} (hreach : tag.reach = .construct keyword added removed)
    (horigin : origin ≠ .unbounded ∧ origin ≠ .unresolved)
    (hfirst : tag.line ≤ span.first) (hlast : span.last < d.lineCount)
    (hstart : keyword ≠ .body → span.first = tag.line)
    (hbody : keyword = .body → d.hasCodeBefore tag.line tag.column = false →
      tag.line < span.first) :
    (Scope.bounded tag.line span origin).WellPlaced d tag where
  tagLine_eq := rfl
  endLine_eq_none_iff :=
    ⟨fun h => (nomatch h), fun h => absurd h (not_or.mpr horigin)⟩
  startLine_of_open h := nomatch h
  ordered last h := by
    obtain rfl := Option.some.inj h
    obtain ⟨final, hfinal, -, hle⟩ := Document.exists_lastLine?_eq_some hlast
    exact ⟨hfirst, span.first_le_last, final, hfinal, hle⟩
  startLine_eq hnot := by
    refine hstart fun hkeyword => hnot ⟨added, removed, ?_⟩
    rw [hreach, hkeyword]
  lt_startLine := by
    rintro ⟨added', removed', hnames⟩ hcode _
    exact hbody (Reach.construct.inj (hreach.symm.trans hnames)).1 hcode
  endLine_of_lines count hcount := nomatch hreach.symm.trans hcount

/-- A count of lines ends where it says, or with the document. -/
theorem wellPlaced_countedScope {count : Nat} (hreach : tag.reach = .lines count)
    (htag : tag.line < d.lineCount) : (countedScope d tag.line count).WellPlaced d tag := by
  obtain ⟨final, hfinal, -, hle⟩ := Document.exists_lastLine?_eq_some htag
  have hend : (countedScope d tag.line count).endLine = some (min (tag.line + count) final) := by
    have hmax : max final tag.line = final := Nat.max_eq_left hle
    have hmin : tag.line ≤ min (tag.line + count) final :=
      Nat.le_min.mpr ⟨Nat.le_add_right _ _, hle⟩
    simp only [countedScope, Scope.bounded, hfinal, Option.getD_some, hmax,
      Span.last_between_of_le hmin]
  exact
    { tagLine_eq := rfl
      endLine_eq_none_iff := ⟨fun h => (nomatch h), fun h => (nomatch h)⟩
      startLine_of_open := fun _ => rfl
      ordered := fun last hlast => by
        obtain rfl := Option.some.inj (hend.symm.trans hlast)
        exact ⟨Nat.le_refl _, Nat.le_min.mpr ⟨Nat.le_add_right _ _, hle⟩, final, hfinal,
          Nat.min_le_right _ _⟩
      startLine_eq := fun _ => rfl
      lt_startLine := fun hbody => absurd hbody (Tag.not_namesBody_of_lines hreach)
      endLine_of_lines := fun count' hcount => by
        obtain rfl := Reach.lines.inj (hreach.symm.trans hcount)
        exact ⟨final, hfinal, hend⟩ }

variable {Node : Type} [DecidableEq Node] {r : Resolver Node}

/-- Whatever a tree answers, a scope starts on a line of the document, except that of a body
which the tree has placed. -/
theorem startLine_lt_or_placedByTree (htag : tag.line < d.lineCount) :
    (r.resolve d tag).startLine < d.lineCount ∨
      tag.NamesBody ∧ (r.resolve d tag).origin = .syntaxTree := by
  rw [resolve]
  cases hreach : tag.reach with
  | unbounded | lines => exact .inl htag
  | construct keyword added removed =>
    dsimp only
    rw [constructScope]
    split
    · exact .inl htag
    · cases hplace : r.place? (r.query d tag keyword added removed) with
      | none => exact .inl htag
      | some placed =>
        obtain ⟨span, origin⟩ := placed
        cases keyword with
        | body =>
          rcases cases_of_place? hplace with ⟨-, rfl⟩ | ⟨hlocate, -⟩
          · exact .inr ⟨⟨added, removed, hreach⟩, rfl⟩
          · have hlast := Construct.last_lt_of_locate? hlocate
            exact .inl (Nat.lt_of_le_of_lt span.first_le_last hlast)
        | function | classLike | block | signature | statement | expression =>
          exact .inl (Nat.lt_of_le_of_lt (Nat.min_le_left _ _) htag)

theorem wellPlaced_constructScope (htree : r.tree = none) {keyword : Construct.Keyword}
    {added removed : List Text} (hreach : tag.reach = .construct keyword added removed)
    (htag : tag.line < d.lineCount) :
    (r.constructScope (r.query d tag keyword added removed)).WellPlaced d tag := by
  rw [constructScope]
  split
  · -- A signature tag behind the signature governs the line it stands on.
    next hinline =>
    have hkeyword : keyword = .signature :=
      eq_of_beq (Bool.and_eq_true_iff.mp hinline).2
    refine wellPlaced_bounded hreach (by decide) (Nat.le_refl _) htag (fun _ => rfl) ?_
    rw [hkeyword]
    exact fun h => absurd h (by decide)
  · cases hplace : r.place? (r.query d tag keyword added removed) with
    | none =>
      refine wellPlaced_openEnded (.inr rfl) fun count hcount => ?_
      cases hreach.symm.trans hcount
    | some placed =>
      obtain ⟨span, origin⟩ := placed
      obtain ⟨hlocate, rfl⟩ := locate?_of_place? htree hplace
      have hlast := Construct.last_lt_of_locate? hlocate
      have hfirst := Construct.searchStart_le_of_locate? hlocate
      have hbehind : tag.line ≤ span.first := by
        refine Nat.le_trans ?_ hfirst
        rw [searchStart_query]
        split
        · exact Nat.le_refl _
        · exact Nat.le_succ _
      cases keyword with
      | body =>
        refine wellPlaced_bounded hreach (by decide) hbehind hlast (fun h => absurd rfl h) ?_
        intro _ hcode
        rw [searchStart_query, hcode] at hfirst
        exact hfirst
      | function | classLike | block | signature | statement | expression =>
        have hmin : min tag.line span.first = tag.line := Nat.min_eq_left hbehind
        refine wellPlaced_bounded hreach (by decide) (Nat.le_of_eq hmin.symm) ?_ (fun _ => hmin)
          (fun h => absurd h (by decide))
        exact Nat.max_lt.mpr ⟨Nat.lt_of_le_of_lt (Nat.min_le_left _ _) htag, hlast⟩

/-- Whatever a document holds, without a syntax tree the scope of each of its tags has bounds
that are lines of the document, in order. -/
theorem wellPlaced_resolve (table : LanguageTable) (readsText : Bool) (window : Nat)
    (d : Document) : ∀ tag ∈ d.tags,
      ((Resolver.mk table (none : Option (SyntaxTree Node)) readsText window).resolve d
        tag).WellPlaced d tag := by
  intro tag hmem
  have htag := Document.line_lt_lineCount_of_mem_tags hmem
  rw [resolve]
  cases hreach : tag.reach with
  | unbounded => exact wellPlaced_openEnded (.inl rfl) fun count h => nomatch hreach.symm.trans h
  | lines count => exact wellPlaced_countedScope hreach htag
  | construct keyword added removed => exact wellPlaced_constructScope rfl hreach htag

/-- A method without a line of its own between header and end, decorated, and a count that
no document is long enough for. -/
def emptyMethod : Document :=
  .ofText "# @guard:ai:r.body\n@wrap\ndef f(a)\nend\n# @guard:human:n.18446744073709551615".toList
    (some "ruby".toList)

def emptyMethodTag : Tag := ⟨0, 0, .ai, none, .read, .construct .body [] []⟩

theorem wellPlaced_resolve_emptyMethod :
    emptyMethodTag ∈ emptyMethod.tags ∧
      (Resolver.mk .builtin (none : Option (SyntaxTree Nat)) true 2).resolve emptyMethod
        emptyMethodTag = ⟨0, 3, some 3, .heuristic⟩ ∧
      ((Resolver.mk .builtin (none : Option (SyntaxTree Nat)) true 2).resolve emptyMethod
        emptyMethodTag).WellPlaced emptyMethod emptyMethodTag := by
  have hmem : emptyMethodTag ∈ emptyMethod.tags := by decide +kernel
  exact ⟨hmem, by decide +kernel, wellPlaced_resolve .builtin true 2 emptyMethod _ hmem⟩

end Resolver

end LineGuard
