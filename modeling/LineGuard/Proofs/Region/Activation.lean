/-
# Facts about activations

An activation is well formed when it does not end in front of its start and, if
it is documentation, ends at all. Those of a document's tags are, as soon as no
scope ends in front of its start.

The end of a documentation block is characterized without the search that finds
it: a line belongs to the block of a scope exactly when every line from the scope's
start up to it documents and carries no tag, and the scope does not end before.
-/

import LineGuard.Region.Activation
import Mathlib.Data.List.Sort

namespace LineGuard

/-- Lines in a row of which a first stretch satisfies a condition. -/
private theorem takeWhile_range' (p : Nat → Bool) (first count : Nat) :
    ∃ length ≤ count, (List.range' first count).takeWhile p = List.range' first length ∧
      (∀ line, first ≤ line → line < first + length → p line = true) ∧
      (length < count → p (first + length) = false) := by
  induction count generalizing first with
  | zero => exact ⟨0, Nat.le_refl _, rfl, by omega, by omega⟩
  | succ count ih =>
    rw [List.range'_succ]
    by_cases hfirst : p first = true
    · obtain ⟨length, hle, heq, hall, hnext⟩ := ih (first + 1)
      refine ⟨length + 1, by omega, ?_, ?_, ?_⟩
      · rw [List.takeWhile_cons_of_pos hfirst, heq, List.range'_succ]
      · intro line hline hlt
        rcases Nat.eq_or_lt_of_le hline with rfl | hline
        · exact hfirst
        · exact hall line hline (by omega)
      · intro hlt
        have := hnext (by omega)
        rwa [show first + (length + 1) = first + 1 + length by omega]
    · refine ⟨0, by omega, List.takeWhile_cons_of_neg hfirst, by omega, fun _ => ?_⟩
      simpa using hfirst

theorem Document.lt_lineCount_of_isDocumentation {d : Document} {line : Nat}
    (h : d.isDocumentation line = true) : line < d.lineCount := by
  by_contra hle
  rw [isDocumentation, kind_eq_blank (Nat.le_of_not_lt hle)] at h
  cases h

theorem Document.lastLine?_eq_some {d : Document} {last : Nat} :
    d.lastLine? = some last ↔ d.lineCount = last + 1 := by
  rw [lastLine?]
  cases d.lineCount <;> simp

theorem Document.exists_lastLine?_eq_some {d : Document} {line : Nat} (h : line < d.lineCount) :
    ∃ final, d.lastLine? = some final ∧ d.lineCount = final + 1 ∧ line ≤ final := by
  obtain ⟨final, hcount⟩ := Nat.exists_eq_succ_of_ne_zero (Nat.ne_of_gt (Nat.zero_lt_of_lt h))
  exact ⟨final, lastLine?_eq_some.mpr hcount, hcount, Nat.le_of_lt_succ (hcount ▸ h)⟩

theorem Document.lastLine?_eq_none {d : Document} : d.lastLine? = none ↔ d.lineCount = 0 := by
  rw [lastLine?]
  cases d.lineCount <;> simp

namespace Activation

variable {d : Document} {tags : List Tag} {scope : Scope}

/-! ## Documentation blocks -/

/-- Whether a line continues a documentation block: it documents, and no tag of
either target stands on it. -/
def Continues (d : Document) (tags : List Tag) (line : Nat) : Prop :=
  d.isDocumentation line = true ∧ ∀ tag ∈ tags, tag.line ≠ line

/-- The limit of a block matters to lines behind the start only. -/
theorem le_contextLimit_iff {line : Nat} (hstart : scope.startLine < line) :
    line ≤ contextLimit d scope ↔
      line < d.lineCount ∧ ∀ last, scope.endLine = some last → line ≤ last := by
  rw [contextLimit]
  cases hlast : d.lastLine? with
  | none =>
    have hempty : d.lineCount = 0 := Document.lastLine?_eq_none.mp hlast
    simp only [hempty]
    omega
  | some last =>
    have hcount : d.lineCount = last + 1 := Document.lastLine?_eq_some.mp hlast
    cases hend : scope.endLine with
    | none =>
      simp only [Option.elim, hcount]
      constructor
      · intro h
        exact ⟨by omega, fun _ h => nomatch h⟩
      · intro h
        omega
    | some stop =>
      simp only [Option.elim, hcount, Option.some.injEq, forall_eq', Nat.le_min]
      omega

/-- The lines of the documentation block behind a scope's start. -/
theorem le_contextEnd_iff {line : Nat} :
    line ≤ contextEnd d tags scope ↔ line ≤ scope.startLine ∨
      ((∀ last, scope.endLine = some last → line ≤ last) ∧
        ∀ between, scope.startLine < between → between ≤ line → Continues d tags between) := by
  have hcontinues (between : Nat) :
      (!tags.any (·.line == between) && d.isDocumentation between) = true ↔
        Continues d tags between := by
    simp [Continues, and_comm]
  obtain ⟨length, hle, hblock, hall, hnext⟩ := takeWhile_range'
    (fun line => !tags.any (·.line == line) && d.isDocumentation line) (scope.startLine + 1)
    (contextLimit d scope - scope.startLine)
  have hend : contextEnd d tags scope = scope.startLine + length := by
    rw [contextEnd, contextEndFrom, Nat.add_sub_add_right, hblock, List.getLast?_range']
    split
    · next hzero => simp [hzero]
    · rw [Option.getD_some]
      omega
  rw [hend]
  constructor
  · intro hline
    by_cases hstart : line ≤ scope.startLine
    · exact .inl hstart
    · have hlimit : line ≤ contextLimit d scope := by omega
      refine .inr ⟨((le_contextLimit_iff (by omega)).mp hlimit).2, fun between hlt hbetween => ?_⟩
      exact (hcontinues between).mp (hall between hlt (by omega))
  · rintro (hstart | ⟨hscope, hdocumented⟩)
    · omega
    · by_contra hlt
      -- The search stopped on a line that still belongs to the block.
      have hlimit : line ≤ contextLimit d scope := by
        have hline := hdocumented line (by omega) (Nat.le_refl _)
        exact (le_contextLimit_iff (by omega)).mpr
          ⟨Document.lt_lineCount_of_isDocumentation hline.1, hscope⟩
      have hstop := hnext (by omega)
      rw [(hcontinues _).mpr (hdocumented _ (by omega) (by omega))] at hstop
      cases hstop

theorem startLine_le_contextEnd : scope.startLine ≤ contextEnd d tags scope :=
  le_contextEnd_iff.mpr (.inl (Nat.le_refl _))

/-- The bound of a tag's frame is the end of its scope, or of its documentation
block. -/
theorem bound_ofTag (d : Document) (tags : List Tag) (tag : Tag) (scope : Scope) :
    (ofTag d tags tag scope).frame.bound =
      if tag.permission = .context then some (contextEnd d tags scope) else scope.endLine := by
  simp only [ofTag, Permission.isContext_iff]

/-! ## Well-formed activations -/

/-- An activation does not end in front of its start, and documentation ends. -/
structure WellFormed (a : Activation) : Prop where
  start_le_bound : ∀ bound, a.frame.bound = some bound → a.startLine ≤ bound
  bounded_of_isContext : a.frame.isContext = true → a.frame.isUnbounded = false

theorem WellFormed.not_expiredAt {a : Activation} (h : a.WellFormed) {line : Nat}
    (hline : line ≤ a.startLine) : a.frame.expiredAt line = false := by
  cases hbound : a.frame.bound with
  | none => simp [Frame.expiredAt, hbound]
  | some bound =>
    have := h.start_le_bound bound hbound
    simp only [Frame.expiredAt, hbound, Option.any_some, decide_eq_false_iff_not]
    omega

theorem wellFormed_ofTag (d : Document) (tags : List Tag) (tag : Tag) {scope : Scope}
    (h : ∀ last, scope.endLine = some last → scope.startLine ≤ last) :
    (ofTag d tags tag scope).WellFormed where
  start_le_bound bound hbound := by
    rw [bound_ofTag] at hbound
    split at hbound
    · exact Option.some.inj hbound ▸ startLine_le_contextEnd
    · exact h bound hbound
  bounded_of_isContext hcontext := by
    rw [Frame.isUnbounded, bound_ofTag, if_pos (Permission.isContext_iff.mp hcontext)]
    rfl

/-! ## The order of activations -/

variable {scopes : List Scope} {target : Target} {a : Activation}

theorem mem_inOrder :
    a ∈ inOrder d tags scopes target ↔
      ∃ tag scope, (tag, scope) ∈ tags.zip scopes ∧ tag.target = target ∧
        a = ofTag d tags tag scope := by
  simp only [inOrder, List.mem_mergeSort, List.mem_map, List.mem_filter, beq_iff_eq, Prod.exists]
  constructor
  · rintro ⟨tag, scope, ⟨hmem, htarget⟩, rfl⟩
    exact ⟨tag, scope, hmem, htarget, rfl⟩
  · rintro ⟨tag, scope, hmem, htarget, rfl⟩
    exact ⟨tag, scope, ⟨hmem, htarget⟩, rfl⟩

theorem noLaterThan_iff {a b : Activation} :
    a.noLaterThan b = true ↔ a.startLine < b.startLine ∨
      (a.startLine = b.startLine ∧ a.frame.tagLine ≤ b.frame.tagLine) := by
  simp [noLaterThan]

/-- Activations are taken by their starts. -/
theorem pairwise_startLine_inOrder :
    (inOrder d tags scopes target).Pairwise (·.startLine ≤ ·.startLine) := by
  have hsorted : (inOrder d tags scopes target).Pairwise (·.noLaterThan ·) := by
    refine List.pairwise_mergeSort ?_ ?_ _
    · intro a b c hab hbc
      rw [noLaterThan_iff] at *
      omega
    · intro a b
      rw [Bool.or_eq_true, noLaterThan_iff, noLaterThan_iff]
      omega
  refine hsorted.imp fun h => ?_
  rcases noLaterThan_iff.mp h with hlt | ⟨heq, _⟩
  · exact Nat.le_of_lt hlt
  · exact Nat.le_of_eq heq

end Activation

end LineGuard
