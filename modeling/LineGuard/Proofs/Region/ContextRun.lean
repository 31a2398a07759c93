/-
# Where documentation governs

A context tag governs one run of lines or none. The run starts with the tag's scope
and goes on through the documentation behind it; it stops where the block, the scope
or the document does, or where another tag of the target takes effect, whichever
comes first. Nothing brings the tag back afterwards, however soon what interrupted
it expires.

All of this is read off one equivalence. Since no tag of the target that comes later
is in force before it has started, a context tag governs a line exactly when it is in
force there itself. The lines on which it is in force have no gap, and neighbouring
lines governed by one tag belong to one region.
-/

import LineGuard.Proofs.Region.Governing

namespace LineGuard

/-- Of two places in one list, they are the same, or one is behind the other. -/
theorem cut_cases {α : Type} {before later before' later' : List α} {a b : α}
    (h : before ++ a :: later = before' ++ b :: later') :
    (a = b ∧ later = later') ∨ (∃ between, later = between ++ b :: later') ∨
      ∃ between, later' = between ++ a :: later := by
  rcases List.append_eq_append_iff.mp h with ⟨between, _, heq⟩ | ⟨between, _, heq⟩
  · cases between with
    | nil => exact .inl (List.cons.inj heq)
    | cons c between => exact .inr (.inl ⟨between, (List.cons.inj heq).2⟩)
  · cases between with
    | nil =>
      obtain ⟨hb, hlater⟩ := List.cons.inj heq
      exact .inl ⟨hb.symm, hlater.symm⟩
    | cons c between => exact .inr (.inr ⟨between, (List.cons.inj heq).2⟩)

namespace Tag

variable {d : Document} {tags : List Tag} {scopes : List Scope} {target : Target} {line : Nat}
  {tag : Tag} {scope : Scope} {before later : List (Tag × Scope)}

theorem mem_inOrder {p : Tag × Scope} :
    p ∈ inOrder tags scopes target ↔ p ∈ tags.zip scopes ∧ p.1.target = target := by
  simp [inOrder]

/-- The order in which tags take effect keeps them on lines of their own. -/
theorem pairwise_line_inOrder (hlines : tags.Pairwise (·.line ≠ ·.line)) :
    (inOrder tags scopes target).Pairwise (·.1.line ≠ ·.1.line) := by
  have hzip : (tags.zip scopes).Pairwise (·.1.line ≠ ·.1.line) := pairwise_zip_of_pairwise hlines
  exact ((List.mergeSort_perm _ _).pairwise_iff fun h => Ne.symm h).mpr (hzip.filter _)

/-! ## Context tags in force -/

theorem inForce_context_iff (hcontext : tag.permission = .context) :
    InForce d tags line (tag, scope) later ↔
      scope.startLine ≤ line ∧ line ≤ Activation.contextEnd d tags scope ∧
        ∀ next ∈ later, line < next.2.startLine := by
  constructor
  · rintro ⟨hstarted, hlasting, hfree⟩
    exact ⟨hstarted, hlasting _ (if_pos hcontext), hfree hcontext⟩
  · rintro ⟨hstarted, hend, hfree⟩
    refine ⟨hstarted, fun last hlast => ?_, fun _ => hfree⟩
    rw [if_pos hcontext] at hlast
    exact Option.some.inj hlast ▸ hend

/-- The lines on which a context tag is in force have no gap. -/
theorem InForce.of_le (hcontext : tag.permission = .context) {earlier : Nat}
    (h : InForce d tags line (tag, scope) later) (hstart : scope.startLine ≤ earlier)
    (hle : earlier ≤ line) : InForce d tags earlier (tag, scope) later := by
  obtain ⟨_, hend, hfree⟩ := (inForce_context_iff hcontext).mp h
  refine (inForce_context_iff hcontext).mpr ⟨hstart, by omega, fun next hnext => ?_⟩
  have := hfree next hnext
  omega

/-- A context tag governs a line exactly when it is in force there: what comes later
has not started, so it is the last in force. -/
theorem Governs.sourceLine_eq_iff {default : Permission} {rule : Rule}
    (hlines : (before ++ (tag, scope) :: later).Pairwise (·.1.line ≠ ·.1.line))
    (hcontext : tag.permission = .context)
    (h : Governs d tags default line (before ++ (tag, scope) :: later) rule) :
    rule.sourceLine = some tag.line ↔ InForce d tags line (tag, scope) later := by
  generalize horder : before ++ (tag, scope) :: later = order at h
  cases h with
  | @tag before' later' placed hforce hlast =>
    have hbehind : ∀ p ∈ later, tag.line ≠ p.1.line :=
      (List.pairwise_cons.mp (List.pairwise_append.mp hlines).2.1).1
    have hahead : ∀ p ∈ later', placed.1.line ≠ p.1.line :=
      (List.pairwise_cons.mp (List.pairwise_append.mp (horder ▸ hlines)).2.1).1
    rcases cut_cases horder with ⟨rfl, rfl⟩ | ⟨between, rfl⟩ | ⟨between, rfl⟩
    · exact iff_of_true rfl hforce
    · -- The governing tag comes later, so it has started and ours is interrupted.
      refine iff_of_false (fun hsource => ?_) fun hours => ?_
      · exact hbehind placed (by simp) (Option.some.inj hsource).symm
      · have := ((inForce_context_iff hcontext).mp hours).2.2 placed (by simp)
        have := hforce.started
        omega
    · -- Ours comes behind the governing tag, where nothing is in force.
      refine iff_of_false (fun hsource => ?_) fun hours => ?_
      · exact hahead (tag, scope) (by simp) (Option.some.inj hsource)
      · exact hlast between (tag, scope) later rfl hours
  | default hnone =>
    refine iff_of_false (by simp) fun hours => ?_
    exact hnone before (tag, scope) later horder.symm hours

end Tag

namespace Region

variable {d : Document} {tags : List Tag} {scopes : List Scope} {defaults : Defaults}
  {tag : Tag} {scope : Scope} {r s : Region} {line : Nat}

/-! ## The run of a context tag -/

/-- A region owed to a tag: it is for the tag's target and names the tag's line. -/
def OwedTo (tag : Tag) (r : Region) : Prop := r.target = tag.target ∧ r.sourceLine = some tag.line

instance (tag : Tag) (r : Region) : Decidable (OwedTo tag r) :=
  inferInstanceAs (Decidable (_ ∧ _))

/-- What a region owed to a context tag looks like among the tags of a document. -/
structure IsContextRun (d : Document) (tags : List Tag) (scopes : List Scope) (tag : Tag)
    (scope : Scope) (r : Region) : Prop where
  starts : r.startLine = scope.startLine
  /-- Behind its first line it holds documentation without tags. -/
  documents : ∀ line, scope.startLine < line → line ≤ r.endLine →
    d.isDocumentation line = true ∧ ∀ other ∈ tags, other.line ≠ line
  withinScope : ∀ last, scope.endLine = some last → r.endLine ≤ last
  /-- Behind its last line the document ends, or the documentation, or the scope, or
  another tag of the target takes effect. -/
  maximal : r.endLine + 1 < d.lineCount →
    d.isDocumentation (r.endLine + 1) = false ∨ (∃ other ∈ tags, other.line = r.endLine + 1) ∨
      (∃ last, scope.endLine = some last ∧ last < r.endLine + 1) ∨
      ∃ next ∈ tags.zip scopes, next.1.target = tag.target ∧ next.2.startLine = r.endLine + 1
  /-- From where a tag of the target that comes later takes effect, no line is in it. -/
  neverResumes : ∀ before later,
    Tag.inOrder tags scopes tag.target = before ++ (tag, scope) :: later →
    ∀ next ∈ later, ∀ line, next.2.startLine ≤ line → r.contains line = false

/-- A context tag, with its scope, that stands in the order in which the tags of its
target take effect, all of them on lines of their own. -/
structure IsPlacedContext (tags : List Tag) (scopes : List Scope) (tag : Tag) (scope : Scope)
    (before later : List (Tag × Scope)) : Prop where
  permission : tag.permission = .context
  order : Tag.inOrder tags scopes tag.target = before ++ (tag, scope) :: later
  lines : tags.Pairwise (·.line ≠ ·.line)
  scopes : ∀ scope ∈ scopes, ∀ last, scope.endLine = some last → scope.startLine ≤ last

namespace IsPlacedContext

variable {before later : List (Tag × Scope)}
  (h : IsPlacedContext tags scopes tag scope before later)

include h

/-- A region of the target is owed to the tag exactly when the tag is in force on any
line it holds. -/
theorem sourceLine_eq_iff (hr : r ∈ build d tags scopes defaults) (htarget : r.target = tag.target)
    (hline : r.contains line = true) :
    r.sourceLine = some tag.line ↔ Tag.InForce d tags line (tag, scope) later := by
  have hgoverns := governs_of_contains h.scopes hr hline
  rw [htarget, h.order] at hgoverns
  have hlines : (Tag.inOrder tags scopes tag.target).Pairwise (·.1.line ≠ ·.1.line) :=
    Tag.pairwise_line_inOrder h.lines
  rw [h.order] at hlines
  exact hgoverns.sourceLine_eq_iff hlines h.permission

theorem mem_zip : (tag, scope) ∈ tags.zip scopes := by
  have hmem : (tag, scope) ∈ Tag.inOrder tags scopes tag.target := by simp [h.order]
  exact (Tag.mem_inOrder.mp hmem).1

/-- No other tag stands on the line that a region owed to the tag names, so the region
states what the tag does. -/
theorem ofRegion_eq (hr : r ∈ build d tags scopes defaults) (howed : OwedTo tag r) :
    Rule.ofRegion r = ⟨.context, some tag.line, true⟩ := by
  rcases rule_of_mem_buildFor (mem_build.mp hr) with hrule | ⟨other, hother, _, hrule⟩
  · simp [Rule.ofRegion, Rule.ofDefault, howed.2] at hrule
  · have hline : other.line = tag.line := by
      have hsource := congrArg Rule.sourceLine hrule
      rw [Rule.ofRegion, howed.2] at hsource
      exact (Option.some.inj hsource).symm
    have hsymm : Std.Symm fun first second : Tag => first.line ≠ second.line :=
      ⟨fun _ _ hne => hne.symm⟩
    obtain rfl : other = tag := by
      by_contra hne
      exact h.lines.forall hother (List.of_mem_zip h.mem_zip).1 hne hline
    rw [hrule, h.permission]
    rfl

/-- Regions owed to the tag do not touch: they would state the same. -/
theorem not_touching (hr : r ∈ build d tags scopes defaults) (howed : OwedTo tag r)
    (hs : s ∈ build d tags scopes defaults) (hsowed : OwedTo tag s) :
    r.endLine + 1 ≠ s.startLine := by
  intro htouch
  refine ofRegion_ne_of_touching hr hs (howed.1.trans hsowed.1.symm) htouch ?_
  rw [h.ofRegion_eq hr howed, h.ofRegion_eq hs hsowed]

theorem startLine_eq (hr : r ∈ build d tags scopes defaults) (howed : OwedTo tag r) :
    r.startLine = scope.startLine := by
  have hfirst := (h.sourceLine_eq_iff hr howed.1 (contains_startLine hr)).mp howed.2
  have hstarted : scope.startLine ≤ r.startLine := hfirst.started
  by_contra hne
  have hinside := lt_lineCount_of_contains hr (contains_startLine hr)
  have hahead : r.startLine - 1 < d.lineCount := by omega
  -- The tag governs the line in front of the region, whose region could have gone on.
  have hforce := hfirst.of_le h.permission (show scope.startLine ≤ r.startLine - 1 by omega)
    (Nat.sub_le _ _)
  obtain ⟨s, hs, hstarget, hsline⟩ := exists_mem_build_contains d tags scopes defaults tag.target
    hahead
  have hsowed : OwedTo tag s := ⟨hstarget, (h.sourceLine_eq_iff hs hstarget hsline).mpr hforce⟩
  have hbetween := contains_iff.mp hsline
  by_cases hoverlap : r.startLine ≤ s.endLine
  · have hsame := eq_of_contains hs hr (hstarget.trans howed.1.symm)
      (contains_iff.mpr ⟨by omega, hoverlap⟩) (contains_startLine hr)
    rw [hsame] at hbetween
    omega
  · exact h.not_touching hs hsowed hr howed (by omega)

/-- A region owed to the tag stops where the tag ceases to be in force. -/
theorem not_inForce_behind (hr : r ∈ build d tags scopes defaults) (howed : OwedTo tag r)
    (hlast : r.endLine + 1 < d.lineCount) :
    ¬ Tag.InForce d tags (r.endLine + 1) (tag, scope) later := by
  intro hforce
  obtain ⟨s, hs, hstarget, hsline⟩ := exists_mem_build_contains d tags scopes defaults tag.target
    hlast
  have hsowed : OwedTo tag s := ⟨hstarget, (h.sourceLine_eq_iff hs hstarget hsline).mpr hforce⟩
  refine h.not_touching hr howed hs hsowed ?_
  -- Both regions start with the scope, so the second would hold the first.
  have hbetween := contains_iff.mp hsline
  have hstart := (h.startLine_eq hs hsowed).trans (h.startLine_eq hr howed).symm
  have hsame := eq_of_contains hs hr (hstarget.trans howed.1.symm) (contains_startLine hs)
    (hstart ▸ contains_startLine hr)
  rw [hsame] at hbetween
  omega

theorem isContextRun (hr : r ∈ build d tags scopes defaults) (howed : OwedTo tag r) :
    IsContextRun d tags scopes tag scope r := by
  have hforce := (h.sourceLine_eq_iff hr howed.1 (contains_endLine hr)).mp howed.2
  obtain ⟨hstarted, hend, hfree⟩ := (Tag.inForce_context_iff h.permission).mp hforce
  have hblock : (∀ last, scope.endLine = some last → r.endLine ≤ last) ∧
      ∀ line, scope.startLine < line → line ≤ r.endLine → Activation.Continues d tags line := by
    rcases Activation.le_contextEnd_iff.mp hend with hbefore | hblock
    · refine ⟨fun last hlast => ?_, fun line hline hle => by omega⟩
      have := h.scopes scope (List.of_mem_zip h.mem_zip).2 last hlast
      omega
    · exact hblock
  refine ⟨h.startLine_eq hr howed, hblock.2, hblock.1, fun hlast => ?_, ?_⟩
  · have hbehind := h.not_inForce_behind hr howed hlast
    rw [Tag.inForce_context_iff h.permission, Activation.le_contextEnd_iff] at hbehind
    by_cases hnext : ∃ next ∈ later, next.2.startLine ≤ r.endLine + 1
    · obtain ⟨next, hmem, hstart⟩ := hnext
      have hplaced : next ∈ Tag.inOrder tags scopes tag.target := by simp [h.order, hmem]
      have := hfree next hmem
      obtain ⟨hzip, htarget⟩ := Tag.mem_inOrder.mp hplaced
      exact .inr (.inr (.inr ⟨next, hzip, htarget, by omega⟩))
    · by_cases hscope : ∃ last, scope.endLine = some last ∧ last < r.endLine + 1
      · exact .inr (.inr (.inl hscope))
      · -- Neither a tag nor the scope ends the run, so the next line does not continue it.
        have hstop : ¬ Activation.Continues d tags (r.endLine + 1) := by
          intro hcontinues
          push Not at hnext hscope
          refine hbehind ⟨by omega, .inr ⟨hscope, fun line hline hle => ?_⟩, hnext⟩
          rcases Nat.eq_or_lt_of_le hle with rfl | hlt
          · exact hcontinues
          · exact hblock.2 line hline (Nat.le_of_lt_succ hlt)
        by_cases hdocuments : d.isDocumentation (r.endLine + 1) = true
        · refine .inr (.inl ?_)
          by_contra htags
          push Not at htags
          exact hstop ⟨hdocuments, htags⟩
        · exact .inl (by simpa using hdocuments)
  · intro before' later' horder next hnext line hline
    -- Whichever way the order is cut, what comes later has not started on the last line.
    have hcut : IsPlacedContext tags scopes tag scope before' later' :=
      ⟨h.permission, horder, h.lines, h.scopes⟩
    have hforce' := (hcut.sourceLine_eq_iff hr howed.1 (contains_endLine hr)).mp howed.2
    by_contra hcontains
    have hheld : r.contains line = true := by simpa using hcontains
    have := ((Tag.inForce_context_iff h.permission).mp hforce').2.2 next hnext
    have := (contains_iff.mp hheld).2
    omega

/-- The regions owed to the tag all start with its scope, so there are not two. -/
theorem countP_owedTo_le_one :
    (build d tags scopes defaults).countP (OwedTo tag ·) ≤ 1 := by
  have hlisted := pairwise_strictlyBefore_build d tags scopes defaults
  rw [List.countP_eq_length_filter]
  cases howed : (build d tags scopes defaults).filter (OwedTo tag ·) with
  | nil => simp
  | cons r rest =>
    cases rest with
    | nil => simp
    | cons s more =>
      have hfirst {q : Region} (hq : q ∈ r :: s :: more) :
          q.target = tag.target ∧ q.startLine = scope.startLine := by
        obtain ⟨hmem, hqowed⟩ := List.mem_filter.mp (howed ▸ hq)
        have hqowed : OwedTo tag q := by simpa using hqowed
        exact ⟨hqowed.1, h.startLine_eq hmem hqowed⟩
      have hr := hfirst (List.mem_cons_self)
      have hs := hfirst (List.mem_cons_of_mem r List.mem_cons_self)
      have hbefore : StrictlyBefore r s :=
        (List.pairwise_cons.mp (howed ▸ hlisted.filter _)).1 s List.mem_cons_self
      rcases hbefore with hlt | ⟨_, hrank⟩
      · omega
      · rw [hr.1, hs.1] at hrank
        exact absurd hrank (Nat.lt_irrefl _)

end IsPlacedContext

/-- A context tag governs one run of lines or none, however the scopes of the other
tags lie around its own. -/
theorem contextTag_governs_one_run (d : Document) (tags : List Tag) (scopes : List Scope)
    (defaults : Defaults) (tag : Tag) (scope : Scope) (hlines : tags.Pairwise (·.line ≠ ·.line))
    (hscopes : ∀ scope ∈ scopes, ∀ last, scope.endLine = some last → scope.startLine ≤ last)
    (hmem : (tag, scope) ∈ tags.zip scopes) (hcontext : tag.permission = .context) :
    (build d tags scopes defaults).countP (OwedTo tag ·) ≤ 1 ∧
      ∀ r ∈ build d tags scopes defaults, OwedTo tag r →
        IsContextRun d tags scopes tag scope r := by
  have hplaced : (tag, scope) ∈ Tag.inOrder tags scopes tag.target :=
    Tag.mem_inOrder.mpr ⟨hmem, rfl⟩
  obtain ⟨before, later, horder⟩ := List.append_of_mem hplaced
  have h : IsPlacedContext tags scopes tag scope before later :=
    ⟨hcontext, horder, hlines, hscopes⟩
  exact ⟨h.countP_owedTo_le_one, fun r hr howed => h.isContextRun hr howed⟩

/-- Scopes of the tags of `crossingDocument` of which the last takes effect in the
middle of the documentation. -/
def interruptingScopes : List Scope :=
  [.bounded 0 (.between 0 5) .lineCount, .openEnded 1 .unbounded,
    .bounded 4 (.between 2 3) .lineCount]

/-- The context tag of `crossingDocument`. -/
def interruptedTag : Tag := ⟨1, 0, .ai, none, .context, .unbounded⟩

theorem contextTag_governs_one_run_interrupted :
    crossingDocument.tags.Pairwise (·.line ≠ ·.line) ∧
      (∀ scope ∈ interruptingScopes, ∀ last, scope.endLine = some last → scope.startLine ≤ last) ∧
      (interruptedTag, Scope.openEnded 1 .unbounded) ∈
        crossingDocument.tags.zip interruptingScopes ∧
      interruptedTag.permission = .context ∧
      (build crossingDocument crossingDocument.tags interruptingScopes .standard).countP
        (OwedTo interruptedTag ·) ≤ 1 ∧
      ∀ r ∈ build crossingDocument crossingDocument.tags interruptingScopes .standard,
        OwedTo interruptedTag r → IsContextRun crossingDocument crossingDocument.tags
          interruptingScopes interruptedTag (.openEnded 1 .unbounded) r := by
  have hlines : crossingDocument.tags.Pairwise (·.line ≠ ·.line) := by decide +kernel
  have hscopes : ∀ scope ∈ interruptingScopes, ∀ last,
      scope.endLine = some last → scope.startLine ≤ last := by decide
  have hmem : (interruptedTag, Scope.openEnded 1 .unbounded) ∈
      crossingDocument.tags.zip interruptingScopes := by decide +kernel
  exact ⟨hlines, hscopes, hmem, rfl, contextTag_governs_one_run crossingDocument
    crossingDocument.tags interruptingScopes .standard interruptedTag (.openEnded 1 .unbounded)
    hlines hscopes hmem rfl⟩

end Region

end LineGuard
