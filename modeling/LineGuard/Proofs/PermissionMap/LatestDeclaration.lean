/-
# The latest declaration wins

There is a way to read tags that needs no stack. Let every tag make a region of
its own, from its line to the end of its scope, and let the regions overlap as they
please; on a line where several of them meet, the tag declared last governs. When
every scope starts on the line of its tag, this grants the same as the regions
that the stack builds, however the scopes are nested or cross.

Only documentation could make a difference, since the stack drops it for good as
soon as another tag starts. But a documentation block ends in front of the next
tag line, so it is never cut short.
-/

import LineGuard.Proofs.Analysis.Agreement
import LineGuard.Proofs.Region.Governing

namespace LineGuard

variable {d : Document} {tags : List Tag} {scopes : List Scope} {line : Nat}

/-! ## Overlapping regions -/

namespace Region

/-- The region of one tag taken by itself: from the tag to the end of its scope, or
of its documentation block, or of the document. -/
def ofTag (d : Document) (tags : List Tag) (tag : Tag) (scope : Scope) : Region where
  startLine := tag.line
  endLine :=
    (if tag.permission = .context then some (Activation.contextEnd d tags scope)
      else scope.endLine).getD (d.lastLine?.getD tag.line)
  target := tag.target
  permission := tag.permission
  sourceLine := some tag.line
  isContext := tag.permission.isContext

/-- One region for each tag, in the order of the tags. -/
def overlapping (d : Document) (tags : List Tag) (scopes : List Scope) : List Region :=
  (tags.zip scopes).map fun (tag, scope) => ofTag d tags tag scope

/-- On the lines of the document the region of a tag holds where the tag's frame
has not expired. -/
theorem contains_ofTag (tag : Tag) (scope : Scope) (hline : line < d.lineCount) :
    (ofTag d tags tag scope).contains line =
      (tag.line ≤ line && !(Activation.ofTag d tags tag scope).frame.expiredAt line) := by
  obtain ⟨last, hlast⟩ : ∃ last, d.lineCount = last + 1 := ⟨d.lineCount - 1, by omega⟩
  rw [contains, ofTag, Frame.expiredAt, Activation.bound_ofTag,
    Document.lastLine?_eq_some.mpr hlast]
  refine congrArg _ ?_
  cases (if tag.permission = .context then some (Activation.contextEnd d tags scope)
      else scope.endLine) with
  | none =>
    -- An open region reaches the last line, and an open frame never expires.
    have hle : line ≤ last := by omega
    simpa using hle
  | some stop => simp only [Option.getD_some, Option.any_some, ← decide_not, Nat.not_lt]

end Region

/-! ## The last region governs -/

namespace PermissionMap

/-- If each region prevails over those in front of it, the last one governs. -/
theorem governing?_eq_getLast? {active : List PlacedRegion}
    (h : active.Pairwise fun p q => prevails q p = true) :
    governing? active = active.getLast? := by
  induction active with
  | nil => rfl
  | cons p rest ih =>
    obtain ⟨hfirst, hrest⟩ := List.pairwise_cons.mp h
    rw [governing?, ih hrest, List.getLast?_cons]
    cases hlast : rest.getLast? with
    | none => rfl
    | some q => simp [hfirst q (List.mem_of_getLast? hlast)]

theorem grant_eq (default : Permission) (active : List PlacedRegion) :
    grant default active =
      (((governing? active).map (·.1)).map Grant.ofRegion).getD ⟨default, false⟩ := by
  rw [grant]
  cases governing? active <;> rfl

end PermissionMap

/-- What a rule grants. -/
def Grant.ofRule (rule : Rule) : Grant := ⟨rule.permission, rule.isContext⟩

namespace Activation

/-- As long as no documentation is interrupted, the last activation in force is
the last of those that have started and not expired. -/
theorem lastInForce?_eq_getLast? {activations : List Activation}
    (h : activations.Pairwise fun a b =>
      a.frame.isContext = true → a.frame.expiredAt line = false → line < b.startLine) :
    lastInForce? line activations =
      (activations.filter fun a => a.startLine ≤ line && !a.frame.expiredAt line).getLast? := by
  induction activations with
  | nil => rfl
  | cons a rest ih =>
    obtain ⟨hfirst, hrest⟩ := List.pairwise_cons.mp h
    have ha : a.inForce rest line = (a.startLine ≤ line && !a.frame.expiredAt line) := by
      cases hexpired : a.frame.expiredAt line with
      | true => simp [inForce, hexpired]
      | false =>
        cases hcontext : a.frame.isContext with
        | false => simp [inForce, hexpired, hcontext]
        | true =>
          have hlater : rest.any (·.startLine ≤ line) = false := by
            simpa using fun b hb => hfirst b hb hcontext hexpired
          simp [inForce, hexpired, hlater]
    rw [lastInForce?, ih hrest, ha, getLast?_filter_cons]

end Activation

/-! ## Tags on lines of their own -/

namespace Tag

/-- Tags are listed by their lines, no two on one line, and every scope starts with
its tag and does not end in front of it. -/
structure PlacedInOrder (tags : List Tag) (scopes : List Scope) : Prop where
  increasing : tags.Pairwise (·.line < ·.line)
  startsOnTag : ∀ p ∈ tags.zip scopes, p.2.startLine = p.1.line
  endsBehindTag : ∀ p ∈ tags.zip scopes, ∀ last, p.2.endLine = some last → p.1.line ≤ last

namespace PlacedInOrder

theorem pairwise_zip (h : PlacedInOrder tags scopes) :
    (tags.zip scopes).Pairwise (·.1.line < ·.1.line) :=
  pairwise_zip_of_pairwise h.increasing

theorem inOrder_eq (h : PlacedInOrder tags scopes) (target : Target) :
    Activation.inOrder d tags scopes target =
      ((tags.zip scopes).filter fun p => p.1.target == target).map
        fun p => Activation.ofTag d tags p.1 p.2 := by
  refine List.mergeSort_of_pairwise ?_
  rw [List.pairwise_map]
  refine List.Pairwise.imp_of_mem (fun {p q} hp hq hlt => ?_) (h.pairwise_zip.filter _)
  have hp := h.startsOnTag p (List.mem_filter.mp hp).1
  have hq := h.startsOnTag q (List.mem_filter.mp hq).1
  refine Activation.noLaterThan_iff.mpr (.inl ?_)
  show p.2.startLine < q.2.startLine
  rwa [hp, hq]

/-- A documentation block ends in front of the next tag. -/
theorem lt_startLine (h : PlacedInOrder tags scopes) {p q : Tag × Scope}
    (hp : p ∈ tags.zip scopes) (hq : q ∈ tags.zip scopes) (hpq : p.1.line < q.1.line)
    (hcontext : (Activation.ofTag d tags p.1 p.2).frame.isContext = true)
    (hexpired : (Activation.ofTag d tags p.1 p.2).frame.expiredAt line = false) :
    line < (Activation.ofTag d tags q.1 q.2).startLine := by
  have hend : line ≤ Activation.contextEnd d tags p.2 := by
    rw [Frame.expiredAt, Activation.bound_ofTag, if_pos (Permission.isContext_iff.mp hcontext)]
      at hexpired
    simpa using hexpired
  rw [show (Activation.ofTag d tags q.1 q.2).startLine = q.1.line from h.startsOnTag q hq]
  by_contra hle
  have hstart := h.startsOnTag p hp
  rcases Activation.le_contextEnd_iff.mp hend with hbefore | ⟨_, hblock⟩
  · omega
  · -- The block would hold the line of a tag, which is where it has to end.
    exact (hblock q.1.line (by omega) (by omega)).2 q.1 (List.of_mem_zip hq).1 rfl

/-- The last activation in force is that of the last region that holds the line. -/
theorem lastInForce?_inOrder (h : PlacedInOrder tags scopes) (target : Target)
    (hline : line < d.lineCount) :
    Activation.lastInForce? line (Activation.inOrder d tags scopes target) =
      (((tags.zip scopes).filter fun p => p.1.target == target &&
        (Region.ofTag d tags p.1 p.2).contains line).getLast?).map
          fun p => Activation.ofTag d tags p.1 p.2 := by
  rw [h.inOrder_eq target, Activation.lastInForce?_eq_getLast?, List.filter_map,
    List.getLast?_map, List.filter_filter]
  · refine congrArg _ (congrArg _ (List.filter_congr fun p hp => ?_))
    rw [Region.contains_ofTag p.1 p.2 hline, Bool.and_comm]
    simp [Activation.ofTag, h.startsOnTag p hp]
  · rw [List.pairwise_map]
    refine List.Pairwise.imp_of_mem (fun {p q} hp hq hpq => ?_) (h.pairwise_zip.filter _)
    exact h.lt_startLine (List.mem_filter.mp hp).1 (List.mem_filter.mp hq).1 hpq

end PlacedInOrder

end Tag

/-! ## Two ways to the same grants -/

namespace PermissionMap

variable (tags scopes) (defaults : Defaults) (target : Target)

/-- What the regions built with the stack grant. -/
theorem grant_holders_build
    (hscopes : ∀ p ∈ tags.zip scopes, ∀ last, p.2.endLine = some last → p.2.startLine ≤ last)
    (hline : line < d.lineCount) :
    grant (defaults.get target) (holders (Region.build d tags scopes defaults) target line) =
      Grant.ofRule (Region.ruleOf (defaults.get target)
        (Activation.lastInForce? line (Activation.inOrder d tags scopes target))) := by
  obtain ⟨r, place, hr, hholders⟩ := exists_holders_build tags scopes defaults target hline
  obtain ⟨s, hs, hrule⟩ := Region.exists_filter_build_eq defaults target hscopes hline
  obtain rfl : r = s := List.singleton_inj.mp (hr.symm.trans hs)
  rw [hholders, ← hrule]
  rfl

variable {tags scopes}

/-- Of the overlapping regions that hold a line, that of the last tag governs. -/
theorem governing?_holders_overlapping (h : Tag.PlacedInOrder tags scopes) (line : Nat) :
    (governing? (holders (Region.overlapping d tags scopes) target line)).map (·.1) =
      (((tags.zip scopes).filter fun p => p.1.target == target &&
        (Region.ofTag d tags p.1 p.2).contains line).getLast?).map
          fun p => Region.ofTag d tags p.1 p.2 := by
  have hsources : (Region.overlapping d tags scopes).Pairwise fun r s =>
      ∃ m n, r.sourceLine = some m ∧ s.sourceLine = some n ∧ m < n := by
    rw [Region.overlapping, List.pairwise_map]
    exact h.pairwise_zip.imp fun {p q} hpq => ⟨p.1.line, q.1.line, rfl, rfl, hpq⟩
  have hprevails : (Region.overlapping d tags scopes).zipIdx.Pairwise
      fun p q => prevails q p = true := by
    refine (pairwise_zipIdx hsources).imp fun {p q} hpq => ?_
    obtain ⟨m, n, hm, hn, hlt⟩ := hpq
    simp [prevails, hm, hn, hlt]
  rw [holders, governing?_eq_getLast? (hprevails.filter _), ← List.getLast?_map]
  refine (congrArg _ map_fst_holders).trans ?_
  rw [Region.overlapping, List.filter_map, List.getLast?_map]
  rfl

/-- What one region for each tag grants. -/
theorem grant_holders_overlapping (h : Tag.PlacedInOrder tags scopes) (hline : line < d.lineCount) :
    grant (defaults.get target) (holders (Region.overlapping d tags scopes) target line) =
      Grant.ofRule (Region.ruleOf (defaults.get target)
        (Activation.lastInForce? line (Activation.inOrder d tags scopes target))) := by
  rw [grant_eq, governing?_holders_overlapping target h, h.lastInForce?_inOrder target hline]
  cases List.getLast? _ <;> rfl

/-- Regions built with a stack and overlapping regions of which the latest declared
governs grant the same on every line. -/
theorem exists_ofRegions_overlapping (d : Document) (tags : List Tag) (scopes : List Scope)
    (defaults : Defaults) (h : Tag.PlacedInOrder tags scopes) :
    ∃ stacked overlaid,
      ofRegions d.lineCount (Region.build d tags scopes defaults) defaults = .ok stacked ∧
        ofRegions d.lineCount (Region.overlapping d tags scopes) defaults = .ok overlaid ∧
        stacked.lines = overlaid.lines := by
  have hsorted : (Region.overlapping d tags scopes).Pairwise (·.startLine ≤ ·.startLine) := by
    rw [Region.overlapping, List.pairwise_map]
    exact h.pairwise_zip.imp fun hlt => Nat.le_of_lt hlt
  have hscopes : ∀ p ∈ tags.zip scopes, ∀ last, p.2.endLine = some last → p.2.startLine ≤ last :=
    fun p hp => h.startsOnTag p hp ▸ h.endsBehindTag p hp
  refine ⟨_, _, ofRegions_eq d.lineCount defaults
    (Region.pairwise_startLine_build d tags scopes defaults),
    ofRegions_eq d.lineCount defaults hsorted, ?_⟩
  refine List.map_congr_left fun line hline => ?_
  have hsame (target : Target) :
      (grantsAt (Region.build d tags scopes defaults) defaults line).get target =
        (grantsAt (Region.overlapping d tags scopes) defaults line).get target := by
    have hline : line < d.lineCount := List.mem_range.mp hline
    rw [get_grantsAt, get_grantsAt, grant_holders_build tags scopes defaults target hscopes hline,
      grant_holders_overlapping defaults target h hline]
  rw [grantsAt, grantsAt, LineGrants.mk.injEq]
  exact ⟨rfl, hsame .ai, hsame .human⟩

theorem exists_ofRegions_overlapping_crossing :
    Tag.PlacedInOrder crossingDocument.tags crossingScopes ∧
      ∃ stacked overlaid,
        ofRegions crossingDocument.lineCount
          (Region.build crossingDocument crossingDocument.tags crossingScopes .standard)
          .standard = .ok stacked ∧
        ofRegions crossingDocument.lineCount
          (Region.overlapping crossingDocument crossingDocument.tags crossingScopes)
          .standard = .ok overlaid ∧
        stacked.lines = overlaid.lines :=
  have hplaced : Tag.PlacedInOrder crossingDocument.tags crossingScopes :=
    ⟨by decide +kernel, by decide +kernel, by decide +kernel⟩
  ⟨hplaced, exists_ofRegions_overlapping crossingDocument crossingDocument.tags crossingScopes
    .standard hplaced⟩

end PermissionMap

end LineGuard
