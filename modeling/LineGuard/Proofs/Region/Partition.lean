/-
# The regions of a document divide its lines

Whatever tags and scopes are handed over, `Region.build` gives every line of the
document to one region of each target. The scopes need not fit the document:
one that starts behind its end or stops in front of its start changes who governs,
and never leaves a line without a region or with two.

The reasons lie in two places. The walk over the lines makes one rule for each
line, so the regions of a target tile the document. The list of both targets is
sorted by keys that no two regions share, so it holds the regions of each target
in the order of their walk.
-/

import LineGuard.Proofs.Region.Activation
import LineGuard.Proofs.Region.Stack
import LineGuard.Proofs.Region.Tiling

namespace LineGuard

namespace Region

/-- A rule is the default or made by a frame, and what holds of all frames that
are in force or still to come holds of that frame. -/
theorem rule_of_mem_rulesFrom {P : Frame → Prop} {default : Permission} {stack : GuardStack}
    {pending : List Activation} {line count : Nat} (hstack : ∀ frame ∈ stack, P frame)
    (hpending : ∀ a ∈ pending, P a.frame) {rule : Rule}
    (h : rule ∈ rulesFrom default stack pending line count) :
    rule = Rule.ofDefault default ∨ ∃ frame, P frame ∧ rule = Rule.ofFrame frame := by
  induction count generalizing stack pending line with
  | zero => cases h
  | succ count ih =>
    rw [rulesFrom] at h
    have hnext : ∀ frame ∈ ((pending.takeWhile (·.startLine ≤ line)).map (·.frame)).foldl
        GuardStack.push (stack.expire line), P frame := by
      intro frame hframe
      rcases GuardStack.mem_of_mem_foldl_push hframe with hstarted | hkept
      · obtain ⟨a, ha, rfl⟩ := List.mem_map.mp hstarted
        exact hpending a ((List.takeWhile_sublist _).subset ha)
      · exact hstack frame ((List.dropWhile_sublist _).subset hkept)
    rcases List.mem_cons.mp h with rfl | hlater
    · rw [Rule.ofStack]
      cases htop : GuardStack.top? _ with
      | none => exact .inl rfl
      | some frame => exact .inr ⟨frame, hnext frame (List.mem_of_head? htop), rfl⟩
    · exact ih hnext (fun a ha => hpending a (List.mem_of_mem_drop ha)) hlater

/-! ## The regions of one target -/

variable (d : Document) (tags : List Tag) (scopes : List Scope) (defaults : Defaults)

theorem tiles_buildFor (target : Target) :
    Tiles 0 d.lineCount (buildFor d tags scopes defaults target) := by
  have htiles := tiles_ofRules target 0 (rulesFrom (defaults.get target) []
    (Activation.inOrder d tags scopes target) 0 d.lineCount)
  rwa [length_rulesFrom, Nat.zero_add] at htiles

variable {d tags scopes defaults}

theorem target_of_mem_buildFor {target : Target} {r : Region}
    (h : r ∈ buildFor d tags scopes defaults target) : r.target = target :=
  (rule_of_mem_ofRules h).1

/-- A region without a tag is the default; any other is owed to a tag of its
target. -/
theorem rule_of_mem_buildFor {target : Target} {r : Region}
    (h : r ∈ buildFor d tags scopes defaults target) :
    Rule.ofRegion r = Rule.ofDefault (defaults.get target) ∨
      ∃ tag ∈ tags, tag.target = target ∧
        Rule.ofRegion r = ⟨tag.permission, some tag.line, tag.permission.isContext⟩ := by
  have hbounds := (tiles_buildFor d tags scopes defaults target).bounds_of_mem h
  have hrule := (rule_of_mem_ofRules h).2 r.startLine
    (contains_iff.mpr ⟨Nat.le_refl _, hbounds.2.1⟩)
  have hframes : ∀ a ∈ Activation.inOrder d tags scopes target,
      ∃ tag ∈ tags, tag.target = target ∧
        Rule.ofFrame a.frame = ⟨tag.permission, some tag.line, tag.permission.isContext⟩ := by
    intro a ha
    obtain ⟨tag, scope, hmem, htarget, rfl⟩ := Activation.mem_inOrder.mp ha
    exact ⟨tag, (List.of_mem_zip hmem).1, htarget, rfl⟩
  rcases rule_of_mem_rulesFrom (P := fun frame => ∃ tag ∈ tags, tag.target = target ∧
      Rule.ofFrame frame = ⟨tag.permission, some tag.line, tag.permission.isContext⟩)
      (by simp) hframes (List.mem_of_getElem? hrule) with hdefault | ⟨frame, ⟨tag, htag⟩, heq⟩
  · exact .inl hdefault
  · exact .inr ⟨tag, htag.1, htag.2.1, heq.trans htag.2.2⟩

theorem filter_buildFor (target other : Target) :
    (buildFor d tags scopes defaults other).filter (·.target == target) =
      if other = target then buildFor d tags scopes defaults other else [] := by
  split
  · next heq =>
    exact List.filter_eq_self.mpr fun r hr => by simp [target_of_mem_buildFor hr, heq]
  · next hne =>
    exact List.filter_eq_nil_iff.mpr fun r hr => by simp [target_of_mem_buildFor hr, hne]

/-! ## The list of both targets -/

/-- One region is listed in front of another, and not only next to it: it starts
earlier, or together with it for the target that is listed first. -/
def StrictlyBefore (r s : Region) : Prop :=
  r.startLine < s.startLine ∨ (r.startLine = s.startLine ∧ r.target.rank < s.target.rank)

theorem listedBefore_iff {r s : Region} :
    r.listedBefore s = true ↔ r.startLine < s.startLine ∨
      (r.startLine = s.startLine ∧ r.target.rank ≤ s.target.rank) := by
  simp [listedBefore]

variable (d tags scopes defaults)

theorem pairwise_listedBefore_build :
    (build d tags scopes defaults).Pairwise (·.listedBefore ·) := by
  refine List.pairwise_mergeSort ?_ ?_ _
  · intro r s t hrs hst
    rw [listedBefore_iff] at *
    omega
  · intro r s
    rw [Bool.or_eq_true, listedBefore_iff, listedBefore_iff]
    omega

theorem build_perm : (build d tags scopes defaults).Perm
    (buildFor d tags scopes defaults .ai ++ buildFor d tags scopes defaults .human) := by
  have hperm := List.mergeSort_perm (Target.all.flatMap (buildFor d tags scopes defaults))
    listedBefore
  simpa [build, Target.all] using hperm

/-- Two regions of different places in the list differ in start or target, so the
list is sorted strictly. -/
theorem pairwise_strictlyBefore_build :
    (build d tags scopes defaults).Pairwise StrictlyBefore := by
  have hkeys : (build d tags scopes defaults).Pairwise fun r s =>
      r.startLine ≠ s.startLine ∨ r.target ≠ s.target := by
    refine ((build_perm d tags scopes defaults).pairwise_iff fun h => h.imp Ne.symm Ne.symm).mpr ?_
    have hone (target : Target) : (buildFor d tags scopes defaults target).Pairwise fun r s =>
        r.startLine ≠ s.startLine ∨ r.target ≠ s.target :=
      (tiles_buildFor d tags scopes defaults target).pairwise_startLine.imp
        fun h => .inl (Nat.ne_of_lt h)
    refine List.pairwise_append.mpr ⟨hone .ai, hone .human, fun r hr s hs => .inr ?_⟩
    rw [target_of_mem_buildFor hr, target_of_mem_buildFor hs]
    decide
  refine ((pairwise_listedBefore_build d tags scopes defaults).and hkeys).imp
    fun {r s} ⟨hlisted, hkey⟩ => ?_
  rcases listedBefore_iff.mp hlisted with hlt | ⟨hstart, hrank⟩
  · exact .inl hlt
  · refine .inr ⟨hstart, Nat.lt_of_le_of_ne hrank fun heq => ?_⟩
    exact hkey.elim (· hstart) (· (Target.rank_injective heq))

/-- The regions of a target stand in the list as the walk made them: both lists
hold the same regions, and both hold them by their starts. -/
theorem filter_build (target : Target) :
    (build d tags scopes defaults).filter (·.target == target) =
      buildFor d tags scopes defaults target := by
  have hperm := (build_perm d tags scopes defaults).filter (·.target == target)
  have hparts : (buildFor d tags scopes defaults .ai ++
      buildFor d tags scopes defaults .human).filter (·.target == target) =
        buildFor d tags scopes defaults target := by
    rw [List.filter_append, filter_buildFor, filter_buildFor]
    cases target <;> simp
  rw [hparts] at hperm
  have hstarts : ((build d tags scopes defaults).filter (·.target == target)).Pairwise
      (·.startLine < ·.startLine) := by
    refine List.Pairwise.imp_of_mem ?_
      ((pairwise_strictlyBefore_build d tags scopes defaults).filter (·.target == target))
    intro r s hr hs hbefore
    have hsame : r.target = s.target := by
      have hr := (List.mem_filter.mp hr).2
      have hs := (List.mem_filter.mp hs).2
      exact (eq_of_beq hr).trans (eq_of_beq hs).symm
    rcases hbefore with hlt | ⟨_, hrank⟩
    · exact hlt
    · rw [hsame] at hrank
      exact absurd hrank (Nat.lt_irrefl _)
  -- Starts tell the regions of one target apart, so being sorted leaves no choice.
  refine hperm.eq_of_pairwise ?_ hstarts
    (tiles_buildFor d tags scopes defaults target).pairwise_startLine
  intro r s _ _ hrs hsr
  exact absurd hrs (Nat.lt_asymm hsr)

/-- The regions of a target that hold a line. -/
theorem filter_contains_build (target : Target) (line : Nat) :
    (build d tags scopes defaults).filter (fun r => r.target == target && r.contains line) =
      (buildFor d tags scopes defaults target).filter (·.contains line) := by
  rw [← filter_build, List.filter_filter]
  exact List.filter_congr fun r _ => Bool.and_comm _ _

variable {d tags scopes defaults}

theorem mem_build {r : Region} :
    r ∈ build d tags scopes defaults ↔ r ∈ buildFor d tags scopes defaults r.target := by
  rw [← filter_build, List.mem_filter]
  simp

/-! ## Lines and the regions that hold them -/

variable {r s : Region} {line : Nat}

theorem lt_lineCount_of_contains (hr : r ∈ build d tags scopes defaults)
    (hline : r.contains line = true) : line < d.lineCount := by
  have := (tiles_buildFor d tags scopes defaults r.target).bounds_of_mem (mem_build.mp hr)
  have := contains_iff.mp hline
  omega

theorem contains_startLine (hr : r ∈ build d tags scopes defaults) :
    r.contains r.startLine = true := by
  have := (tiles_buildFor d tags scopes defaults r.target).bounds_of_mem (mem_build.mp hr)
  exact contains_iff.mpr ⟨Nat.le_refl _, this.2.1⟩

theorem contains_endLine (hr : r ∈ build d tags scopes defaults) :
    r.contains r.endLine = true := by
  have := (tiles_buildFor d tags scopes defaults r.target).bounds_of_mem (mem_build.mp hr)
  exact contains_iff.mpr ⟨this.2.1, Nat.le_refl _⟩

/-- A line of the document lies in one region of each target. -/
theorem exists_mem_build_contains (d : Document) (tags : List Tag) (scopes : List Scope)
    (defaults : Defaults) (target : Target) (hline : line < d.lineCount) :
    ∃ r ∈ build d tags scopes defaults, r.target = target ∧ r.contains line = true := by
  obtain ⟨r, hr⟩ := (tiles_buildFor d tags scopes defaults target).exists_filter_contains
    (Nat.zero_le line) hline
  rw [← filter_contains_build] at hr
  have hmem := List.mem_filter.mp (hr ▸ List.mem_singleton_self r)
  simp only [Bool.and_eq_true, beq_iff_eq] at hmem
  exact ⟨r, hmem.1, hmem.2.1, hmem.2.2⟩

theorem eq_of_contains (hr : r ∈ build d tags scopes defaults)
    (hs : s ∈ build d tags scopes defaults) (htarget : r.target = s.target)
    (hrline : r.contains line = true) (hsline : s.contains line = true) : r = s := by
  obtain ⟨t, ht⟩ := (tiles_buildFor d tags scopes defaults s.target).exists_filter_contains
    (Nat.zero_le line) (lt_lineCount_of_contains hs hsline)
  have hholds {q : Region} (hq : q ∈ build d tags scopes defaults)
      (hqtarget : q.target = s.target) (hqline : q.contains line = true) : q = t := by
    refine List.mem_singleton.mp (ht ▸ List.mem_filter.mpr ⟨?_, hqline⟩)
    exact hqtarget ▸ mem_build.mp hq
  exact (hholds hr htarget hrline).trans (hholds hs rfl hsline).symm

/-- Regions of a target that touch state different things. -/
theorem ofRegion_ne_of_touching (hr : r ∈ build d tags scopes defaults)
    (hs : s ∈ build d tags scopes defaults) (htarget : r.target = s.target)
    (htouch : r.endLine + 1 = s.startLine) : Rule.ofRegion r ≠ Rule.ofRegion s := by
  refine (tiles_buildFor d tags scopes defaults s.target).rel_of_touching
    (isChain_ofRules s.target 0 _) ?_ (mem_build.mp hs) htouch
  exact htarget ▸ mem_build.mp hr

/-! ## The division -/

/-- What it takes for a list of regions to divide a document among the tags of
each target and its default. -/
structure Divides (d : Document) (tags : List Tag) (defaults : Defaults)
    (regions : List Region) : Prop where
  /-- For each target one region holds a line of the document, and none holds any
  other line. -/
  covered (target : Target) (line : Nat) :
    regions.countP (fun r => r.target == target && r.contains line) =
      if line < d.lineCount then 1 else 0
  /-- Every region holds a line. -/
  inhabited : ∀ r ∈ regions, r.startLine ≤ r.endLine
  /-- The list is strictly increasing by start and target. -/
  listed : regions.Pairwise StrictlyBefore
  /-- Regions of a target that touch differ in what they state. -/
  maximal (target : Target) :
    (regions.filter (·.target == target)).IsChain fun r s =>
      ¬ (r.sourceLine = s.sourceLine ∧ r.permission = s.permission ∧ r.isContext = s.isContext)
  /-- A region that names a line states what a tag of its target on that line does. -/
  declared : ∀ r ∈ regions, ∀ line, r.sourceLine = some line →
    (∃ tag ∈ tags, tag.target = r.target ∧ tag.line = line ∧ tag.permission = r.permission) ∧
      (r.isContext = true ↔ r.permission = .context)
  /-- A region that names no line states the default of its target. -/
  undeclared : ∀ r ∈ regions, r.sourceLine = none →
    r.permission = defaults.get r.target ∧ r.isContext = false

/-- The regions of a document divide it, whatever its tags and scopes are. -/
theorem divides_build (d : Document) (tags : List Tag) (scopes : List Scope)
    (defaults : Defaults) : Divides d tags defaults (build d tags scopes defaults) where
  covered target line := by
    have hcount := (tiles_buildFor d tags scopes defaults target).countP_contains line
    rw [List.countP_eq_length_filter, filter_contains_build, ← List.countP_eq_length_filter, hcount]
    simp
  inhabited r hr := ((tiles_buildFor d tags scopes defaults r.target).bounds_of_mem
    (mem_build.mp hr)).2.1
  listed := pairwise_strictlyBefore_build d tags scopes defaults
  maximal target := by
    rw [filter_build]
    refine (isChain_ofRules target 0 _).imp fun r s hne hsame => hne ?_
    simp [Rule.ofRegion, hsame]
  declared r hr line hsource := by
    rcases rule_of_mem_buildFor (mem_build.mp hr) with hrule | ⟨tag, htag, htarget, hrule⟩
    · simp [Rule.ofRegion, Rule.ofDefault, hsource] at hrule
    · simp only [Rule.ofRegion, hsource, Rule.mk.injEq, Option.some.injEq] at hrule
      obtain ⟨hpermission, hline, hcontext⟩ := hrule
      refine ⟨⟨tag, htag, htarget, hline.symm, hpermission.symm⟩, ?_⟩
      rw [hcontext, hpermission]
      exact Permission.isContext_iff
  undeclared r hr hsource := by
    rcases rule_of_mem_buildFor (mem_build.mp hr) with hrule | ⟨tag, _, _, hrule⟩
    · simp only [Rule.ofRegion, Rule.ofDefault, Rule.mk.injEq] at hrule
      exact ⟨hrule.1, hrule.2.2⟩
    · simp [Rule.ofRegion, hsource] at hrule

end Region

end LineGuard
