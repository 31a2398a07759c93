/-
# What is background

A line is background for a target because of one context tag. The tag's scope has
started by then, and every line since is documentation on which no tag stands, so
background does not go on through code.

On the line where the scope starts nothing is checked. For most tags that is the tag's
own line. A tag that names a body is different: the scope starts where the body does,
and a line of code there is background all the same.
-/

import LineGuard.Language.Builtin
import LineGuard.Proofs.Analysis.Agreement
import LineGuard.Proofs.Region.ContextRun
import LineGuard.Proofs.Scope.Placement
import LineGuard.Proofs.Tag.Scan

namespace LineGuard

/-! ## Regions that are background -/

namespace Region

variable {d : Document} {tags : List Tag} {place : Tag → Scope} {defaults : Defaults} {r : Region}
  {tag : Tag}

/-- Every context tag stands among those of its target with the scope it is given. -/
theorem exists_isPlacedContext (hlines : tags.Pairwise (·.line ≠ ·.line))
    (hplace : ∀ tag last, (place tag).endLine = some last → (place tag).startLine ≤ last)
    (htag : tag ∈ tags) (hcontext : tag.permission = .context) :
    ∃ before later, IsPlacedContext tags (tags.map place) tag (place tag) before later := by
  have hmem : (tag, place tag) ∈ Tag.inOrder tags (tags.map place) tag.target :=
    Tag.mem_inOrder.mpr ⟨mem_zip_map.mpr ⟨htag, rfl⟩, rfl⟩
  obtain ⟨before, later, horder⟩ := List.append_of_mem hmem
  refine ⟨before, later, hcontext, horder, hlines, ?_⟩
  intro scope hscope last hlast
  obtain ⟨other, _, rfl⟩ := List.mem_map.mp hscope
  exact hplace other last hlast

theorem IsPlacedContext.mem_of_mem_later {scopes : List Scope} {scope : Scope}
    {before later : List (Tag × Scope)} {next : Tag × Scope}
    (h : IsPlacedContext tags scopes tag scope before later) (hnext : next ∈ later) :
    next ∈ tags.zip scopes ∧ next.1.target = tag.target ∧ next.1.line ≠ tag.line := by
  have hmem : next ∈ Tag.inOrder tags scopes tag.target := by simp [h.order, hnext]
  have hlines : (Tag.inOrder tags scopes tag.target).Pairwise (·.1.line ≠ ·.1.line) :=
    Tag.pairwise_line_inOrder h.lines
  rw [h.order] at hlines
  have hne := (List.pairwise_cons.mp (List.pairwise_append.mp hlines).2.1).1 next hnext
  exact ⟨(Tag.mem_inOrder.mp hmem).1, (Tag.mem_inOrder.mp hmem).2, hne.symm⟩

/-- A region that is background is owed to a context tag. -/
theorem exists_owedTo_of_isContext {scopes : List Scope} (hr : r ∈ build d tags scopes defaults)
    (hcontext : r.isContext = true) :
    ∃ tag ∈ tags, tag.permission = .context ∧ OwedTo tag r := by
  rcases rule_of_mem_buildFor (mem_build.mp hr) with hrule | ⟨tag, htag, htarget, hrule⟩
  · have hplain := congrArg Rule.isContext hrule
    rw [Rule.ofRegion, hcontext] at hplain
    cases hplain
  · obtain ⟨_, hsource, hpermission⟩ := Rule.mk.inj hrule
    rw [hcontext] at hpermission
    exact ⟨tag, htag, Permission.isContext_iff.mp hpermission.symm, htarget.symm, hsource⟩

/-- On the line where the scope of a context tag starts, the tag governs whatever the line
is, unless a later tag of the target has started too. -/
theorem IsPlacedContext.owedTo_of_contains_startLine {scopes : List Scope} {scope : Scope}
    {before later : List (Tag × Scope)} (h : IsPlacedContext tags scopes tag scope before later)
    (hlater : ∀ next ∈ later, scope.startLine < next.2.startLine)
    (hr : r ∈ build d tags scopes defaults) (htarget : r.target = tag.target)
    (hline : r.contains scope.startLine = true) : OwedTo tag r := by
  refine ⟨htarget, (h.sourceLine_eq_iff hr htarget hline).mpr ?_⟩
  rw [Tag.inForce_context_iff h.permission]
  exact ⟨Nat.le_refl _, Activation.startLine_le_contextEnd, hlater⟩

end Region

namespace Analysis

/-! ## Lines that are background -/

/-- What makes a line background for a target: a context tag of the target, with its
scope, that the one region holding the line is owed to. -/
structure IsBackground (a : Analysis) (d : Document) (target : Target) (line : Nat) (tag : Tag)
    (scope : Scope) : Prop where
  declared : (tag, scope) ∈ a.tags.zip a.scopes
  target_eq : tag.target = target
  permission_eq : tag.permission = .context
  holds : ∃ r, a.regions.filter (fun r => r.target == target && r.contains line) = [r] ∧
    r.sourceLine = some tag.line ∧ r.isContext = true
  tag_le_start : tag.line ≤ scope.startLine
  start_le_line : scope.startLine ≤ line
  /-- Only a body can start behind its tag. -/
  start_eq : ¬ tag.NamesBody → scope.startLine = tag.line
  /-- Behind the start there is documentation without tags. -/
  documents : ∀ between, scope.startLine < between → between ≤ line →
    d.isDocumentation between = true ∧ ∀ other ∈ a.tags, other.line ≠ between

/-- The scope that the text gives a tag. -/
def textScope (options : Options) (table : LanguageTable) (d : Document) (tag : Tag) : Scope :=
  (resolver options table (none : Option (SyntaxTree Nat))).resolve d tag

variable {options : Options} {table : LanguageTable} {d : Document} {tag : Tag}

theorem startLine_le_endLine_textScope {last : Nat}
    (h : (textScope options table d tag).endLine = some last) :
    (textScope options table d tag).startLine ≤ last :=
  Resolver.startLine_le_endLine_resolve h

theorem startLine_textScope : tag.line ≤ (textScope options table d tag).startLine ∧
    (¬ tag.NamesBody → (textScope options table d tag).startLine = tag.line) :=
  Resolver.startLine_resolve rfl

theorem ofText_eq_ok {map : PermissionMap}
    (h : PermissionMap.ofRegions d.lineCount
      (Region.build d d.tags (d.tags.map (textScope options table d)) options.defaults)
      options.defaults = .ok map) :
    ofText options table d = .ok
      { lineCount := d.lineCount
        tags := d.tags
        scopes := d.tags.map (textScope options table d)
        regions := Region.build d d.tags (d.tags.map (textScope options table d)) options.defaults
        permissions := map } := by
  unfold textScope at h ⊢
  simp only [ofText, ofDocument, h]
  rfl

/-- The permissions of a line are those of the region of the analysis that holds it. -/
theorem exists_ofText_eq_ok (options : Options) (table : LanguageTable) (d : Document) :
    ∃ a, ofText options table d = .ok a ∧ a.tags = d.tags ∧
      a.scopes = d.tags.map (textScope options table d) ∧
      a.permissions.lines.length = d.lineCount ∧
      ∀ target line, line < d.lineCount → ∃ r grants,
        a.regions.filter (fun r => r.target == target && r.contains line) = [r] ∧
        r ∈ Region.build d d.tags (d.tags.map (textScope options table d)) options.defaults ∧
        r.target = target ∧ r.contains line = true ∧
        a.permissions.lines[line]? = some grants ∧
        (grants.get target).isContext = r.isContext := by
  obtain ⟨map, hmap, hnumbered, _, hgrants⟩ := PermissionMap.exists_ofRegions_build d d.tags
    (d.tags.map (textScope options table d)) options.defaults
  refine ⟨_, ofText_eq_ok hmap, rfl, rfl, ?_, fun target line hline => ?_⟩
  · simpa using congrArg List.length hnumbered
  · obtain ⟨r, grants, hfilter, hline, hget⟩ := hgrants target line hline
    have hheld := List.mem_filter.mp (hfilter ▸ List.mem_singleton_self r)
    simp only [Bool.and_eq_true, beq_iff_eq] at hheld
    exact ⟨r, grants, hfilter, hheld.1, hheld.2.1, hheld.2.2, hline, by rw [hget]⟩

theorem exists_isPlacedContext_textScope (options : Options) (table : LanguageTable)
    (htag : tag ∈ d.tags) (hcontext : tag.permission = .context) :
    ∃ before later, Region.IsPlacedContext d.tags (d.tags.map (textScope options table d)) tag
      (textScope options table d tag) before later :=
  Region.exists_isPlacedContext (d.pairwise_line_tags.imp Nat.ne_of_lt)
    (fun _ _ hlast => startLine_le_endLine_textScope hlast) htag hcontext

/-- Without a syntax tree, a line is background only behind documentation: from where the
scope of its tag starts, which is the tag's line unless the tag names a body, every line
up to it documents and carries no tag. -/
theorem isBackground_of_isContext (options : Options) (table : LanguageTable) (d : Document) :
    ∃ a, ofText options table d = .ok a ∧ ∀ target line grants,
      a.permissions.lines[line]? = some grants → (grants.get target).isContext = true →
        ∃ tag scope, IsBackground a d target line tag scope := by
  obtain ⟨a, hok, htags, hscopes, hlength, hlines⟩ := exists_ofText_eq_ok options table d
  refine ⟨a, hok, fun target line grants hgrants hcontext => ?_⟩
  have hcount : line < d.lineCount := hlength ▸ (List.getElem?_eq_some_iff.mp hgrants).1
  obtain ⟨r, _, hfilter, hr, rfl, hcontains, hgrants', hget⟩ := hlines target line hcount
  obtain rfl := Option.some.inj (hgrants.symm.trans hgrants')
  rw [hcontext] at hget
  obtain ⟨tag, htag, hpermission, howed⟩ := Region.exists_owedTo_of_isContext hr hget.symm
  obtain ⟨before, later, hplaced⟩ :=
    exists_isPlacedContext_textScope options table htag hpermission
  have hrun := hplaced.isContextRun hr howed
  obtain ⟨hstart, hend⟩ := Region.contains_iff.mp hcontains
  exact ⟨tag, textScope options table d tag,
    { declared := by rw [htags, hscopes]; exact hplaced.mem_zip
      target_eq := howed.1.symm
      permission_eq := hpermission
      holds := ⟨r, hfilter, howed.2, hget.symm⟩
      tag_le_start := startLine_textScope.1
      start_le_line := hrun.starts ▸ hstart
      start_eq := startLine_textScope.2
      documents := fun between hlt hle =>
        htags ▸ hrun.documents between hlt (Nat.le_trans hle hend) }⟩

/-- The line on which the scope of a context tag starts is background, code or not, if the
other tags of the target start behind it. -/
theorem isContext_startLine (htag : tag ∈ d.tags) (hcontext : tag.permission = .context)
    (hcount : (textScope options table d tag).startLine < d.lineCount)
    (hothers : ∀ other ∈ d.tags, other.target = tag.target → other.line ≠ tag.line →
      (textScope options table d tag).startLine < (textScope options table d other).startLine) :
    ∃ a grants, ofText options table d = .ok a ∧
      a.permissions.lines[(textScope options table d tag).startLine]? = some grants ∧
      (grants.get tag.target).isContext = true := by
  obtain ⟨a, hok, _, _, _, hlines⟩ := exists_ofText_eq_ok options table d
  obtain ⟨r, grants, _, hr, htarget, hcontains, hgrants, hget⟩ := hlines tag.target _ hcount
  obtain ⟨before, later, hplaced⟩ := exists_isPlacedContext_textScope options table htag hcontext
  refine ⟨a, grants, hok, hgrants, hget.trans ?_⟩
  have hlater : ∀ next ∈ later,
      (textScope options table d tag).startLine < next.2.startLine := by
    intro next hnext
    obtain ⟨hzip, hsame, hne⟩ := hplaced.mem_of_mem_later hnext
    obtain ⟨hmem, hscope⟩ := Region.mem_zip_map.mp hzip
    rw [hscope]
    exact hothers next.1 hmem hsame hne
  have howed := hplaced.owedTo_of_contains_startLine hlater hr htarget hcontains
  exact congrArg Rule.isContext (hplaced.ofRegion_eq hr howed)

/-! ## The body of a construct -/

/-- A function whose body a context tag names. -/
def bodyDocument : Document :=
  .ofText "# @guard:ai:context.body\ndef f(a):\n    return a\nx = 1".toList (some "python".toList)

def bodyTag : Tag := ⟨0, 0, .ai, none, .context, .construct .body [] []⟩

theorem tags_bodyDocument : bodyDocument.tags = [bodyTag] := by decide +kernel

theorem isContext_bodyDocument :
    ∃ a grants, ofText .standard LanguageTable.builtin bodyDocument = .ok a ∧
      a.permissions.lines[2]? = some grants ∧ (grants.get .ai).isContext = true := by
  have hmem : bodyTag ∈ bodyDocument.tags := by
    rw [tags_bodyDocument]
    exact List.mem_singleton_self bodyTag
  have hstart : (textScope .standard LanguageTable.builtin bodyDocument bodyTag).startLine = 2 := by
    decide +kernel
  have hcount : (textScope .standard LanguageTable.builtin bodyDocument bodyTag).startLine <
      bodyDocument.lineCount := by
    rw [hstart]
    decide +kernel
  have hcontext := isContext_startLine hmem rfl hcount ?_
  · rwa [hstart] at hcontext
  · intro other hother _ hne
    rw [tags_bodyDocument] at hother
    exact absurd (congrArg Tag.line (List.mem_singleton.mp hother)) hne

theorem isBackground_of_isContext_body :
    ∃ a grants, ofText .standard LanguageTable.builtin bodyDocument = .ok a ∧
      a.permissions.lines[2]? = some grants ∧ (grants.get .ai).isContext = true ∧
      ∃ tag scope, IsBackground a bodyDocument .ai 2 tag scope := by
  obtain ⟨a, grants, hok, hgrants, hcontext⟩ := isContext_bodyDocument
  obtain ⟨a', hok', hbackground⟩ :=
    isBackground_of_isContext .standard LanguageTable.builtin bodyDocument
  obtain rfl := Except.ok.inj (hok.symm.trans hok')
  exact ⟨a, grants, hok, hgrants, hcontext, hbackground .ai 2 grants hgrants hcontext⟩

/-- The line the body starts on is background although it is code, and the only tag there
is stands two lines in front of it. -/
theorem isContext_of_code_in_body :
    ∃ a grants, ofText .standard LanguageTable.builtin bodyDocument = .ok a ∧
      a.permissions.lines[2]? = some grants ∧ (grants.get .ai).isContext = true ∧
      bodyDocument.tags = [bodyTag] ∧ bodyTag.line < 2 ∧ bodyDocument.isCode 2 = true ∧
      bodyDocument.isDocumentation 2 = false := by
  obtain ⟨a, grants, hok, hgrants, hcontext⟩ := isContext_bodyDocument
  exact ⟨a, grants, hok, hgrants, hcontext, tags_bodyDocument, by decide, by decide +kernel,
    by decide +kernel⟩

end Analysis

end LineGuard
