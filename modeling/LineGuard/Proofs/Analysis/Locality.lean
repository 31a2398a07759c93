/-
# Later lines do not matter to earlier ones

Two documents of one language that begin with the same lines are analysed alike there,
whatever follows, unless a tag on one of these lines names a construct. Only such a tag
is placed by looking ahead.

The rest of an analysis looks ahead as well, and to no effect. A count of lines is cut
at the end of the document, which lies behind the lines in question. The documentation
behind a context tag ends where it ends on either side of such a line. Tags on later
lines take effect on later lines, those that name a construct included, so they are
sorted behind the tags that have taken effect.
-/

import LineGuard.Proofs.Analysis.Background
import LineGuard.Proofs.Region.Governing
import Mathlib.Data.List.Forall2

namespace LineGuard

/-- A tag that names a construct. -/
def Tag.NamesConstruct (tag : Tag) : Prop :=
  ∃ keyword added removed, tag.reach = .construct keyword added removed

/-- Two documents of one language have the same lines up to a last one. -/
structure Document.AgreeUpTo (last : Nat) (d d' : Document) : Prop where
  language_eq : d.language = d'.language
  lines_eq : ∀ line ≤ last, d.lines[line]? = d'.lines[line]?

/-! ## Lines, kinds and tags -/

theorem LineKind.classifyAll_take (comments : CommentSyntax) (state : BlockState)
    (lines : List Text) (count : Nat) :
    (classifyAll comments state lines).take count =
      classifyAll comments state (lines.take count) := by
  induction lines generalizing state count with
  | nil => simp [classifyAll]
  | cons line rest ih =>
    cases count with
    | zero => rfl
    | succ count => rw [classifyAll, List.take_succ_cons, List.take_succ_cons, ih]; rfl

theorem Tag.parseLines_append (number : Nat) (first second : List Text) :
    parseLines number (first ++ second) =
      parseLines number first ++ parseLines (number + first.length) second := by
  induction first generalizing number with
  | nil => rfl
  | cons text rest ih =>
    rw [List.cons_append, parseLines, parseLines, ih, List.append_assoc, List.length_cons,
      Nat.add_right_comm, Nat.add_assoc]

namespace Document

variable {d d' : Document} {last : Nat}

theorem AgreeUpTo.mono (h : AgreeUpTo last d d') {line : Nat} (hline : line ≤ last) :
    AgreeUpTo line d d' :=
  ⟨h.language_eq, fun other hother => h.lines_eq other (Nat.le_trans hother hline)⟩

theorem AgreeUpTo.lt_lineCount_iff (h : AgreeUpTo last d d') {line : Nat} (hline : line ≤ last) :
    line < d.lineCount ↔ line < d'.lineCount := by
  rw [lineCount, lineCount, ← not_iff_not, Nat.not_lt, Nat.not_lt, ← Array.getElem?_eq_none_iff,
    ← Array.getElem?_eq_none_iff, h.lines_eq line hline]

theorem AgreeUpTo.take_eq (h : AgreeUpTo last d d') :
    d.lines.toList.take (last + 1) = d'.lines.toList.take (last + 1) := by
  refine List.ext_getElem? fun line => ?_
  by_cases hline : line ≤ last
  · have hlt : line < last + 1 := Nat.lt_succ_of_le hline
    rw [List.getElem?_take_of_lt hlt, List.getElem?_take_of_lt hlt, Array.getElem?_toList,
      Array.getElem?_toList, h.lines_eq line hline]
  · rw [List.getElem?_take_eq_none (by omega), List.getElem?_take_eq_none (by omega)]

/-- The lines up to one determine their kinds. -/
theorem kind_eq_of_le (d : Document) {line : Nat} (hline : line ≤ last) :
    d.kind line = ((LineKind.classifyAll d.comments .outside
      (d.lines.toList.take (last + 1)))[line]?).getD .blank := by
  rw [← LineKind.classifyAll_take, List.getElem?_take_of_lt (Nat.lt_succ_of_le hline), kind,
    d.kinds_eq, List.getElem?_toArray, d.lines_eq]
  rfl

theorem AgreeUpTo.isDocumentation_eq (h : AgreeUpTo last d d') {line : Nat} (hline : line ≤ last) :
    d.isDocumentation line = d'.isDocumentation line := by
  rw [isDocumentation, isDocumentation, d.kind_eq_of_le hline, d'.kind_eq_of_le hline, h.take_eq,
    comments, comments, h.language_eq]

/-- The tags on the lines up to one come first, and they are read off these lines. -/
theorem exists_tags_eq_append (d : Document) (last : Nat) : ∃ late,
    d.tags = Tag.parseLines 0 (d.lines.toList.take (last + 1)) ++ late ∧
      ∀ tag ∈ late, last < tag.line := by
  refine ⟨Tag.parseLines (0 + (d.lines.toList.take (last + 1)).length)
    (d.lines.toList.drop (last + 1)), ?_, fun tag htag => ?_⟩
  · rw [← Tag.parseLines_append, List.take_append_drop, tags]
  · have hbounds := Tag.line_of_mem_parseLines htag
    rw [List.length_take, List.length_drop] at hbounds
    omega

/-- Documents with the same lines up to one have the same tags there. -/
theorem AgreeUpTo.exists_shared_tags (h : AgreeUpTo last d d') : ∃ shared late late',
    d.tags = shared ++ late ∧ d'.tags = shared ++ late' ∧ (∀ tag ∈ shared, tag.line ≤ last) ∧
      (∀ tag ∈ late, last < tag.line) ∧ ∀ tag ∈ late', last < tag.line := by
  obtain ⟨late, htags, hlate⟩ := d.exists_tags_eq_append last
  obtain ⟨late', htags', hlate'⟩ := d'.exists_tags_eq_append last
  refine ⟨_, late, late', htags, h.take_eq ▸ htags', fun tag htag => ?_, hlate, hlate'⟩
  have hbounds := Tag.line_of_mem_parseLines htag
  rw [List.length_take] at hbounds
  omega

theorem AgreeUpTo.mem_tags_iff (h : AgreeUpTo last d d') {tag : Tag} (hline : tag.line ≤ last) :
    tag ∈ d.tags ↔ tag ∈ d'.tags := by
  obtain ⟨shared, late, late', htags, htags', _, hlate, hlate'⟩ := h.exists_shared_tags
  have hnot {others : List Tag} (hothers : ∀ tag ∈ others, last < tag.line) : tag ∉ others :=
    fun hmem => Nat.not_le_of_lt (hothers tag hmem) hline
  simp [htags, htags', hnot hlate, hnot hlate']

theorem AgreeUpTo.continues_iff (h : AgreeUpTo last d d') {line : Nat} (hline : line ≤ last) :
    Activation.Continues d d.tags line ↔ Activation.Continues d' d'.tags line := by
  have hother (tag : Tag) : (tag ∈ d.tags → tag.line ≠ line) ↔
      (tag ∈ d'.tags → tag.line ≠ line) := by
    by_cases hsame : tag.line = line
    · rw [h.mem_tags_iff (hsame.trans_le hline)]
    · simp [hsame]
  rw [Activation.Continues, Activation.Continues, h.isDocumentation_eq hline]
  exact and_congr_right' (forall_congr' hother)

end Document

/-! ## Activations that look alike -/

namespace Activation

/-- Two activations that cannot be told apart on a line. -/
structure AgreeOn (line : Nat) (a b : Activation) : Prop where
  startLine_eq : a.startLine = b.startLine
  expiredAt_eq : a.frame.expiredAt line = b.frame.expiredAt line
  rule_eq : Rule.ofFrame a.frame = Rule.ofFrame b.frame

variable {line : Nat} {as bs : List Activation}

theorem any_startLine_eq (h : List.Forall₂ (AgreeOn line) as bs) :
    as.any (·.startLine ≤ line) = bs.any (·.startLine ≤ line) := by
  induction h with
  | nil => rfl
  | cons hab _ ih => rw [List.any_cons, List.any_cons, hab.startLine_eq, ih]

theorem AgreeOn.inForce_eq {a b : Activation} (hab : AgreeOn line a b)
    (h : List.Forall₂ (AgreeOn line) as bs) : a.inForce as line = b.inForce bs line := by
  have hcontext : a.frame.isContext = b.frame.isContext := congrArg Rule.isContext hab.rule_eq
  rw [inForce, inForce, hab.startLine_eq, hab.expiredAt_eq, hcontext, any_startLine_eq h]

/-- Lists of activations that look alike on a line make the same rule for it. -/
theorem map_rule_lastInForce?_eq (h : List.Forall₂ (AgreeOn line) as bs) :
    (lastInForce? line as).map (Rule.ofFrame ·.frame) =
      (lastInForce? line bs).map (Rule.ofFrame ·.frame) := by
  induction h with
  | nil => rfl
  | cons hab hrest ih =>
    rw [lastInForce?, lastInForce?, Option.map_or, Option.map_or, ih, hab.inForce_eq hrest]
    split
    · rw [Option.map_some, Option.map_some, hab.rule_eq]
    · rfl

theorem expiredAt_ofTag_eq_false_iff {d : Document} {tags : List Tag} {tag : Tag} {scope : Scope} :
    (ofTag d tags tag scope).frame.expiredAt line = false ↔
      if tag.permission = .context then line ≤ contextEnd d tags scope
      else ∀ last, scope.endLine = some last → line ≤ last := by
  rw [Frame.expiredAt, bound_ofTag]
  by_cases hcontext : tag.permission = .context <;> simp [hcontext, Option.any_eq_false]

/-! ## Tags that have taken effect -/

theorem inOrder_perm (d : Document) (tags : List Tag) (place : Tag → Scope) (target : Target) :
    (inOrder d tags (tags.map place) target).Perm
      ((tags.filter (·.target == target)).map fun tag => ofTag d tags tag (place tag)) := by
  refine (List.mergeSort_perm _ _).trans (List.Perm.of_eq ?_)
  rw [← List.map_prod_left_eq_zip, List.filter_map, List.map_map]
  rfl

/-- Tags that take effect on their own lines come in the order of these, and tags that
take effect behind a line come behind those that have taken effect by then. -/
theorem inOrder_eq_append (d : Document) {shared late : List Tag} {place : Tag → Scope}
    (target : Target) (hlines : shared.Pairwise (·.line < ·.line))
    (hshared : ∀ tag ∈ shared, (place tag).startLine = tag.line ∧ tag.line ≤ line)
    (hlate : ∀ tag ∈ late, line < (place tag).startLine) :
    ∃ pending, inOrder d (shared ++ late) ((shared ++ late).map place) target =
        ((shared.filter (·.target == target)).map fun tag =>
          ofTag d (shared ++ late) tag (place tag)) ++ pending ∧
      ∀ a ∈ pending, line < a.startLine := by
  have hsplit (activate : Tag → Activation) :
      ((shared ++ late).filter (·.target == target)).map activate =
        (shared.filter (·.target == target)).map activate ++
          (late.filter (·.target == target)).map activate := by
    rw [List.filter_append, List.map_append]
  refine exists_eq_append_of_perm Activation.startLine pairwise_startLine_inOrder
    ((inOrder_perm d (shared ++ late) place target).trans (.of_eq (hsplit _))) ?_ ?_ ?_
  · refine List.pairwise_map.mpr ((hlines.filter _).imp_of_mem fun {tag other} htag hother h => ?_)
    have hstart := (hshared tag (List.mem_filter.mp htag).1).1
    have hother := (hshared other (List.mem_filter.mp hother).1).1
    rw [ofTag, ofTag, hstart, hother]
    exact h
  · intro a ha
    obtain ⟨tag, htag, rfl⟩ := List.mem_map.mp ha
    obtain ⟨hstart, hline⟩ := hshared tag (List.mem_filter.mp htag).1
    exact hstart.trans_le hline
  · intro a ha
    obtain ⟨tag, htag, rfl⟩ := List.mem_map.mp ha
    exact hlate tag (List.mem_filter.mp htag).1

end Activation

namespace Analysis

variable {options : Options} {table : LanguageTable} {d d' : Document} {tag : Tag} {line : Nat}

/-! ## Tags that name no construct -/

theorem startLine_textScope_of_not_namesConstruct (h : ¬ tag.NamesConstruct) :
    (textScope options table d tag).startLine = tag.line :=
  startLine_textScope.2 fun ⟨added, removed, hreach⟩ => h ⟨_, added, removed, hreach⟩

/-- Whether such a tag has ended in front of a line does not depend on the document. -/
theorem forall_endLine_textScope_iff (h : ¬ tag.NamesConstruct) (hcount : line < d.lineCount)
    (hline : tag.line ≤ line) :
    (∀ last, (textScope options table d tag).endLine = some last → line ≤ last) ↔
      ∀ count, tag.reach = .lines count → line ≤ tag.line + count := by
  rw [textScope, Resolver.resolve]
  cases hreach : tag.reach with
  | unbounded => simp [Scope.openEnded]
  | construct keyword added removed => exact absurd ⟨keyword, added, removed, hreach⟩ h
  | lines count =>
    have hlast : d.lastLine? = some (d.lineCount - 1) :=
      Document.lastLine?_eq_some.mpr (by omega)
    simp only [Resolver.countedScope, hlast, Scope.bounded, Span.last_between, Option.getD_some,
      Option.some.injEq, forall_eq', Reach.lines.injEq]
    omega

/-- A tag that names no construct does the same to a line in documents that agree up to
the line. -/
theorem agreeOn_ofTag (hagree : d.AgreeUpTo line d') (hcount : line < d.lineCount)
    (h : ¬ tag.NamesConstruct) (hline : tag.line ≤ line) :
    Activation.AgreeOn line (.ofTag d d.tags tag (textScope options table d tag))
      (.ofTag d' d'.tags tag (textScope options table d' tag)) := by
  have hstart : (textScope options table d tag).startLine =
      (textScope options table d' tag).startLine :=
    (startLine_textScope_of_not_namesConstruct h).trans
      (startLine_textScope_of_not_namesConstruct h).symm
  have hcount' := (hagree.lt_lineCount_iff (Nat.le_refl line)).mp hcount
  -- Both ends are cut at the last line of their document, and the line is not behind it.
  have hend : (∀ last, (textScope options table d tag).endLine = some last → line ≤ last) ↔
      ∀ last, (textScope options table d' tag).endLine = some last → line ≤ last :=
    (forall_endLine_textScope_iff h hcount hline).trans
      (forall_endLine_textScope_iff h hcount' hline).symm
  -- The blocks themselves may end on different lines, but both in front of the line or neither.
  have hcontext : line ≤ Activation.contextEnd d d.tags (textScope options table d tag) ↔
      line ≤ Activation.contextEnd d' d'.tags (textScope options table d' tag) := by
    rw [Activation.le_contextEnd_iff, Activation.le_contextEnd_iff, hstart, hend]
    refine or_congr_right (and_congr_right' (forall_congr' fun between => ?_))
    exact imp_congr_right fun _ => forall_congr' fun hbetween => hagree.continues_iff hbetween
  refine ⟨hstart, ?_, rfl⟩
  rw [← Bool.not_inj_iff, Bool.eq_iff_iff, Bool.not_eq_true', Bool.not_eq_true',
    Activation.expiredAt_ofTag_eq_false_iff, Activation.expiredAt_ofTag_eq_false_iff, hcontext,
    hend]

/-- The rule of a line for a target: the last tag in force makes it, or the default. -/
def textRule (options : Options) (table : LanguageTable) (d : Document) (line : Nat)
    (target : Target) : Rule :=
  Region.ruleOf (options.defaults.get target) (Activation.lastInForce? line
    (Activation.inOrder d d.tags (d.tags.map (textScope options table d)) target))

/-- What governs a line is settled by the lines up to it. -/
theorem textRule_eq (hagree : d.AgreeUpTo line d') (hcount : line < d.lineCount)
    (hplain : ∀ tag ∈ d.tags, tag.line ≤ line → ¬ tag.NamesConstruct) (target : Target) :
    textRule options table d line target = textRule options table d' line target := by
  obtain ⟨shared, late, late', htags, htags', hshared, hlate, hlate'⟩ := hagree.exists_shared_tags
  have hplain {tag : Tag} (htag : tag ∈ shared) : ¬ tag.NamesConstruct :=
    hplain tag (htags ▸ List.mem_append_left _ htag) (hshared tag htag)
  have hlines : shared.Pairwise (·.line < ·.line) :=
    (List.pairwise_append.mp (htags ▸ d.pairwise_line_tags)).1
  have hstart (d : Document) : ∀ tag ∈ shared,
      (textScope options table d tag).startLine = tag.line ∧ tag.line ≤ line := fun tag htag =>
    ⟨startLine_textScope_of_not_namesConstruct (hplain htag), hshared tag htag⟩
  have hbehind (d : Document) {others : List Tag} (hothers : ∀ tag ∈ others, line < tag.line) :
      ∀ tag ∈ others, line < (textScope options table d tag).startLine := fun tag htag =>
    (hothers tag htag).trans_le startLine_textScope.1
  obtain ⟨pending, horder, hpending⟩ :=
    Activation.inOrder_eq_append d target hlines (hstart d) (hbehind d hlate)
  obtain ⟨pending', horder', hpending'⟩ :=
    Activation.inOrder_eq_append d' target hlines (hstart d') (hbehind d' hlate')
  have halike : List.Forall₂ (Activation.AgreeOn line)
      ((shared.filter (·.target == target)).map fun tag =>
        .ofTag d d.tags tag (textScope options table d tag))
      ((shared.filter (·.target == target)).map fun tag =>
        .ofTag d' d'.tags tag (textScope options table d' tag)) := by
    refine List.forall₂_map_left_iff.mpr (List.forall₂_map_right_iff.mpr ?_)
    refine List.forall₂_same.mpr fun tag htag => ?_
    have hmem := (List.mem_filter.mp htag).1
    exact agreeOn_ofTag hagree hcount (hplain hmem) (hshared tag hmem)
  rw [← htags] at horder
  rw [← htags'] at horder'
  -- What is pending has not started on the line, in neither document.
  rw [textRule, textRule, horder, horder', Activation.lastInForce?_append_of_lt hpending,
    Activation.lastInForce?_append_of_lt hpending', Region.ruleOf, Region.ruleOf,
    Activation.map_rule_lastInForce?_eq halike]

/-! ## Permissions of lines -/

/-- What a line grants under the rule for each target. -/
def grantsOf (line : Nat) (rule : Target → Rule) : LineGrants :=
  ⟨line, ⟨(rule .ai).permission, (rule .ai).isContext⟩,
    ⟨(rule .human).permission, (rule .human).isContext⟩⟩

/-- An analysis grants what the rules of the lines say. -/
theorem exists_ofText_getElem? (options : Options) (table : LanguageTable) (d : Document) :
    ∃ a, ofText options table d = .ok a ∧ ∀ line < d.lineCount,
      a.permissions.lines[line]? = some (grantsOf line (textRule options table d line)) := by
  obtain ⟨map, hmap, hnumbered, _, hgrants⟩ := PermissionMap.exists_ofRegions_build d d.tags
    (d.tags.map (textScope options table d)) options.defaults
  have hscopes : ∀ p ∈ d.tags.zip (d.tags.map (textScope options table d)), ∀ last,
      p.2.endLine = some last → p.2.startLine ≤ last := by
    intro p hp last hlast
    obtain ⟨_, hplace⟩ := Region.mem_zip_map.mp hp
    rw [hplace] at hlast ⊢
    exact startLine_le_endLine_textScope hlast
  refine ⟨_, ofText_eq_ok hmap, fun line hline => ?_⟩
  have hlength : map.lines.length = d.lineCount := by simpa using congrArg List.length hnumbered
  have hline' : line < map.lines.length := hlength ▸ hline
  have hnumber : map.lines[line].line = line := by
    simpa [hline, hlength] using congrArg (·[line]?) hnumbered
  have hget (target : Target) : map.lines[line].get target =
      ⟨(textRule options table d line target).permission,
        (textRule options table d line target).isContext⟩ := by
    obtain ⟨r, grants, hr, hsome, hget⟩ := hgrants target line hline
    obtain ⟨r', hr', hrule⟩ :=
      Region.exists_filter_build_eq options.defaults target hscopes hline
    obtain rfl : r = r' := (List.cons.inj (hr.symm.trans hr')).1
    rw [List.getElem?_eq_getElem hline'] at hsome
    rw [Option.some.inj hsome, hget, textRule, ← hrule]
    rfl
  rw [List.getElem?_eq_getElem hline', grantsOf, ← hget, ← hget, LineGrants.get, LineGrants.get]
  exact congrArg some (congrArg (LineGrants.mk · _ _) hnumber)

/-- What is granted on a line is settled by the lines up to it, if no tag there names a
construct: documents of one language that agree up to a line grant the same up to it,
whatever follows. -/
theorem exists_ofText_granting_alike (options : Options) (table : LanguageTable) {last : Nat}
    (hagree : d.AgreeUpTo last d')
    (hplain : ∀ tag ∈ d.tags, tag.line ≤ last → ¬ tag.NamesConstruct) :
    ∃ a a', ofText options table d = .ok a ∧ ofText options table d' = .ok a' ∧
      ∀ line ≤ last, line < d.lineCount → ∃ grants,
        a.permissions.lines[line]? = some grants ∧ a'.permissions.lines[line]? = some grants := by
  obtain ⟨a, hok, hgrants⟩ := exists_ofText_getElem? options table d
  obtain ⟨a', hok', hgrants'⟩ := exists_ofText_getElem? options table d'
  refine ⟨a, a', hok, hok', fun line hline hcount => ⟨_, hgrants line hcount, ?_⟩⟩
  have hrules : textRule options table d line = textRule options table d' line :=
    funext <| textRule_eq (hagree.mono hline) hcount fun tag htag htagLine =>
      hplain tag htag (htagLine.trans hline)
  rw [hrules]
  exact hgrants' line ((hagree.lt_lineCount_iff hline).mp hcount)

/-- A count that runs past the end, and documentation that ends with the document. -/
def endingDocument : Document :=
  .ofText "# @guard:ai:n.9\n# @guard:human:context\n# why".toList (some "python".toList)

/-- The same lines, with a tag for a function behind them. -/
def continuedDocument : Document :=
  .ofText ("# @guard:ai:n.9\n# @guard:human:context\n# why\n".toList ++
    "# @guard:ai:w.func\ndef f():\n    return 1".toList) (some "python".toList)

theorem exists_ofText_granting_alike_continued :
    endingDocument.AgreeUpTo 2 continuedDocument ∧
      (∀ tag ∈ endingDocument.tags, tag.line ≤ 2 → ¬ tag.NamesConstruct) ∧
      ∃ a a', ofText .standard LanguageTable.builtin endingDocument = .ok a ∧
        ofText .standard LanguageTable.builtin continuedDocument = .ok a' ∧
        ∀ line ≤ 2, line < endingDocument.lineCount → ∃ grants,
          a.permissions.lines[line]? = some grants ∧ a'.permissions.lines[line]? = some grants := by
  have hagree : endingDocument.AgreeUpTo 2 continuedDocument := ⟨rfl, by decide +kernel⟩
  have htags : endingDocument.tags = [⟨0, 0, .ai, none, .deny, .lines 9⟩,
      ⟨1, 0, .human, none, .context, .unbounded⟩] := by
    decide +kernel
  have hplain : ∀ tag ∈ endingDocument.tags, tag.line ≤ 2 → ¬ tag.NamesConstruct := by
    intro tag htag _
    rw [htags] at htag
    rintro ⟨keyword, added, removed, hreach⟩
    rcases List.mem_pair.mp htag with rfl | rfl <;> cases hreach
  exact ⟨hagree, hplain, exists_ofText_granting_alike _ _ hagree hplain⟩

end Analysis

end LineGuard
