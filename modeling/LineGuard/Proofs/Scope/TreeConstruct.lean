/-
# Constructs placed by a tree

A search by the tree looks at one position on each line and climbs from the node found there,
as long as the nodes start on the tag's line or later. Only nodes on the way up from that
one node are ever considered, and the climb gives up at the first node that starts too early.

In a well-nested tree neither loses anything. All nodes around a position are on the way up
from the node found at it, and a node further up starts no later than one below it, so that
behind the first node that starts too early there are only others. The search therefore
comes to the smallest node that fits on the first line on which any does. What fits is said
here without mention of ways up or down.
-/

import Mathlib.Data.List.TakeWhile
import LineGuard.Language.Builtin
import LineGuard.Proofs.Region.Activation
import LineGuard.Proofs.Tree.Nesting
import LineGuard.Scope.Resolver
import LineGuard.Tag.Grammar

namespace LineGuard

/-! ## Which kinds are accepted -/

/-- A kind of node counts as a construct of a language: it is listed for the construct or
one of the added names stands for it, and none of the removed names does. -/
def LanguageTable.Accepts (table : LanguageTable) (language : Option Text)
    (keyword : Construct.Keyword) (added removed : List Text) (kind : Text) : Prop :=
  let language := language.bind table.language?
  ((∃ known, language = some known ∧ kind ∈ known.kinds keyword.name) ∨
      ∃ name ∈ added, kind ∈ Language.expand language name) ∧
    ∀ name ∈ removed, kind ∉ Language.expand language name

theorem LanguageTable.contains_kindSet_iff (table : LanguageTable) (language : Option Text)
    (keyword : Construct.Keyword) (added removed : List Text) (kind : Text) :
    (table.kindSet language keyword added removed).contains kind = true ↔
      table.Accepts language keyword added removed kind := by
  rw [kindSet, KindSet.contains_eraseAll, KindSet.contains_insertAll, KindSet.ofList,
    KindSet.contains_insertAll]
  have hempty : KindSet.empty.contains kind ≠ true := by simp [KindSet.empty, KindSet.contains]
  rw [or_iff_left hempty, List.mem_flatMap, List.mem_flatMap, Accepts]
  cases language.bind table.language? with
  | none => simp
  | some known => simp [or_comm]

/-! ## What fits a query -/

/-- A query looks at a line. -/
structure Query.LooksAt (q : Query) (line : Nat) : Prop where
  searchStart_le : q.searchStart ≤ line
  le_window : line ≤ q.searchStart + q.window
  lt_lineCount : line < q.document.lineCount

theorem Document.lt_lineCount_of_firstVisible? {d : Document} {line column : Nat}
    (h : d.firstVisible? line = some column) : line < d.lineCount := by
  by_contra hpast
  rw [firstVisible?, line_eq_nil (Nat.le_of_not_lt hpast)] at h
  cases h

theorem Query.mem_searchLines_iff {q : Query} {line column : Nat}
    (h : q.document.firstVisible? line = some column) : line ∈ q.searchLines ↔ q.LooksAt line := by
  have hcount := Document.lt_lineCount_of_firstVisible? h
  obtain ⟨final, hfinal, hlast, hle⟩ := Document.exists_lastLine?_eq_some hcount
  rw [searchLines, List.mem_range'_1, hfinal, Option.getD_some]
  constructor
  · rintro ⟨hfirst, hend⟩
    exact ⟨hfirst, by omega, hcount⟩
  · rintro ⟨hfirst, hwindow, -⟩
    omega

namespace MemoryTree

/-- A node fits a query on a line: the query looks at the line, the node is around what is
first seen there, starts on the tag's line or later, and is of an accepted kind. -/
structure Fits (t : MemoryTree) (q : Query) (accepted : Text → Prop) (line node : Nat) :
    Prop where
  looksAt : q.LooksAt line
  contains_visible : ∃ column, q.document.firstVisible? line = some column ∧
    (t.extent node).contains line column = true
  tagLine_le : q.tagLine ≤ (t.extent node).startLine
  accepted : accepted (t.kind node)

/-- The smallest node that fits on the first line on which any does. -/
structure IsFirstFit (t : MemoryTree) (q : Query) (accepted : Text → Prop) (line node : Nat) :
    Prop where
  fits : t.Fits q accepted line node
  first : ∀ other node', t.Fits q accepted other node' → line ≤ other
  smallest : ∀ node', t.Fits q accepted line node' → (t.extent node).LiesIn (t.extent node')

variable {t : MemoryTree} {q : Query} {kinds : KindSet} {line column node other : Nat}

/-! ## The climb -/

theorem enclosing?_eq (t : MemoryTree) (tagLine : Nat) (kinds : KindSet) (found : Nat) :
    t.toSyntaxTree.enclosing? tagLine kinds found =
      ((t.ancestors found).takeWhile fun n => decide (tagLine ≤ (t.extent n).startLine)).find?
        fun n => kinds.contains (t.kind n) := rfl

theorem mem_ancestors_of_enclosing? {tagLine found : Nat}
    (h : t.toSyntaxTree.enclosing? tagLine kinds found = some node) :
    node ∈ t.ancestors found ∧ tagLine ≤ (t.extent node).startLine ∧
      kinds.contains (t.kind node) = true := by
  rw [enclosing?_eq] at h
  have hmem := List.mem_of_find?_eq_some h
  have hkind := List.find?_some h
  have hstart := List.mem_takeWhile_imp hmem
  exact ⟨List.takeWhile_subset _ hmem, of_decide_eq_true hstart, hkind⟩

/-- The climb misses nothing: it ends at a node it may take, or at one below it. -/
theorem WellNested.exists_enclosing? (ht : t.WellNested) {tagLine found : Nat}
    (hfound : t.IsFoundAt line column found) (hmem : node ∈ t.ancestors found)
    (hstart : tagLine ≤ (t.extent node).startLine)
    (hkind : kinds.contains (t.kind node) = true) :
    ∃ taken, t.toSyntaxTree.enclosing? tagLine kinds found = some taken ∧
      node ∈ t.ancestors taken := by
  obtain ⟨way, hway, hway_below⟩ := exists_ancestors_eq_append hmem
  obtain ⟨rest, hrest⟩ := t.exists_ancestors_eq_cons node
  have hbelow : ∀ n ∈ way, node ∈ t.ancestors n :=
    fun n hn => (below_iff.mp (hway_below n hn)).1
  -- Nothing below the node starts earlier, so the climb does not give up in front of it.
  have hstarts : ∀ n ∈ way, decide (tagLine ≤ (t.extent n).startLine) = true := by
    intro n hn
    have hmet : n ∈ t.ancestors found := hway ▸ List.mem_append_left _ hn
    have hproper := Extent.isProper_of_contains (hfound.contains_of_mem n hmet)
    have hle := (ht.liesIn_of_mem_ancestors (hbelow n hn)).startLine_le hproper
    exact decide_eq_true (Nat.le_trans hstart hle)
  have hclimb : t.toSyntaxTree.enclosing? tagLine kinds found =
      (way.find? fun n => kinds.contains (t.kind n)).or (some node) := by
    rw [enclosing?_eq, hway, hrest, List.takeWhile_append_of_pos hstarts, List.takeWhile_cons,
      if_pos (decide_eq_true hstart), List.find?_append, List.find?_cons, hkind]
  cases hearlier : way.find? fun n => kinds.contains (t.kind n) with
  | none => exact ⟨node, by rw [hclimb, hearlier]; rfl, mem_ancestors_self⟩
  | some taken =>
    exact ⟨taken, by rw [hclimb, hearlier]; rfl, hbelow taken (List.mem_of_find?_eq_some hearlier)⟩

/-! ## One line -/

/-- The node a query takes for what is first seen on a line. -/
def taken? (t : MemoryTree) (q : Query) (kinds : KindSet) (line : Nat) : Option Nat :=
  (q.document.firstVisible? line).bind fun column =>
    (t.found? line column).bind (t.toSyntaxTree.enclosing? q.tagLine kinds)

theorem fits_of_taken? (hline : line ∈ q.searchLines) (h : t.taken? q kinds line = some node) :
    t.Fits q (kinds.contains · = true) line node := by
  obtain ⟨column, hcolumn, hbind⟩ := Option.bind_eq_some_iff.mp h
  obtain ⟨found, hfound, hclimb⟩ := Option.bind_eq_some_iff.mp hbind
  obtain ⟨hmem, hstart, hkind⟩ := mem_ancestors_of_enclosing? hclimb
  exact
    { looksAt := (Query.mem_searchLines_iff hcolumn).mp hline
      contains_visible := ⟨column, hcolumn, (isFoundAt_of_found? hfound).contains_of_mem node hmem⟩
      tagLine_le := hstart
      accepted := hkind }

theorem WellNested.exists_taken? (ht : t.WellNested)
    (h : t.Fits q (kinds.contains · = true) line node) :
    line ∈ q.searchLines ∧
      ∃ taken, t.taken? q kinds line = some taken ∧ node ∈ t.ancestors taken := by
  obtain ⟨column, hcolumn, hpos⟩ := h.contains_visible
  obtain ⟨found, hfound⟩ := ht.exists_found? hpos
  have hat := isFoundAt_of_found? hfound
  have hmem := ht.mem_ancestors_of_contains hat hpos
  obtain ⟨taken, htaken, habove⟩ := ht.exists_enclosing? hat hmem h.tagLine_le h.accepted
  refine ⟨(Query.mem_searchLines_iff hcolumn).mpr h.looksAt, taken, ?_, habove⟩
  rw [taken?, hcolumn, Option.bind_some, hfound, Option.bind_some, htaken]

/-! ## The whole search -/

theorem taken?_eq_none_of_isEmpty (h : kinds.isEmpty = true) : t.taken? q kinds line = none := by
  by_contra hsome
  obtain ⟨node, hsome⟩ := Option.ne_none_iff_exists'.mp hsome
  obtain ⟨column, -, hbind⟩ := Option.bind_eq_some_iff.mp hsome
  obtain ⟨found, -, hclimb⟩ := Option.bind_eq_some_iff.mp hbind
  have hkind := (mem_ancestors_of_enclosing? hclimb).2.2
  rw [KindSet.contains, List.isEmpty_iff.mp h] at hkind
  cases hkind

/-- Where no query fails, the search goes through the lines one by one. -/
theorem construct?_eq_findSome? (hfault : t.fault = none) (q : Query) (kinds : KindSet) :
    t.toSyntaxTree.construct? q kinds = .ok (q.searchLines.findSome? (t.taken? q kinds)) := by
  rw [SyntaxTree.construct?]
  split
  · next hempty =>
    rw [List.findSome?_eq_none_iff.mpr fun line _ => taken?_eq_none_of_isEmpty hempty]
  · rw [SyntaxTree.searchPositions]
    generalize q.searchLines = lines
    induction lines with
    | nil => rfl
    | cons line rest ih =>
      cases hcolumn : q.document.firstVisible? line with
      | none =>
        have hnone : t.taken? q kinds line = none := by rw [taken?, hcolumn, Option.bind_none]
        rw [List.filterMap_cons_none (by rw [hcolumn, Option.map_none]), ih, List.findSome?_cons,
          hnone]
      | some column =>
        have htaken : t.taken? q kinds line =
            (t.found? line column).bind (t.toSyntaxTree.enclosing? q.tagLine kinds) := by
          rw [taken?, hcolumn, Option.bind_some]
        have hanswer : t.toSyntaxTree.nodeAt line column = .ok (t.found? line column) :=
          nodeAt_eq_ok hfault line column
        rw [List.filterMap_cons_some (by rw [hcolumn, Option.map_some]), SyntaxTree.firstAnswer?,
          hanswer, List.findSome?_cons, htaken, ih]
        dsimp only
        cases (t.found? line column).bind (t.toSyntaxTree.enclosing? q.tagLine kinds) with
        | none => rfl
        | some node => rfl

/-- The search comes to the first fit, if there is one. -/
theorem WellNested.isFirstFit_of_construct? (ht : t.WellNested) (hfault : t.fault = none)
    (h : t.toSyntaxTree.construct? q kinds = .ok (some node)) :
    ∃ line, t.IsFirstFit q (kinds.contains · = true) line node := by
  rw [construct?_eq_findSome? hfault] at h
  obtain ⟨before, line, behind, hlines, htaken, hnone⟩ :=
    List.findSome?_eq_some_iff.mp (Except.ok.inj h)
  have hmem : line ∈ q.searchLines := by
    rw [hlines]
    exact List.mem_append_right _ List.mem_cons_self
  refine ⟨line, fits_of_taken? hmem htaken, fun other node' hfits => ?_, fun node' hfits => ?_⟩
  · obtain ⟨hother, taken, hsome, -⟩ := ht.exists_taken? hfits
    have hsorted : q.searchLines.Pairwise (· < ·) := List.pairwise_lt_range' 1
    rw [hlines] at hother hsorted
    rcases List.mem_append.mp hother with hbefore | hbehind
    · rw [hnone other hbefore] at hsome
      cases hsome
    · have hordered := (List.pairwise_append.mp hsorted).2.1
      rcases List.mem_cons.mp hbehind with rfl | hlater
      · exact Nat.le_refl _
      · exact Nat.le_of_lt (List.rel_of_pairwise_cons hordered hlater)
  · obtain ⟨-, taken, hsome, habove⟩ := ht.exists_taken? hfits
    obtain rfl := Option.some.inj (htaken.symm.trans hsome)
    exact ht.liesIn_of_mem_ancestors habove

theorem WellNested.exists_construct? (ht : t.WellNested) (hfault : t.fault = none)
    (h : t.Fits q (kinds.contains · = true) line node) :
    ∃ taken, t.toSyntaxTree.construct? q kinds = .ok (some taken) := by
  obtain ⟨hline, taken, htaken, -⟩ := ht.exists_taken? h
  rw [construct?_eq_findSome? hfault]
  cases hfirst : q.searchLines.findSome? (t.taken? q kinds) with
  | some first => exact ⟨first, rfl⟩
  | none =>
    rw [List.findSome?_eq_none_iff.mp hfirst line hline] at htaken
    cases htaken

theorem WellNested.construct?_eq_none (ht : t.WellNested) (hfault : t.fault = none)
    (h : ∀ line node, ¬ t.Fits q (kinds.contains · = true) line node) :
    t.toSyntaxTree.construct? q kinds = .ok none := by
  cases hfirst : q.searchLines.findSome? (t.taken? q kinds) with
  | none => rw [construct?_eq_findSome? hfault, hfirst]
  | some node =>
    have hsome := (construct?_eq_findSome? hfault q kinds).trans (congrArg Except.ok hfirst)
    obtain ⟨line, hfit⟩ := ht.isFirstFit_of_construct? hfault hsome
    exact absurd hfit.fits (h line node)

end MemoryTree

/-! ## The scope -/

namespace SyntaxTree

variable {Node : Type} [DecidableEq Node] {t : SyntaxTree Node} {q : Query}

/-- Signatures and bodies apart, the lines of a construct are those of one node. -/
theorem locate?_of_construct? (hsignature : q.keyword ≠ .signature) (hbody : q.keyword ≠ .body)
    {node : Option Node} (h : t.construct? q q.kinds = .ok node) :
    t.locate? q = .ok (node.map fun node => nodeSpan (t.extent node)) := by
  rw [locate?]
  split
  · next hkeyword => exact absurd hkeyword hsignature
  · next hkeyword => exact absurd hkeyword hbody
  · rw [locateConstruct?, h]
    rfl

end SyntaxTree

namespace Resolver

section

variable {Node : Type} [DecidableEq Node] {t : SyntaxTree Node} {q : Query}

/-- The same resolver with some tree or none. -/
def withTree (r : Resolver Node) (tree : Option (SyntaxTree Node)) : Resolver Node :=
  { r with tree }

theorem place?_withTree_of_some (r : Resolver Node) {span : Span}
    (h : t.locate? q = .ok (some span)) :
    (r.withTree (some t)).place? q = some (span, .syntaxTree) := by
  simp [place?, placeByTree?, withTree, h]

/-- Where the tree finds nothing, it is as if there were none. -/
theorem place?_withTree_of_none (r : Resolver Node) (h : t.locate? q = .ok none) :
    (r.withTree (some t)).place? q = (r.withTree none).place? q := by
  have htree : (r.withTree (some t)).placeByTree? q = none := by
    simp [placeByTree?, withTree, h]
  rw [place?, htree]
  rfl

/-- A node that is no body is governed from the line of its tag on. -/
theorem bounded_governedSpan_nodeSpan {tagLine : Nat} {keyword : Construct.Keyword} {e : Extent}
    (hbody : keyword ≠ .body) (hfirst : tagLine ≤ e.startLine) (hlast : e.startLine ≤ e.lastLine)
    (origin : ScopeOrigin) :
    Scope.bounded tagLine (governedSpan tagLine keyword (SyntaxTree.nodeSpan e)) origin =
      ⟨tagLine, tagLine, some e.lastLine, origin⟩ := by
  have hlines : (SyntaxTree.nodeSpan e).last = e.lastLine := Span.last_between_of_le hlast
  have hmin : min tagLine (SyntaxTree.nodeSpan e).first = tagLine := Nat.min_eq_left hfirst
  have hspan : governedSpan tagLine keyword (SyntaxTree.nodeSpan e) =
      .between tagLine e.lastLine := by
    rw [governedSpan, hmin, hlines]
    exact hbody
  have hend := Span.last_between_of_le (Nat.le_trans hfirst hlast)
  rw [hspan, Scope.bounded, hend, Span.first_between]

/-- Only a signature can be that of the line on which its tag stands. -/
theorem constructScope_of_ne_signature (r : Resolver Node) (hsignature : q.keyword ≠ .signature) :
    r.constructScope q =
      match r.place? q with
      | some (span, origin) => .bounded q.tagLine (governedSpan q.tagLine q.keyword span) origin
      | none => .openEnded q.tagLine .unresolved := by
  have hinline : ¬ (q.isInline && q.keyword == .signature) = true := by
    rw [Bool.and_eq_true, beq_iff_eq]
    exact fun h => hsignature h.2
  exact if_neg hinline

end

/-- With a well-nested tree that answers, a tag that names a construct other than a signature
or a body governs the lines from its own to the last of the smallest node that fits, on the
first line on which one does. Where none fits anywhere, the tree makes no difference. -/
theorem resolve_withTree (r : Resolver Nat) {t : MemoryTree} (ht : t.WellNested)
    (hfault : t.fault = none) (d : Document) {tag : Tag} {keyword : Construct.Keyword}
    {added removed : List Text} (hreach : tag.reach = .construct keyword added removed)
    (hsignature : keyword ≠ .signature) (hbody : keyword ≠ .body) :
    let q := r.query d tag keyword added removed
    let accepted := r.table.Accepts d.language keyword added removed
    ((∃ line node, t.Fits q accepted line node) →
      ∃ line node last, t.IsFirstFit q accepted line node ∧ (t.extent node).IsLastLine last ∧
        (r.withTree (some t.toSyntaxTree)).resolve d tag =
          ⟨tag.line, tag.line, some last, .syntaxTree⟩) ∧
    ((∀ line node, ¬ t.Fits q accepted line node) →
      (r.withTree (some t.toSyntaxTree)).resolve d tag = (r.withTree none).resolve d tag) := by
  intro q accepted
  have haccepted : accepted = (q.kinds.contains · = true) :=
    funext fun kind => propext
      (r.table.contains_kindSet_iff d.language keyword added removed kind).symm
  have hresolve (tree : Option (SyntaxTree Nat)) :
      (r.withTree tree).resolve d tag = (r.withTree tree).constructScope q := by
    rw [resolve, hreach]
    rfl
  rw [haccepted, hresolve, hresolve, constructScope_of_ne_signature _ hsignature,
    constructScope_of_ne_signature _ hsignature]
  constructor
  · rintro ⟨line, node, hfits⟩
    obtain ⟨taken, htaken⟩ := ht.exists_construct? hfault hfits
    obtain ⟨first, hfirst⟩ := ht.isFirstFit_of_construct? hfault htaken
    obtain ⟨column, -, hpos⟩ := hfirst.fits.contains_visible
    have hproper := Extent.isProper_of_contains hpos
    have hlast := hproper.isLastLine_lastLine
    have hstart := hlast.le_last _ _ hproper.contains_start
    refine ⟨first, taken, _, hfirst, hlast, ?_⟩
    rw [place?_withTree_of_some r (SyntaxTree.locate?_of_construct? hsignature hbody htaken)]
    exact bounded_governedSpan_nodeSpan hbody hfirst.fits.tagLine_le hstart .syntaxTree
  · intro hnone
    have hnothing := ht.construct?_eq_none hfault hnone
    rw [place?_withTree_of_none r (SyntaxTree.locate?_of_construct? hsignature hbody hnothing)]

/-- A function behind a blank line, and a line in front of its tag. -/
def functionDocument : Document :=
  .ofText "x = 1\n# @guard:ai:n.func\n\ndef f():\n    return x\ny = 2\n".toList
    (some "python".toList)

def functionTag : Tag := ⟨1, 0, .ai, none, .deny, .construct .function [] []⟩

/-- The nodes of `functionDocument`. The function ends where the line behind it starts. -/
def functionTree : MemoryTree :=
  ((((MemoryTree.root "module".toList ⟨0, 0, 6, 0⟩).add 0 (by decide)
    "expression_statement".toList ⟨0, 0, 0, 5⟩).add 0 (by decide)
    "function_definition".toList ⟨3, 0, 5, 0⟩).add 2 (by decide)
    "block".toList ⟨4, 4, 4, 12⟩).add 0 (by decide)
    "expression_statement".toList ⟨5, 0, 5, 5⟩

theorem resolve_withTree_function :
    let r : Resolver Nat := ⟨.builtin, none, true, 3⟩
    let accepted := r.table.Accepts functionDocument.language .function [] []
    functionTag ∈ functionDocument.tags ∧ functionTree.WellNested ∧
      (r.withTree (some functionTree.toSyntaxTree)).resolve functionDocument functionTag =
        ⟨1, 1, some 4, .syntaxTree⟩ ∧
      ∃ line node last,
        functionTree.IsFirstFit (r.query functionDocument functionTag .function [] []) accepted
          line node ∧
        (functionTree.extent node).IsLastLine last ∧
        (r.withTree (some functionTree.toSyntaxTree)).resolve functionDocument functionTag =
          ⟨1, 1, some last, .syntaxTree⟩ := by
  intro r accepted
  have hnested : functionTree.WellNested :=
    MemoryTree.wellNested_of_bounds (by decide +kernel) (by decide +kernel)
  have hfits : functionTree.Fits (r.query functionDocument functionTag .function [] []) accepted
      3 2 :=
    { looksAt := ⟨by decide +kernel, by decide +kernel, by decide +kernel⟩
      contains_visible := ⟨0, by decide +kernel, by decide +kernel⟩
      tagLine_le := by decide +kernel
      accepted := (r.table.contains_kindSet_iff _ _ _ _ _).mp (by decide +kernel) }
  have hreach : functionTag.reach = .construct .function [] [] := rfl
  have hresolve := resolve_withTree r hnested rfl functionDocument hreach (by decide) (by decide)
  exact ⟨by decide +kernel, hnested, by decide +kernel, hresolve.1 ⟨3, 2, hfits⟩⟩

end Resolver

end LineGuard
