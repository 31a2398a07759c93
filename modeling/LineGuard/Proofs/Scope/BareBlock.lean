/-
# Blocks that stand by themselves

A tag for a body may stand in front of a block that is no declaration's body. With a tree such
a block is found by a second search of the window, made when the first, for a declaration with
a body, came to nothing. What stands right below the tag does not enter into it: a declaration
further down, as long as it is in the window and its body is found, is taken instead of the
block.

Where there is none, the block is the smallest node around what is first seen below the tag,
and all its lines are governed, the first included. Reading the text instead of a tree takes
the constructs of the window in order and so comes to the block first in either case.
-/

import LineGuard.Proofs.Scope.SignatureAndBody
import LineGuard.Proofs.Scope.TreeConstruct

namespace LineGuard

/-! ## Declarations -/

theorem KindSet.contains_union {first second : KindSet} {kind : Text} :
    (first.union second).contains kind = true ↔
      first.contains kind = true ∨ second.contains kind = true := by
  rw [union, contains_insertAll, contains, contains, List.contains_iff_mem, List.contains_iff_mem]
  exact or_comm

/-- A kind of node counts as a declaration that may have a body. -/
def LanguageTable.Declares (table : LanguageTable) (language : Option Text) (kind : Text) :
    Prop :=
  (table.Accepts language .signature [] [] kind ∨ table.Accepts language .function [] [] kind) ∨
    table.Accepts language .classLike [] [] kind

theorem Resolver.contains_companions_body_iff (table : LanguageTable) (language : Option Text)
    (kind : Text) : (companions table language .body).contains kind = true ↔
      table.Declares language kind := by
  simp only [companions, KindSet.contains_union, table.contains_kindSet_iff,
    LanguageTable.Declares]

/-! ## Two searches -/

namespace SyntaxTree

variable {Node α : Type} {t : SyntaxTree Node}

/-- No question to the tree fails. -/
def Answers (t : SyntaxTree Node) : Prop := ∀ line column, ∃ node, t.nodeAt line column = .ok node

theorem Answers.exists_firstAnswer?_eq_ok (ht : t.Answers) (answer? : Node → Option α)
    (positions : List (Nat × Nat)) :
    ∃ answer, t.firstAnswer? answer? positions = .ok answer := by
  induction positions with
  | nil => exact ⟨none, rfl⟩
  | cons position rest ih =>
    obtain ⟨line, column⟩ := position
    obtain ⟨node, hnode⟩ := ht line column
    rw [firstAnswer?, hnode]
    dsimp only
    split
    · exact ⟨_, rfl⟩
    · exact ih

theorem Answers.exists_construct?_eq_ok (ht : t.Answers) (q : Query) (kinds : KindSet) :
    ∃ node, t.construct? q kinds = .ok node := by
  rw [construct?]
  split
  · exact ⟨none, rfl⟩
  · exact ht.exists_firstAnswer?_eq_ok _ _

variable [DecidableEq Node] {q : Query}

theorem Answers.exists_body?_eq_ok (ht : t.Answers) (d : Document) (declaration : Node)
    (kinds : KindSet) : ∃ body, t.body? d declaration kinds = .ok body := by
  rw [body?]
  split
  · exact ⟨none, rfl⟩
  · exact ht.exists_firstAnswer?_eq_ok _ _

/-- A query for a body that comes to no declaration with one is answered like a query for any
other construct. -/
theorem Answers.locate?_of_not_takesBody (ht : t.Answers) (hkeyword : q.keyword = .body)
    (hnone : ∀ declaration body, ¬ t.TakesBody q declaration body) :
    t.locate? q = t.locateConstruct? q := by
  obtain ⟨declaration, hdeclaration⟩ := ht.exists_construct?_eq_ok q q.companions
  rw [locate?, hkeyword]
  dsimp only
  rw [locateBody?, hdeclaration]
  cases declaration with
  | none => rfl
  | some declaration =>
    obtain ⟨body, hbody⟩ := ht.exists_body?_eq_ok q.document declaration q.kinds
    dsimp only [bind, Except.bind]
    rw [hbody]
    cases body with
    | none => rfl
    | some body => exact absurd ⟨hkeyword, hdeclaration, hbody⟩ (hnone declaration body)

end SyntaxTree

/-! ## Below the tag -/

namespace MemoryTree

variable {t : MemoryTree} {q : Query} {accepted declares : Text → Prop} {line column node : Nat}

theorem answers_toSyntaxTree (hfault : t.fault = none) : t.toSyntaxTree.Answers :=
  fun line column => ⟨_, nodeAt_eq_ok hfault line column⟩

/-- What a query sees first is in a node of an accepted kind and in no declaration, as far as
nodes start on the tag's line or later. -/
structure HeadedByBlock (t : MemoryTree) (q : Query) (accepted declares : Text → Prop)
    (line : Nat) : Prop where
  first : ∀ other column, q.LooksAt other → q.document.firstVisible? other = some column →
    line ≤ other
  exists_fits : ∃ node, t.Fits q accepted line node
  bare : ∀ node, ¬ t.Fits q declares line node

/-- The first fit is on the line that is seen first. -/
theorem HeadedByBlock.eq_line (h : t.HeadedByBlock q accepted declares line) {other : Nat}
    (hfirst : t.IsFirstFit q accepted other node) : other = line := by
  obtain ⟨block, hblock⟩ := h.exists_fits
  obtain ⟨column, hcolumn, -⟩ := hfirst.fits.contains_visible
  exact Nat.le_antisymm (hfirst.first line block hblock)
    (h.first other column hfirst.fits.looksAt hcolumn)

/-- A declaration that fits does so on a later line. -/
theorem HeadedByBlock.lt_of_fits (h : t.HeadedByBlock q accepted declares line) {later : Nat}
    (hfits : t.Fits q declares later node) : line < later := by
  obtain ⟨column, hcolumn, -⟩ := hfits.contains_visible
  refine Nat.lt_of_le_of_ne (h.first later column hfits.looksAt hcolumn) ?_
  rintro rfl
  exact h.bare node hfits

end MemoryTree

namespace Resolver

theorem accepts_eq_contains (r : Resolver Nat) (d : Document) (tag : Tag)
    (keyword : Construct.Keyword) (added removed : List Text) :
    r.table.Accepts d.language keyword added removed =
      ((r.query d tag keyword added removed).kinds.contains · = true) :=
  funext fun kind => propext (r.table.contains_kindSet_iff _ _ _ _ kind).symm

theorem declares_eq_contains (r : Resolver Nat) (d : Document) (tag : Tag)
    (added removed : List Text) : r.table.Declares d.language =
      ((r.query d tag .body added removed).companions.contains · = true) :=
  funext fun kind => propext (contains_companions_body_iff r.table d.language kind).symm

/-- Whether a bare block comes first shows in the nodes around one position. -/
theorem headedByBlock_of_contains (r : Resolver Nat) {t : MemoryTree} {d : Document} {tag : Tag}
    {added removed : List Text} (line column node : Nat)
    (hshows : let q := r.query d tag .body added removed
      (q.searchStart ≤ line ∧ line ≤ q.searchStart + q.window ∧ line < d.lineCount) ∧
      d.firstVisible? line = some column ∧
      (∀ other < line, q.searchStart ≤ other → d.firstVisible? other = none) ∧
      ((t.extent node).contains line column = true ∧ tag.line ≤ (t.extent node).startLine ∧
        q.kinds.contains (t.kind node) = true) ∧
      ∀ n < t.size, (t.extent n).contains line column = true →
        tag.line ≤ (t.extent n).startLine → q.companions.contains (t.kind n) = false) :
    t.HeadedByBlock (r.query d tag .body added removed)
      (r.table.Accepts d.language .body added removed) (r.table.Declares d.language) line := by
  obtain ⟨⟨hfrom, hto, hinside⟩, hcolumn, hblank, ⟨hnode, hstart, hkind⟩, hbare⟩ := hshows
  rw [r.accepts_eq_contains d tag, r.declares_eq_contains d tag added removed]
  refine ⟨fun other column' hother hshown => ?_,
    ⟨node, ⟨hfrom, hto, hinside⟩, ⟨column, hcolumn, hnode⟩, hstart, hkind⟩, fun n hfits => ?_⟩
  · by_contra hlt
    have hnothing := hblank other (Nat.lt_of_not_le hlt) hother.searchStart_le
    cases hnothing.symm.trans hshown
  · obtain ⟨column', hcolumn', hpos⟩ := hfits.contains_visible
    obtain rfl := Option.some.inj (hcolumn.symm.trans hcolumn')
    have hnot := hbare n (MemoryTree.lt_size_of_contains hpos) hpos hfits.tagLine_le
    cases hnot.symm.trans hfits.accepted

/-- With a well-nested tree that answers, a tag for a body that has a bare block below it
governs that block from its first line to its last, unless the search comes to a declaration
with a body. Such a declaration stands further down, and then it is its body that the tag
governs. -/
theorem resolve_of_headedByBlock (r : Resolver Nat) {t : MemoryTree} (ht : t.WellNested)
    (hfault : t.fault = none) (d : Document) {tag : Tag} {added removed : List Text}
    (hreach : tag.reach = .construct .body added removed) {line : Nat}
    (hblock : t.HeadedByBlock (r.query d tag .body added removed)
      (r.table.Accepts d.language .body added removed) (r.table.Declares d.language) line) :
    let q := r.query d tag .body added removed
    let scope := (r.withTree (some t.toSyntaxTree)).resolve d tag
    (∃ block last, t.IsFirstFit q (r.table.Accepts d.language .body added removed) line block ∧
      (t.extent block).IsLastLine last ∧
      ((∀ declaration body, ¬ t.toSyntaxTree.TakesBody q declaration body) →
        scope = ⟨tag.line, (t.extent block).startLine, some last, .syntaxTree⟩)) ∧
    ∀ declaration body, t.toSyntaxTree.TakesBody q declaration body →
      (∃ later, line < later ∧ t.IsFirstFit q (r.table.Declares d.language) later declaration) ∧
      t.IsBodyOf declaration q.kinds body ∧
      scope = .bounded tag.line (SyntaxTree.bodySpan d (t.extent body)) .syntaxTree := by
  intro q scope
  have hkeyword : q.keyword ≠ .signature := show Construct.Keyword.body ≠ .signature by decide
  have hresolve : (r.withTree (some t.toSyntaxTree)).resolve d tag =
      (r.withTree (some t.toSyntaxTree)).constructScope q := by
    rw [resolve, hreach]
    rfl
  have hscope {span : Span} (hlocate : t.toSyntaxTree.locate? q = .ok (some span)) :
      scope = .bounded tag.line span .syntaxTree := by
    refine hresolve.trans ?_
    rw [constructScope_of_ne_signature _ hkeyword, place?_withTree_of_some r hlocate]
    rfl
  rw [r.accepts_eq_contains d tag, r.declares_eq_contains d tag added removed] at hblock ⊢
  constructor
  · obtain ⟨block, hfits⟩ := hblock.exists_fits
    obtain ⟨taken, htaken⟩ := ht.exists_construct? hfault hfits
    obtain ⟨first, hfirst⟩ := ht.isFirstFit_of_construct? hfault htaken
    obtain rfl := hblock.eq_line hfirst
    obtain ⟨column, -, hpos⟩ := hfirst.fits.contains_visible
    have hproper := Extent.isProper_of_contains hpos
    have hlast := hproper.isLastLine_lastLine
    refine ⟨taken, _, hfirst, hlast, fun hnone => ?_⟩
    have hlocate : t.toSyntaxTree.locate? q =
        .ok (some (SyntaxTree.nodeSpan (t.extent taken))) := by
      rw [(MemoryTree.answers_toSyntaxTree hfault).locate?_of_not_takesBody rfl hnone,
        SyntaxTree.locateConstruct?, htaken]
      rfl
    rw [hscope hlocate, Scope.bounded, SyntaxTree.nodeSpan, Span.first_between,
      Span.last_between_of_le (hlast.le_last _ _ hproper.contains_start)]
  · intro declaration body htakes
    obtain ⟨later, hfirst⟩ := ht.isFirstFit_of_construct? hfault htakes.construct?_eq
    exact ⟨⟨later, hblock.lt_of_fits hfirst.fits, hfirst⟩,
      MemoryTree.isBodyOf_of_body? htakes.body?_eq, hscope htakes.locate?_eq⟩

/-- A block inside a function, with a blank line between it and its tag, and behind it a
declaration that has no body. -/
def innerBlockDocument : Document :=
  .ofText ("fn main() \x7b\n    // @guard:ai:n.body\n\n    \x7b\n        g();\n    \x7d\n" ++
    "    struct Unit;\n\x7d\n").toList (some "rust".toList)

def innerBlockTag : Tag := ⟨1, 4, .ai, none, .deny, .construct .body [] []⟩

/-- The nodes of `innerBlockDocument`. The function and its body start above the tag. -/
def innerBlockTree : MemoryTree :=
  (((((MemoryTree.root "source_file".toList ⟨0, 0, 8, 0⟩).add 0 (by decide)
    "function_item".toList ⟨0, 0, 7, 1⟩).add 1 (by decide)
    "block".toList ⟨0, 10, 7, 1⟩).add 2 (by decide)
    "block".toList ⟨3, 4, 5, 5⟩).add 3 (by decide)
    "expression_statement".toList ⟨4, 8, 4, 12⟩).add 2 (by decide)
    "struct_item".toList ⟨6, 4, 6, 16⟩

theorem resolve_of_headedByBlock_inner :
    let r : Resolver Nat := ⟨.builtin, none, true, 10⟩
    let language := innerBlockDocument.language
    let q := r.query innerBlockDocument innerBlockTag .body [] []
    innerBlockTag ∈ innerBlockDocument.tags ∧ innerBlockTree.WellNested ∧
      innerBlockTree.HeadedByBlock q (r.table.Accepts language .body [] [])
        (r.table.Declares language) 3 ∧
      (∀ declaration body, ¬ innerBlockTree.toSyntaxTree.TakesBody q declaration body) ∧
      (r.withTree (some innerBlockTree.toSyntaxTree)).resolve innerBlockDocument innerBlockTag =
        ⟨1, 3, some 5, .syntaxTree⟩ ∧
      ∃ block last, innerBlockTree.IsFirstFit q (r.table.Accepts language .body [] []) 3 block ∧
        (innerBlockTree.extent block).IsLastLine last ∧
        (r.withTree (some innerBlockTree.toSyntaxTree)).resolve innerBlockDocument
          innerBlockTag = ⟨1, (innerBlockTree.extent block).startLine, some last, .syntaxTree⟩ := by
  intro r language q
  have hnested : innerBlockTree.WellNested :=
    MemoryTree.wellNested_of_bounds (by decide +kernel) (by decide +kernel)
  have hblock : innerBlockTree.HeadedByBlock q (r.table.Accepts language .body [] [])
      (r.table.Declares language) 3 :=
    r.headedByBlock_of_contains 3 4 3 (by decide +kernel)
  have hfacts : innerBlockTag ∈ innerBlockDocument.tags ∧
      innerBlockTree.toSyntaxTree.construct? q q.companions = .ok (some 5) ∧
      innerBlockTree.toSyntaxTree.body? innerBlockDocument 5 q.kinds = .ok none ∧
      (r.withTree (some innerBlockTree.toSyntaxTree)).resolve innerBlockDocument innerBlockTag =
        ⟨1, 3, some 5, .syntaxTree⟩ := by decide +kernel
  obtain ⟨htag, hconstruct, hbody, hlines⟩ := hfacts
  have hnone : ∀ declaration body,
      ¬ innerBlockTree.toSyntaxTree.TakesBody q declaration body := by
    intro declaration body htakes
    obtain rfl := Option.some.inj (Except.ok.inj (hconstruct.symm.trans htakes.construct?_eq))
    cases hbody.symm.trans htakes.body?_eq
  obtain ⟨⟨block, last, hfirst, hlast, hscope⟩, -⟩ := resolve_of_headedByBlock r hnested rfl
    innerBlockDocument (rfl : innerBlockTag.reach = .construct .body [] []) hblock
  exact ⟨htag, hnested, hblock, hnone, hlines, block, last, hfirst, hlast, hscope hnone⟩

/-- A block right below its tag, with a function behind it. -/
def blockAndFunction : Document :=
  .ofText ("// @guard:ai:n.body\n\x7b\n    g();\n\x7d\n" ++
    "fn f() \x7b\n    h();\n\x7d\n").toList (some "rust".toList)

def blockTag : Tag := ⟨0, 0, .ai, none, .deny, .construct .body [] []⟩

/-- The nodes of `blockAndFunction`. -/
def blockAndFunctionTree : MemoryTree :=
  ((((MemoryTree.root "source_file".toList ⟨0, 0, 7, 0⟩).add 0 (by decide)
    "block".toList ⟨1, 0, 3, 1⟩).add 1 (by decide)
    "expression_statement".toList ⟨2, 4, 2, 8⟩).add 0 (by decide)
    "function_item".toList ⟨4, 0, 6, 1⟩).add 3 (by decide)
    "block".toList ⟨4, 7, 6, 1⟩

/-- A function further down takes the tag away from the block right below it. The block is
on lines 1 to 3, and read from the text the tag does govern its inside. -/
theorem resolve_blockAndFunction :
    let r : Resolver Nat := ⟨.builtin, none, true, 10⟩
    let language := blockAndFunction.language
    let q := r.query blockAndFunction blockTag .body [] []
    let accepted := r.table.Accepts language .body [] []
    blockTag ∈ blockAndFunction.tags ∧
      blockAndFunction.hasCodeBefore blockTag.line blockTag.column = false ∧
      blockAndFunctionTree.WellNested ∧ blockAndFunctionTree.fault = none ∧
      blockAndFunctionTree.HeadedByBlock q accepted (r.table.Declares language) 1 ∧
      (∃ block, blockAndFunctionTree.IsFirstFit q accepted 1 block ∧
        (blockAndFunctionTree.extent block).startLine = 1 ∧
        (blockAndFunctionTree.extent block).IsLastLine 3) ∧
      (r.withTree (some blockAndFunctionTree.toSyntaxTree)).resolve blockAndFunction blockTag =
        ⟨0, 5, some 6, .syntaxTree⟩ ∧
      (r.withTree none).resolve blockAndFunction blockTag = ⟨0, 2, some 3, .heuristic⟩ := by
  intro r language q accepted
  have hnested : blockAndFunctionTree.WellNested :=
    MemoryTree.wellNested_of_bounds (by decide +kernel) (by decide +kernel)
  have hblock : blockAndFunctionTree.HeadedByBlock q accepted (r.table.Declares language) 1 :=
    r.headedByBlock_of_contains 1 0 1 (by decide +kernel)
  have hfacts : blockTag ∈ blockAndFunction.tags ∧
      blockAndFunction.hasCodeBefore blockTag.line blockTag.column = false ∧
      blockAndFunctionTree.toSyntaxTree.construct? q q.kinds = .ok (some 1) ∧
      (r.withTree (some blockAndFunctionTree.toSyntaxTree)).resolve blockAndFunction blockTag =
        ⟨0, 5, some 6, .syntaxTree⟩ ∧
      (r.withTree none).resolve blockAndFunction blockTag = ⟨0, 2, some 3, .heuristic⟩ := by
    decide +kernel
  obtain ⟨htag, halone, hconstruct, hfunction, htext⟩ := hfacts
  obtain ⟨line, hfirst⟩ := hnested.isFirstFit_of_construct? rfl hconstruct
  rw [← r.accepts_eq_contains blockAndFunction blockTag] at hfirst
  obtain rfl := hblock.eq_line hfirst
  have hlast : (blockAndFunctionTree.extent 1).IsLastLine 3 :=
    Extent.IsProper.isLastLine_lastLine (by decide)
  exact ⟨htag, halone, hnested, rfl, hblock, ⟨1, hfirst, rfl, hlast⟩, hfunction, htext⟩

end Resolver

end LineGuard
