/-
# Ways up and down a tree

From every node of a tree in memory one way leads up to the root, past nodes of ever smaller
numbers. Two nodes on one such way are therefore met in the order of their numbers, and the
way from the larger one leads past the smaller. The node at a position is found going down,
always to a child that contains the position, so that every node on the way back up contains
it and no child of the node found does.

That says nothing about nodes elsewhere in the tree. If every node lies in the one above it,
and siblings are apart, there are none that matter: all nodes that contain a position are on
the way up from the node found. For otherwise the way up from one of them would join that
way from the side, at a node two of whose children contain the position.
-/

import Mathlib.Data.List.Basic
import Mathlib.Logic.Relation
import LineGuard.Tree.Memory

namespace LineGuard

/-! ## Positions of an extent -/

namespace Extent

variable {e f : Extent} {line column : Nat}

theorem comesBefore_iff {line' column' : Nat} :
    comesBefore line column line' column' = true ↔
      line < line' ∨ line = line' ∧ column < column' := by
  simp [comesBefore]

theorem comesBefore_eq_false_iff {line' column' : Nat} :
    comesBefore line column line' column' = false ↔
      line' < line ∨ line' = line ∧ column' ≤ column := by
  rw [Bool.eq_false_iff, ne_eq, comesBefore_iff]
  omega

theorem contains_iff :
    e.contains line column = true ↔
      (e.startLine < line ∨ e.startLine = line ∧ e.startColumn ≤ column) ∧
        (line < e.endLine ∨ line = e.endLine ∧ column < e.endColumn) := by
  rw [contains, Bool.and_eq_true, Bool.not_eq_true', comesBefore_eq_false_iff, comesBefore_iff]

/-- The extent starts before it ends. -/
def IsProper (e : Extent) : Prop :=
  comesBefore e.startLine e.startColumn e.endLine e.endColumn = true

instance (e : Extent) : Decidable e.IsProper :=
  inferInstanceAs (Decidable (comesBefore _ _ _ _ = true))

theorem isProper_iff :
    e.IsProper ↔
      e.startLine < e.endLine ∨ e.startLine = e.endLine ∧ e.startColumn < e.endColumn :=
  comesBefore_iff

theorem isProper_of_contains (h : e.contains line column = true) : e.IsProper := by
  rw [contains_iff] at h
  rw [isProper_iff]
  omega

theorem IsProper.contains_start (h : e.IsProper) :
    e.contains e.startLine e.startColumn = true := by
  rw [isProper_iff] at h
  rw [contains_iff]
  omega

/-- Every position of one extent is in another. -/
def LiesIn (e f : Extent) : Prop :=
  ∀ line column, e.contains line column = true → f.contains line column = true

/-- No position is in both extents. -/
def Apart (e f : Extent) : Prop :=
  ∀ line column, e.contains line column = true → f.contains line column = false

theorem LiesIn.startLine_le (h : e.LiesIn f) (hproper : e.IsProper) :
    f.startLine ≤ e.startLine := by
  have hstart := contains_iff.mp (h _ _ hproper.contains_start)
  omega

/-- It is enough to look at where extents start and end. -/
theorem liesIn_of_bounds
    (hstart : comesBefore e.startLine e.startColumn f.startLine f.startColumn = false)
    (hend : comesBefore f.endLine f.endColumn e.endLine e.endColumn = false) : e.LiesIn f := by
  intro line column h
  rw [comesBefore_eq_false_iff] at hstart hend
  rw [contains_iff] at h ⊢
  omega

theorem apart_of_bounds
    (h : comesBefore f.startLine f.startColumn e.endLine e.endColumn = false) : e.Apart f := by
  intro line column he
  rw [comesBefore_eq_false_iff] at h
  rw [Bool.eq_false_iff, ne_eq, contains_iff]
  rw [contains_iff] at he
  omega

theorem Apart.symm (h : e.Apart f) : f.Apart e := by
  intro line column hf
  by_contra he
  rw [Bool.not_eq_false] at he
  rw [h line column he] at hf
  cases hf

/-- The last line on which an extent has any position. -/
structure IsLastLine (e : Extent) (last : Nat) : Prop where
  exists_contains : ∃ column, e.contains last column = true
  le_last : ∀ line column, e.contains line column = true → line ≤ last

theorem IsLastLine.unique {last other : Nat} (h : e.IsLastLine last) (h' : e.IsLastLine other) :
    last = other := by
  obtain ⟨column, hpos⟩ := h.exists_contains
  obtain ⟨column', hpos'⟩ := h'.exists_contains
  exact Nat.le_antisymm (h'.le_last _ _ hpos) (h.le_last _ _ hpos')

/-- An end at the start of a line belongs to the line before. -/
theorem IsProper.isLastLine_lastLine (h : e.IsProper) : e.IsLastLine e.lastLine := by
  rw [isProper_iff] at h
  rw [lastLine]
  split
  · next hcolumn =>
    refine ⟨⟨e.startColumn, contains_iff.mpr ?_⟩, fun line column hpos => ?_⟩
    · omega
    · rw [contains_iff] at hpos
      omega
  · next hcolumn =>
    refine ⟨⟨e.endColumn - 1, contains_iff.mpr ?_⟩, fun line column hpos => ?_⟩
    · omega
    · rw [contains_iff] at hpos
      omega

end Extent

namespace MemoryTree

variable {t : MemoryTree} {node above child parent : Nat} {line column : Nat}

/-! ## The way up -/

theorem lt_size_of_parent? (h : t.parent? node = some parent) : node < t.size := by
  by_contra hpast
  rw [parent?, Array.getElem?_eq_none (Nat.le_of_not_lt hpast)] at h
  cases h

/-- Only the root has nothing above it. -/
theorem eq_zero_of_parent?_eq_none (hnode : node < t.size) (h : t.parent? node = none) :
    node = 0 := by
  rw [parent?, Array.getElem?_eq_getElem hnode, Option.bind_some] at h
  exact t.eq_root node hnode h

/-- More steps than the number of a node make no difference. -/
theorem ancestorsWithin_congr {steps others : Nat} (hsteps : node < steps)
    (hothers : node < others) : t.ancestorsWithin steps node = t.ancestorsWithin others node := by
  induction steps generalizing others node with
  | zero => cases hsteps
  | succ steps ih =>
    obtain ⟨others, rfl⟩ := Nat.exists_eq_succ_of_ne_zero (Nat.ne_of_gt (Nat.zero_lt_of_lt hothers))
    rw [ancestorsWithin, ancestorsWithin]
    cases hparent : t.parent? node with
    | none => rfl
    | some parent =>
      have hlt := parent?_lt hparent
      exact congrArg (node :: ·) (ih (by omega) (by omega))

theorem ancestors_of_parent?_eq_some (h : t.parent? node = some parent) :
    t.ancestors node = node :: t.ancestors parent := by
  rw [ancestors, ancestorsWithin, h]
  exact congrArg (node :: ·) (ancestorsWithin_congr (parent?_lt h) (Nat.lt_succ_self parent))

theorem ancestors_of_parent?_eq_none (h : t.parent? node = none) : t.ancestors node = [node] := by
  rw [ancestors, ancestorsWithin, h]

/-- The way up from a node begins with the node. -/
theorem exists_ancestors_eq_cons (t : MemoryTree) (node : Nat) :
    ∃ rest, t.ancestors node = node :: rest := ⟨_, rfl⟩

theorem mem_ancestors_self : node ∈ t.ancestors node := by
  obtain ⟨rest, hrest⟩ := t.exists_ancestors_eq_cons node
  rw [hrest]
  exact List.mem_cons_self

theorem mem_ancestors_of_parent? (h : t.parent? node = some parent) :
    above ∈ t.ancestors node ↔ above = node ∨ above ∈ t.ancestors parent := by
  rw [ancestors_of_parent?_eq_some h, List.mem_cons]

/-- What is true of a node, and passes from every node to those directly below it, is true of
all nodes from which the way leads up to the first. -/
theorem mem_ancestors_induction {motive : (node : Nat) → above ∈ t.ancestors node → Prop}
    (self : motive above mem_ancestors_self)
    (child : ∀ {node parent} (hparent : t.parent? node = some parent)
      (hmem : above ∈ t.ancestors parent), motive parent hmem →
        motive node ((mem_ancestors_of_parent? hparent).mpr (.inr hmem)))
    (h : above ∈ t.ancestors node) : motive node h := by
  induction node using Nat.strongRecOn with
  | ind node ih =>
    cases hparent : t.parent? node with
    | none =>
      have hsame := h
      rw [ancestors_of_parent?_eq_none hparent] at hsame
      obtain rfl := List.mem_singleton.mp hsame
      exact self
    | some parent =>
      rcases (mem_ancestors_of_parent? hparent).mp h with rfl | hmem
      · exact self
      · exact child hparent hmem (ih parent (parent?_lt hparent) hmem)

theorem le_of_mem_ancestors (h : above ∈ t.ancestors node) : above ≤ node := by
  induction h using mem_ancestors_induction with
  | self => exact Nat.le_refl above
  | child hparent _ ih => exact Nat.le_trans ih (Nat.le_of_lt (parent?_lt hparent))

/-- A node lies strictly below another. -/
def Below (t : MemoryTree) : (node above : Nat) → Prop :=
  Relation.TransGen fun child parent => t.parent? child = some parent

theorem below_iff : t.Below node above ↔ above ∈ t.ancestors node ∧ above ≠ node := by
  constructor
  · intro h
    induction h using Relation.TransGen.head_induction_on with
    | single hparent =>
      exact ⟨(mem_ancestors_of_parent? hparent).mpr (.inr mem_ancestors_self),
        Nat.ne_of_lt (parent?_lt hparent)⟩
    | head hparent _ ih =>
      exact ⟨(mem_ancestors_of_parent? hparent).mpr (.inr ih.1),
        Nat.ne_of_lt (Nat.lt_of_le_of_lt (le_of_mem_ancestors ih.1) (parent?_lt hparent))⟩
  · rintro ⟨h, hne⟩
    induction h using mem_ancestors_induction with
    | self => exact absurd rfl hne
    | @child node parent hparent _ ih =>
      by_cases heq : above = parent
      · exact .single (heq ▸ hparent)
      · exact .head hparent (ih heq)

theorem Below.lt (h : t.Below node above) : above < node := by
  obtain ⟨hmem, hne⟩ := below_iff.mp h
  exact Nat.lt_of_le_of_ne (le_of_mem_ancestors hmem) hne

theorem Below.lt_size (h : t.Below node above) : node < t.size := by
  obtain ⟨parent, hparent, -⟩ := Relation.TransGen.head'_iff.mp h
  exact lt_size_of_parent? hparent

/-- The way up from a node becomes the way up from each node on it, and until then it meets
what is below that node. -/
theorem exists_ancestors_eq_append (h : above ∈ t.ancestors node) :
    ∃ way, t.ancestors node = way ++ t.ancestors above ∧ ∀ n ∈ way, t.Below n above := by
  induction h using mem_ancestors_induction with
  | self => exact ⟨[], rfl, fun _ hn => absurd hn List.not_mem_nil⟩
  | @child node parent hparent hmem ih =>
    obtain ⟨way, hway, hbelow⟩ := ih
    refine ⟨node :: way, ?_, List.forall_mem_cons.mpr ⟨below_iff.mpr ⟨?_, ?_⟩, hbelow⟩⟩
    · rw [ancestors_of_parent?_eq_some hparent, hway, List.cons_append]
    · exact (mem_ancestors_of_parent? hparent).mpr (.inr hmem)
    · exact Nat.ne_of_lt (Nat.lt_of_le_of_lt (le_of_mem_ancestors hmem) (parent?_lt hparent))

theorem mem_ancestors_trans {top : Nat} (htop : top ∈ t.ancestors above)
    (h : above ∈ t.ancestors node) : top ∈ t.ancestors node := by
  induction h using mem_ancestors_induction with
  | self => exact htop
  | child hparent _ ih => exact (mem_ancestors_of_parent? hparent).mpr (.inr ih)

/-- The way up meets ever smaller numbers. -/
theorem pairwise_ancestors (t : MemoryTree) (node : Nat) :
    (t.ancestors node).Pairwise (· > ·) := by
  induction node using Nat.strongRecOn with
  | ind node ih =>
    cases hparent : t.parent? node with
    | none =>
      rw [ancestors_of_parent?_eq_none hparent]
      exact List.pairwise_singleton _ _
    | some parent =>
      have hlt := parent?_lt hparent
      rw [ancestors_of_parent?_eq_some hparent, List.pairwise_cons]
      exact ⟨fun n hn => Nat.lt_of_le_of_lt (le_of_mem_ancestors hn) hlt, ih parent hlt⟩

/-- A node further up is reached from one of its children. -/
theorem exists_child_of_mem_ancestors (h : above ∈ t.ancestors node) (hne : above ≠ node) :
    ∃ child ∈ t.ancestors node, t.parent? child = some above := by
  induction h using mem_ancestors_induction with
  | self => exact absurd rfl hne
  | @child node parent hparent _ ih =>
    by_cases heq : above = parent
    · exact ⟨node, mem_ancestors_self, heq ▸ hparent⟩
    · obtain ⟨child, hchild, hup⟩ := ih heq
      exact ⟨child, (mem_ancestors_of_parent? hparent).mpr (.inr hchild), hup⟩

/-- All ways up end at the root. -/
theorem zero_mem_ancestors (hnode : node < t.size) : 0 ∈ t.ancestors node := by
  induction node using Nat.strongRecOn with
  | ind node ih =>
    cases hparent : t.parent? node with
    | none =>
      obtain rfl := eq_zero_of_parent?_eq_none hnode hparent
      exact mem_ancestors_self
    | some parent =>
      have hlt := parent?_lt hparent
      exact (mem_ancestors_of_parent? hparent).mpr (.inr (ih parent hlt (Nat.lt_trans hlt hnode)))

/-! ## The way down -/

theorem mem_children : child ∈ t.children node ↔ t.parent? child = some node := by
  rw [children, List.mem_filter, List.mem_range, beq_iff_eq]
  exact and_iff_right_of_imp lt_size_of_parent?

theorem childAt?_eq_none_iff :
    t.childAt? line column node = none ↔
      ∀ child, t.parent? child = some node → (t.extent child).contains line column = false := by
  simp only [childAt?, List.find?_eq_none, mem_children, Bool.not_eq_true]

theorem parent?_of_childAt? (h : t.childAt? line column node = some child) :
    t.parent? child = some node ∧ (t.extent child).contains line column = true := by
  rw [childAt?] at h
  have hpos := List.find?_some h
  exact ⟨mem_children.mp (List.mem_of_find?_eq_some h), hpos⟩

/-- What is known of the node found at a position. -/
structure IsFoundAt (t : MemoryTree) (line column node : Nat) : Prop where
  zero_mem : 0 ∈ t.ancestors node
  /-- The position is in the node and in everything above it. -/
  contains_of_mem : ∀ above ∈ t.ancestors node, (t.extent above).contains line column = true
  /-- And in nothing directly below it. -/
  not_contains_child : ∀ child, t.parent? child = some node →
    (t.extent child).contains line column = false

/-- Going down a step at a time, with enough of them left. -/
theorem isFoundAt_descend {steps : Nat} (hsteps : t.size ≤ node + steps)
    (hzero : 0 ∈ t.ancestors node)
    (hcontains : ∀ above ∈ t.ancestors node, (t.extent above).contains line column = true) :
    t.IsFoundAt line column (t.descend line column steps node) := by
  induction steps generalizing node with
  | zero =>
    -- Children have larger numbers, of which there are none.
    rw [descend]
    refine ⟨hzero, hcontains, fun child hparent => ?_⟩
    have hlt := parent?_lt hparent
    have hsize := lt_size_of_parent? hparent
    omega
  | succ steps ih =>
    rw [descend]
    cases hchild : t.childAt? line column node with
    | none => exact ⟨hzero, hcontains, childAt?_eq_none_iff.mp hchild⟩
    | some child =>
      obtain ⟨hparent, hpos⟩ := parent?_of_childAt? hchild
      have hlt := parent?_lt hparent
      have hup := ancestors_of_parent?_eq_some hparent
      refine ih (by omega) ?_ ?_
      · exact hup ▸ List.mem_cons_of_mem child hzero
      · rw [hup, List.forall_mem_cons]
        exact ⟨hpos, hcontains⟩

/-- The node at a position, where no query fails. -/
def found? (t : MemoryTree) (line column : Nat) : Option Nat :=
  if (t.extent 0).contains line column then some (t.descend line column t.size 0) else none

theorem nodeAt_eq_ok (hfault : t.fault = none) (line column : Nat) :
    t.nodeAt line column = .ok (t.found? line column) := by
  rw [nodeAt, hfault]
  exact (apply_ite Except.ok _ _ _).symm

theorem found?_eq_none_iff :
    t.found? line column = none ↔ (t.extent 0).contains line column = false := by
  rw [found?]
  split
  · next hroot => simp [hroot]
  · next hroot => simpa using hroot

theorem isFoundAt_of_found? (h : t.found? line column = some node) :
    t.IsFoundAt line column node := by
  rw [found?] at h
  split at h
  · next hroot =>
    obtain rfl := Option.some.inj h
    have honly : t.ancestors 0 = [0] := by
      apply ancestors_of_parent?_eq_none
      by_contra hparent
      obtain ⟨parent, hparent⟩ := Option.ne_none_iff_exists'.mp hparent
      exact absurd (parent?_lt hparent) (Nat.not_lt_zero parent)
    refine isFoundAt_descend (Nat.le_add_left _ _) mem_ancestors_self ?_
    rw [honly]
    exact List.forall_mem_singleton.mpr hroot
  · cases h

/-! ## Well-nested trees -/

/-- Nodes lie in those above them, and siblings are apart. -/
structure WellNested (t : MemoryTree) : Prop where
  liesIn : ∀ node parent, t.parent? node = some parent →
    (t.extent node).LiesIn (t.extent parent)
  apart : ∀ first second parent, t.parent? first = some parent →
    t.parent? second = some parent → first ≠ second → (t.extent first).Apart (t.extent second)

theorem WellNested.liesIn_of_mem_ancestors (ht : t.WellNested) (h : above ∈ t.ancestors node) :
    (t.extent node).LiesIn (t.extent above) := by
  induction h using mem_ancestors_induction with
  | self => exact fun _ _ hpos => hpos
  | @child node parent hparent _ ih =>
    exact fun line column hpos => ih _ _ (ht.liesIn node parent hparent _ _ hpos)

/-- What is no node contains nothing. -/
theorem lt_size_of_contains (h : (t.extent node).contains line column = true) :
    node < t.size := by
  by_contra hpast
  rw [extent, Array.getElem?_eq_none (Nat.le_of_not_lt hpast), Option.map_none,
    Option.getD_none] at h
  rcases (Extent.contains_iff.mp h).2 with hline | ⟨-, hcolumn⟩
  · exact Nat.not_lt_zero _ hline
  · exact Nat.not_lt_zero _ hcolumn

/-- All nodes that contain a position are on the way up from the one that is found there. -/
theorem WellNested.mem_ancestors_of_contains (ht : t.WellNested) {found : Nat}
    (hfound : t.IsFoundAt line column found)
    (hnode : (t.extent node).contains line column = true) : node ∈ t.ancestors found := by
  induction node using Nat.strongRecOn with
  | ind node ih =>
    cases hparent : t.parent? node with
    | none =>
      obtain rfl := eq_zero_of_parent?_eq_none (lt_size_of_contains hnode) hparent
      exact hfound.zero_mem
    | some parent =>
      have hup := ih parent (parent?_lt hparent) (ht.liesIn node parent hparent _ _ hnode)
      have hne : parent ≠ found := by
        rintro rfl
        rw [hfound.not_contains_child node hparent] at hnode
        cases hnode
      obtain ⟨child, hchild, hsame⟩ := exists_child_of_mem_ancestors hup hne
      have hpos := hfound.contains_of_mem child hchild
      -- Two children of the node above contain the position, so they are one.
      have heq : child = node := by
        by_contra hdifferent
        rw [ht.apart child node parent hsame hparent hdifferent _ _ hpos] at hnode
        cases hnode
      exact heq ▸ hchild

/-- Where a node contains a position, some node is found at it. -/
theorem WellNested.exists_found? (ht : t.WellNested)
    (h : (t.extent node).contains line column = true) :
    ∃ found, t.found? line column = some found := by
  have hroot := ht.liesIn_of_mem_ancestors (zero_mem_ancestors (lt_size_of_contains h)) _ _ h
  exact ⟨_, if_pos hroot⟩

/-- A tree whose nodes were added in the order in which they are written is well nested if
none reaches beyond the one above it or into its next sibling. -/
theorem wellNested_of_bounds
    (hin : ∀ node < t.size, ∀ parent < node, t.parent? node = some parent →
      Extent.comesBefore (t.extent node).startLine (t.extent node).startColumn
          (t.extent parent).startLine (t.extent parent).startColumn = false ∧
        Extent.comesBefore (t.extent parent).endLine (t.extent parent).endColumn
          (t.extent node).endLine (t.extent node).endColumn = false)
    (hapart : ∀ second < t.size, ∀ first < second, t.parent? first = t.parent? second →
      Extent.comesBefore (t.extent second).startLine (t.extent second).startColumn
        (t.extent first).endLine (t.extent first).endColumn = false) : t.WellNested where
  liesIn node parent hparent := by
    have hnode := lt_size_of_parent? hparent
    obtain ⟨hstart, hend⟩ := hin node hnode parent (parent?_lt hparent) hparent
    exact Extent.liesIn_of_bounds hstart hend
  apart first second parent hfirst hsecond hne := by
    have hsame := hfirst.trans hsecond.symm
    rcases Nat.lt_or_gt_of_ne hne with hlt | hlt
    · exact Extent.apart_of_bounds (hapart second (lt_size_of_parent? hsecond) first hlt hsame)
    · exact (Extent.apart_of_bounds
        (hapart first (lt_size_of_parent? hfirst) second hlt hsame.symm)).symm

end MemoryTree

end LineGuard
