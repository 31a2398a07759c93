/-
# The smallest node at a position

Going down from the root, always to a child that contains the position, comes to an end: numbers
grow on the way, and there are only so many of them. Where it ends, no child contains the
position any more, while the node reached and everything above it do.

In a tree of any shape this is all that can be said, for another branch may hold a node that is
smaller still. In a well-nested tree there is no other branch: whatever contains the position is
on the way up from the node that is found.
-/

import LineGuard.Proofs.Tree.Nesting

namespace LineGuard

namespace MemoryTree

variable {t : MemoryTree} {node : Nat} {line column : Nat}

/-- A list of nodes leads from a node up to the root, one step at a time, without coming back to
any of them. -/
structure IsWayUp (t : MemoryTree) (node : Nat) (way : List Nat) : Prop where
  head?_eq : way.head? = some node
  isChain : way.IsChain fun below above => t.parent? below = some above
  /-- The root is the last, and there is nothing above it. -/
  getLast?_eq : way.getLast? = some 0 ∧ t.parent? 0 = none
  nodup : way.Nodup

theorem parent?_zero (t : MemoryTree) : t.parent? 0 = none := by
  by_contra hparent
  obtain ⟨parent, hparent⟩ := Option.ne_none_iff_exists'.mp hparent
  exact absurd (parent?_lt hparent) (Nat.not_lt_zero parent)

theorem isChain_ancestors (t : MemoryTree) (node : Nat) :
    (t.ancestors node).IsChain fun below above => t.parent? below = some above := by
  induction node using Nat.strongRecOn with
  | ind node ih =>
    cases hparent : t.parent? node with
    | none =>
      rw [ancestors_of_parent?_eq_none hparent]
      exact .singleton node
    | some parent =>
      have hrest := ih parent (parent?_lt hparent)
      obtain ⟨way, hway⟩ := t.exists_ancestors_eq_cons parent
      rw [ancestors_of_parent?_eq_some hparent]
      rw [hway] at hrest ⊢
      exact hrest.cons_cons hparent

/-- All ways up end at the root, which is where the step upwards fails. -/
theorem getLast?_ancestors (hnode : node < t.size) : (t.ancestors node).getLast? = some 0 := by
  obtain ⟨way, hway, -⟩ := exists_ancestors_eq_append (zero_mem_ancestors hnode)
  rw [hway, ancestors_of_parent?_eq_none t.parent?_zero, List.getLast?_concat]

theorem isWayUp_ancestors (hnode : node < t.size) : t.IsWayUp node (t.ancestors node) where
  head?_eq := by
    obtain ⟨way, hway⟩ := t.exists_ancestors_eq_cons node
    rw [hway, List.head?_cons]
  isChain := t.isChain_ancestors node
  getLast?_eq := ⟨getLast?_ancestors hnode, t.parent?_zero⟩
  nodup := (t.pairwise_ancestors node).imp Nat.ne_of_gt

/-- Looking for the node at a position in a tree that answers comes to an end. Nothing is found
just where the root does not contain the position. What is found contains it together with all
nodes on the way up to the root, and has no child that does. If the tree is well nested, then
every node that contains the position is on that way. -/
theorem exists_nodeAt_eq_smallest (t : MemoryTree) (hfault : t.fault = none) (line column : Nat) :
    ∃ answer, t.nodeAt line column = .ok answer ∧
      (answer = none ↔ (t.extent 0).contains line column = false) ∧
      ∀ node ∈ answer, t.IsWayUp node (t.ancestors node) ∧
        (∀ above ∈ t.ancestors node, (t.extent above).contains line column = true) ∧
        (∀ child ∈ t.children node, (t.extent child).contains line column = false) ∧
        (t.WellNested → ∀ other, (t.extent other).contains line column = true →
          other ∈ t.ancestors node) := by
  refine ⟨t.found? line column, nodeAt_eq_ok hfault line column, found?_eq_none_iff, ?_⟩
  intro node hnode
  have hfound := isFoundAt_of_found? hnode
  have hsize := lt_size_of_contains (hfound.contains_of_mem node mem_ancestors_self)
  refine ⟨isWayUp_ancestors hsize, hfound.contains_of_mem, fun child hchild => ?_,
    fun ht other hother => ht.mem_ancestors_of_contains hfound hother⟩
  exact hfound.not_contains_child child (mem_children.mp hchild)

/-- Two functions, the second right behind the first, and the body of the second. -/
def adjoiningTree : MemoryTree :=
  (((root "module".toList ⟨0, 0, 7, 0⟩).add 0 (by decide)
    "function_definition".toList ⟨0, 0, 3, 0⟩).add 0 (by decide)
    "function_definition".toList ⟨3, 0, 7, 0⟩).add 2 (by decide)
    "block".toList ⟨4, 4, 7, 0⟩

theorem exists_nodeAt_eq_smallest_adjoining :
    adjoiningTree.fault = none ∧ adjoiningTree.WellNested ∧
      adjoiningTree.nodeAt 3 0 = .ok (some 2) ∧ adjoiningTree.ancestors 2 = [2, 0] ∧
      (∀ child ∈ adjoiningTree.children 2, (adjoiningTree.extent child).contains 3 0 = false) ∧
      ∀ other, (adjoiningTree.extent other).contains 3 0 = true → other ∈ [2, 0] := by
  have hnested : adjoiningTree.WellNested :=
    wellNested_of_bounds (by decide +kernel) (by decide +kernel)
  have hway : adjoiningTree.ancestors 2 = [2, 0] := by decide +kernel
  have hfound : adjoiningTree.nodeAt 3 0 = .ok (some 2) := by decide +kernel
  obtain ⟨answer, hanswer, -, hsmallest⟩ := exists_nodeAt_eq_smallest adjoiningTree rfl 3 0
  obtain rfl := Except.ok.inj (hfound.symm.trans hanswer)
  obtain ⟨-, -, hchildren, hothers⟩ := hsmallest 2 rfl
  exact ⟨rfl, hnested, hfound, hway, hchildren, hway ▸ hothers hnested⟩

end MemoryTree

end LineGuard
