/-
# Syntax trees held in memory

A tree given by its nodes: each has a kind, an extent and, except for the root,
a parent. Nodes are numbered in the order in which they were added, so that a
parent always has a smaller number than its children. This one fact, kept as a
proof, is why going up ends at the root and why going down ends at all.

The node at a position is found the way a parser would: starting from the root,
go to the first child that contains the position, until there is none.
-/

import LineGuard.Tree.Basic

namespace LineGuard

/-- A node of a tree in memory. -/
structure MemoryNode where
  kind : Text
  extent : Extent
  /-- The number of the node above, absent for the root. -/
  parent : Option Nat
deriving DecidableEq, Repr

/-- A tree in memory. -/
structure MemoryTree where
  /-- The nodes by number. The root has number zero. -/
  nodes : Array MemoryNode
  /-- If present, why every query fails. -/
  fault : Option TreeFault
  nodes_nonempty : 0 < nodes.size
  parent_lt : ∀ (node : Nat) (h : node < nodes.size), ∀ parent ∈ nodes[node].parent,
    parent < node
  eq_root : ∀ (node : Nat) (h : node < nodes.size), nodes[node].parent = none → node = 0

namespace MemoryTree

/-- The tree that is only a root. -/
def root (kind : Text) (extent : Extent) : MemoryTree where
  nodes := #[⟨kind, extent, none⟩]
  fault := none
  nodes_nonempty := by simp
  parent_lt node h := by
    obtain rfl : node = 0 := by simpa using h
    simp
  eq_root node h _ := by simpa using h

/-- The number of nodes. -/
def size (t : MemoryTree) : Nat := t.nodes.size

/-- Adds a node below an existing one. Children have to be added in the order in
which they are written. -/
def add (t : MemoryTree) (parent : Nat) (hparent : parent < t.size) (kind : Text)
    (extent : Extent) : MemoryTree where
  nodes := t.nodes.push ⟨kind, extent, some parent⟩
  fault := t.fault
  nodes_nonempty := by simp
  parent_lt node h above habove := by
    rw [Array.getElem_push] at habove
    split at habove
    next hold => exact t.parent_lt node hold above habove
    next hnew =>
      obtain rfl : parent = above := by simpa using habove
      exact Nat.lt_of_lt_of_le hparent (Nat.le_of_not_lt hnew)
  eq_root node h hnone := by
    rw [Array.getElem_push] at hnone
    split at hnone
    next hold => exact t.eq_root node hold hnone
    next => simp at hnone

/-- The same tree, failing every query. -/
def failing (t : MemoryTree) (fault : TreeFault) : MemoryTree := { t with fault := some fault }

/-- The kind of a node; a number that is no node has an empty one. -/
def kind (t : MemoryTree) (node : Nat) : Text := (t.nodes[node]?.map (·.kind)).getD []

/-- The extent of a node; a number that is no node has an empty one. -/
def extent (t : MemoryTree) (node : Nat) : Extent :=
  (t.nodes[node]?.map (·.extent)).getD ⟨0, 0, 0, 0⟩

/-- The node above a node. -/
def parent? (t : MemoryTree) (node : Nat) : Option Nat := t.nodes[node]?.bind (·.parent)

/-- The nodes directly below a node, in the order in which they were added. -/
def children (t : MemoryTree) (node : Nat) : List Nat :=
  (List.range t.size).filter fun child => t.parent? child == some node

/-- The first child of a node that contains a position. -/
def childAt? (t : MemoryTree) (line column node : Nat) : Option Nat :=
  (t.children node).find? fun child => (t.extent child).contains line column

/-- Goes down from a node, at most so many steps. -/
def descend (t : MemoryTree) (line column : Nat) : (steps node : Nat) → Nat
  | 0, node => node
  | steps + 1, node =>
    match t.childAt? line column node with
    | some child => descend t line column steps child
    | none => node

/-- The smallest node at a position, if the root contains it. Numbers grow on
the way down, so there are fewer steps than nodes. -/
def nodeAt (t : MemoryTree) (line column : Nat) : Except TreeFault (Option Nat) :=
  match t.fault with
  | some fault => .error fault
  | none =>
    if (t.extent 0).contains line column then .ok (some (t.descend line column t.size 0))
    else .ok none

/-- A node and the nodes above it, at most so many. -/
def ancestorsWithin (t : MemoryTree) : (steps node : Nat) → List Nat
  | 0, _ => []
  | steps + 1, node =>
    node :: match t.parent? node with
      | some parent => ancestorsWithin t steps parent
      | none => []

/-- A node and everything above it, innermost first. Numbers fall on the way up,
so there are at most one more steps than the number of the node. -/
def ancestors (t : MemoryTree) (node : Nat) : List Nat := t.ancestorsWithin (node + 1) node

/-- The tree as a syntax tree whose nodes are numbers. -/
def toSyntaxTree (t : MemoryTree) : SyntaxTree Nat where
  nodeAt := t.nodeAt
  ancestors := t.ancestors
  kind := t.kind
  extent := t.extent

/-- The node above a node has a smaller number. -/
theorem parent?_lt {t : MemoryTree} {node parent : Nat} (h : t.parent? node = some parent) :
    parent < node := by
  unfold parent? at h
  match hnode : t.nodes[node]? with
  | none => simp [hnode] at h
  | some n =>
    obtain ⟨hlt, rfl⟩ := Array.getElem?_eq_some_iff.mp hnode
    exact t.parent_lt node hlt parent (by simpa [hnode] using h)

end MemoryTree

end LineGuard
