/-
# Placing scopes by a syntax tree

A construct is looked for by asking the tree for the smallest node at the first
visible column of each line in the window, and climbing from there to the first
node of a wanted kind. Nodes that start before the tag are never taken: what the
tag speaks of follows it.

Signatures and bodies need two nodes, a declaration and its body. The body is the
outermost node of a body kind strictly below the declaration, on the first of
the declaration's lines that shows one at its first or last visible column.
-/

import LineGuard.Scope.Basic
import LineGuard.Tree.Basic

namespace LineGuard.SyntaxTree

variable {Node α : Type}

/-- The first answer that nodes at some positions give, in the order of the
positions. A query that fails before there is an answer makes the search fail. -/
def firstAnswer? (t : SyntaxTree Node) (answer? : Node → Option α) :
    List (Nat × Nat) → Except TreeFault (Option α)
  | [] => .ok none
  | (line, column) :: rest =>
    match t.nodeAt line column with
    | .error fault => .error fault
    | .ok node =>
      match node.bind answer? with
      | some answer => .ok (some answer)
      | none => firstAnswer? t answer? rest

/-- The positions at which a query looks for constructs. -/
def searchPositions (q : Query) : List (Nat × Nat) :=
  q.searchLines.filterMap fun line => (q.document.firstVisible? line).map (line, ·)

/-- The innermost node of an accepted kind around a node, among those that start
on the tag's line or later. -/
def enclosing? (t : SyntaxTree Node) (tagLine : Nat) (kinds : KindSet) (node : Node) :
    Option Node :=
  ((t.ancestors node).takeWhile fun above => tagLine ≤ (t.extent above).startLine).find?
    fun above => kinds.contains (t.kind above)

/-- The node a query looks for, by the kinds given. -/
def construct? (t : SyntaxTree Node) (q : Query) (kinds : KindSet) :
    Except TreeFault (Option Node) :=
  if kinds.isEmpty then .ok none
  else t.firstAnswer? (t.enclosing? q.tagLine kinds) (searchPositions q)

/-- The first and the last visible position of each line of an extent. -/
def outlinePositions (d : Document) (e : Extent) : List (Nat × Nat) :=
  let last := min e.lastLine (d.lastLine?.getD 0)
  (List.range' e.startLine (last + 1 - e.startLine)).flatMap fun line =>
    ((d.firstVisible? line).toList ++ (d.lastVisible? line).toList).map (line, ·)

/-- The search stops at the end of the document, but nothing is left out: behind the end no
line shows anything. -/
theorem outlinePositions_eq (d : Document) (e : Extent) :
    outlinePositions d e =
      (List.range' e.startLine (e.lastLine + 1 - e.startLine)).flatMap fun line =>
        ((d.firstVisible? line).toList ++ (d.lastVisible? line).toList).map (line, ·) := by
  obtain ⟨final, hfinal, hcount⟩ :
      ∃ final, d.lastLine?.getD 0 = final ∧ d.lineCount ≤ final + 1 := by
    rw [Document.lastLine?]
    cases d.lineCount with
    | zero => exact ⟨0, rfl, Nat.zero_le 1⟩
    | succ n => exact ⟨n, rfl, Nat.le_refl _⟩
  have hclip : min e.lastLine final + 1 - e.startLine ≤ e.lastLine + 1 - e.startLine := by omega
  obtain ⟨behind, hlines⟩ := Nat.exists_eq_add_of_le hclip
  rw [outlinePositions, hfinal, hlines, ← List.range'_append_1, List.flatMap_append,
    List.self_eq_append_right, List.flatMap_eq_nil_iff]
  intro line hline
  have hpast : d.lineCount ≤ line := by
    rw [List.mem_range'_1] at hline
    omega
  rw [Document.firstVisible?, Document.lastVisible?, Document.line_eq_nil hpast]
  rfl

/-- The outermost node of an accepted kind around a node and strictly below a
declaration, if the node lies below the declaration at all. -/
def outermostBelow? [DecidableEq Node] (t : SyntaxTree Node) (declaration : Node)
    (kinds : KindSet) (node : Node) : Option Node :=
  let above := t.ancestors node
  if declaration ∈ above then
    ((above.takeWhile (· ≠ declaration)).filter fun n => kinds.contains (t.kind n)).getLast?
  else none

/-- The body of a declaration, by the kinds given. -/
def body? [DecidableEq Node] (t : SyntaxTree Node) (d : Document) (declaration : Node)
    (kinds : KindSet) : Except TreeFault (Option Node) :=
  if kinds.isEmpty then .ok none
  else t.firstAnswer? (t.outermostBelow? declaration kinds)
    (outlinePositions d (t.extent declaration))

/-- Whether something stands before a node on its first line, as the end of a
signature stands before an opening brace. -/
def opensMidLine (d : Document) (e : Extent) : Bool :=
  (d.firstVisible? e.startLine).any (· < e.startColumn)

/-- The lines of a node. -/
def nodeSpan (e : Extent) : Span := .between e.startLine e.lastLine

/-- The lines of a declaration up to its body. -/
def signatureSpan (d : Document) (declaration : Extent) (body : Option Extent) : Span :=
  .between declaration.startLine <|
    match body with
    | some body =>
      if opensMidLine d body then body.startLine
      else max (body.startLine - 1) declaration.startLine
    | none => declaration.startLine

/-- The lines of a body. The line on which it opens behind other text belongs to
the signature, unless the body is all on that line. -/
def bodySpan (d : Document) (body : Extent) : Span :=
  if opensMidLine d body && body.startLine < body.lastLine then
    .between (body.startLine + 1) body.lastLine
  else nodeSpan body

/-- The lines of the construct a query looks for. -/
def locateConstruct? (t : SyntaxTree Node) (q : Query) : Except TreeFault (Option Span) := do
  let node ← t.construct? q q.kinds
  return node.map fun node => nodeSpan (t.extent node)

/-- The lines of the signature a query looks for. -/
def locateSignature? [DecidableEq Node] (t : SyntaxTree Node) (q : Query) :
    Except TreeFault (Option Span) := do
  match ← t.construct? q q.kinds with
  | none => return none
  | some declaration =>
    let body ← t.body? q.document declaration q.companions
    return some (signatureSpan q.document (t.extent declaration) (body.map t.extent))

/-- The lines of the body a query looks for: that of the first declaration, and
failing that a node of a body kind that stands by itself. -/
def locateBody? [DecidableEq Node] (t : SyntaxTree Node) (q : Query) :
    Except TreeFault (Option Span) := do
  let declaration ← t.construct? q q.companions
  let body ←
    match declaration with
    | some declaration => t.body? q.document declaration q.kinds
    | none => pure none
  match body with
  | some body => return some (bodySpan q.document (t.extent body))
  | none => t.locateConstruct? q

/-- Answers a query from the tree. -/
def locate? [DecidableEq Node] (t : SyntaxTree Node) (q : Query) :
    Except TreeFault (Option Span) :=
  match q.keyword with
  | .signature => t.locateSignature? q
  | .body => t.locateBody? q
  | _ => t.locateConstruct? q

/-- An answer comes from some node at one of the positions. -/
theorem exists_of_firstAnswer? {t : SyntaxTree Node} {answer? : Node → Option α}
    {positions : List (Nat × Nat)} {answer : α}
    (h : t.firstAnswer? answer? positions = .ok (some answer)) :
    ∃ position ∈ positions, ∃ node,
      t.nodeAt position.1 position.2 = .ok (some node) ∧ answer? node = some answer := by
  induction positions with
  | nil => simp [firstAnswer?] at h
  | cons position rest ih =>
    obtain ⟨line, column⟩ := position
    rw [firstAnswer?] at h
    split at h
    · simp at h
    · next node hnode =>
      split at h
      · next found hfound =>
        obtain ⟨n, rfl, hn⟩ := Option.bind_eq_some_iff.mp hfound
        simp only [Except.ok.injEq, Option.some.injEq] at h
        exact ⟨_, List.mem_cons_self, n, hnode, h ▸ hn⟩
      · obtain ⟨p, hp, n, hn⟩ := ih h
        exact ⟨p, List.mem_cons_of_mem _ hp, n, hn⟩

end LineGuard.SyntaxTree
