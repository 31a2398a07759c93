/-
# Signature and body of one declaration

A tree tells a signature and a body apart by two nodes, a declaration and its body. The body
is the last node of an accepted kind that is met on a way up to the declaration. Nodes are
met in the order of their numbers on every such way, so that it lies below the declaration
with no other candidate between.

The lines of the two are worked out independently. A body that opens behind other text has
its first line counted to the signature, and a body that opens its own line has the
signature end on the line before. Either way the two do not meet, unless there is no line to
keep them apart: the body is over on the line that is counted to the signature, or it opens
the line on which the declaration starts. Then they share that one line.
-/

import LineGuard.Language.Builtin
import LineGuard.Proofs.Tree.Nesting
import LineGuard.Scope.Resolver

namespace LineGuard

/-! ## The body of a declaration -/

namespace MemoryTree

variable {t : MemoryTree} {kinds : KindSet} {declaration body found : Nat}

/-- A node lies below a declaration and is of an accepted kind, which no node between the two
is. -/
structure IsBodyOf (t : MemoryTree) (declaration : Nat) (kinds : KindSet) (body : Nat) :
    Prop where
  below : t.Below body declaration
  accepted : kinds.contains (t.kind body) = true
  outermost : ∀ node, t.Below body node → t.Below node declaration →
    kinds.contains (t.kind node) = false

/-- What is met on the way up to a declaration is what lies below it. -/
theorem exists_takeWhile_ancestors (h : declaration ∈ t.ancestors found) :
    ∃ way, t.ancestors found = way ++ t.ancestors declaration ∧
      (∀ n ∈ way, t.Below n declaration) ∧
      (t.ancestors found).takeWhile (· ≠ declaration) = way := by
  obtain ⟨way, hway, hbelow⟩ := exists_ancestors_eq_append h
  obtain ⟨rest, hrest⟩ := t.exists_ancestors_eq_cons declaration
  have hne : ∀ n ∈ way, decide (n ≠ declaration) = true :=
    fun n hn => decide_eq_true (Nat.ne_of_gt (hbelow n hn).lt)
  refine ⟨way, hway, hbelow, ?_⟩
  rw [hway, hrest, List.takeWhile_append_of_pos hne, List.takeWhile_cons, if_neg (by simp),
    List.append_nil]

/-- Of the candidates met on a way up, the last has the smallest number. -/
theorem le_of_getLast?_filter {way : List Nat} {accepts : Nat → Bool} {last node : Nat}
    (hsorted : way.Pairwise (· > ·)) (hlast : (way.filter accepts).getLast? = some last)
    (hnode : node ∈ way) (haccepts : accepts node = true) : last ≤ node := by
  obtain ⟨others, hothers⟩ := List.getLast?_eq_some_iff.mp hlast
  have hcandidate : node ∈ others ++ [last] := hothers ▸ List.mem_filter.mpr ⟨hnode, haccepts⟩
  have hordered := hsorted.filter accepts
  rw [hothers, List.pairwise_append] at hordered
  rcases List.mem_append.mp hcandidate with hother | hsame
  · exact Nat.le_of_lt (hordered.2.2 node hother last (List.mem_singleton_self last))
  · exact Nat.le_of_eq (List.mem_singleton.mp hsame).symm

theorem isBodyOf_of_outermostBelow?
    (h : t.toSyntaxTree.outermostBelow? declaration kinds found = some body) :
    t.IsBodyOf declaration kinds body := by
  rw [SyntaxTree.outermostBelow?] at h
  split at h
  case isFalse => cases h
  case isTrue hmem =>
    obtain ⟨way, hway, hbelow, htake⟩ := exists_takeWhile_ancestors hmem
    have hlast : (way.filter fun n => kinds.contains (t.kind n)).getLast? = some body := htake ▸ h
    obtain ⟨hbody, haccepted⟩ := List.mem_filter.mp (List.mem_of_getLast? hlast)
    refine ⟨hbelow body hbody, haccepted, fun node hnode habove => ?_⟩
    have hmet : node ∈ way := by
      have hfound : node ∈ t.ancestors found :=
        mem_ancestors_trans (below_iff.mp hnode).1 (hway ▸ List.mem_append_left _ hbody)
      rw [hway, List.mem_append] at hfound
      refine hfound.resolve_right fun hfurther => ?_
      exact Nat.not_lt_of_le (le_of_mem_ancestors hfurther) habove.lt
    -- A candidate between the two would have been met behind the last.
    by_contra hcandidate
    rw [Bool.not_eq_false] at hcandidate
    have hsorted := t.pairwise_ancestors found
    rw [hway, List.pairwise_append] at hsorted
    have hle := le_of_getLast?_filter hsorted.1 hlast hmet hcandidate
    exact Nat.not_lt_of_le hle hnode.lt

theorem isBodyOf_of_body? {d : Document}
    (h : t.toSyntaxTree.body? d declaration kinds = .ok (some body)) :
    t.IsBodyOf declaration kinds body := by
  rw [SyntaxTree.body?] at h
  split at h
  · cases h
  · obtain ⟨position, -, found, -, hbody⟩ := SyntaxTree.exists_of_firstAnswer? h
    exact isBodyOf_of_outermostBelow? hbody

end MemoryTree

/-! ## Their lines -/

namespace SyntaxTree

/-- There is no line to keep a body apart from the signature: it is over on the line that it
opens behind other text, or it opens the line on which its declaration starts. -/
def SharesLine (d : Document) (declaration body : Extent) : Prop :=
  (opensMidLine d body = true ∧ body.IsLastLine body.startLine) ∨
    (opensMidLine d body = false ∧ body.startLine = declaration.startLine)

variable {d : Document} {declaration body : Extent}

/-- The signature does not reach beyond the line on which the body begins, and stops in
front of it wherever there is a line to do so. -/
theorem last_signatureSpan_lt_iff (hstart : declaration.startLine ≤ body.startLine)
    (hproper : body.IsProper) :
    (signatureSpan d declaration (some body)).last ≤ (bodySpan d body).first ∧
      ((signatureSpan d declaration (some body)).last < (bodySpan d body).first ↔
        ¬ SharesLine d declaration body) := by
  have hlast := hproper.isLastLine_lastLine
  have hle := hlast.le_last _ _ hproper.contains_start
  have hone : body.IsLastLine body.startLine ↔ body.lastLine = body.startLine :=
    ⟨hlast.unique, fun h => h ▸ hlast⟩
  rw [SharesLine, hone]
  cases hmid : opensMidLine d body with
  | false =>
    have hsignature : (signatureSpan d declaration (some body)).last =
        max (body.startLine - 1) declaration.startLine := by
      simp only [signatureSpan, hmid, Bool.false_eq_true, if_false]
      exact Span.last_between_of_le (Nat.le_max_right _ _)
    have hbody : (bodySpan d body).first = body.startLine := by
      simp [bodySpan, hmid, nodeSpan]
    rw [hsignature, hbody]
    simp only [Bool.false_eq_true, false_and, true_and, false_or]
    omega
  | true =>
    have hsignature : (signatureSpan d declaration (some body)).last = body.startLine := by
      simp [signatureSpan, hmid, hstart]
    rw [hsignature]
    by_cases hmore : body.startLine < body.lastLine
    · have hbody : (bodySpan d body).first = body.startLine + 1 := by
        simp [bodySpan, hmid, hmore]
      rw [hbody]
      simp only [Bool.true_eq_false, false_and, true_and, or_false]
      omega
    · have hbody : (bodySpan d body).first = body.startLine := by
        simp [bodySpan, hmid, hmore, nodeSpan]
      rw [hbody]
      simp only [Bool.true_eq_false, false_and, true_and, or_false]
      omega

variable {Node : Type} [DecidableEq Node]

/-- A query for a signature comes to a declaration with a body. -/
structure TakesSignature (t : SyntaxTree Node) (q : Query) (declaration body : Node) : Prop where
  keyword_eq : q.keyword = .signature
  construct?_eq : t.construct? q q.kinds = .ok (some declaration)
  body?_eq : t.body? q.document declaration q.companions = .ok (some body)

/-- A query for a body comes to that of a declaration. -/
structure TakesBody (t : SyntaxTree Node) (q : Query) (declaration body : Node) : Prop where
  keyword_eq : q.keyword = .body
  construct?_eq : t.construct? q q.companions = .ok (some declaration)
  body?_eq : t.body? q.document declaration q.kinds = .ok (some body)

variable {t : SyntaxTree Node} {q : Query}

theorem TakesSignature.locate?_eq {declaration body : Node}
    (h : t.TakesSignature q declaration body) :
    t.locate? q =
      .ok (some (signatureSpan q.document (t.extent declaration) (some (t.extent body)))) := by
  rw [locate?, h.keyword_eq]
  dsimp only
  rw [locateSignature?, h.construct?_eq]
  dsimp only [bind, Except.bind]
  rw [h.body?_eq]
  rfl

theorem TakesBody.locate?_eq {declaration body : Node} (h : t.TakesBody q declaration body) :
    t.locate? q = .ok (some (bodySpan q.document (t.extent body))) := by
  rw [locate?, h.keyword_eq]
  dsimp only
  rw [locateBody?, h.construct?_eq]
  dsimp only [bind, Except.bind]
  rw [h.body?_eq]
  rfl

end SyntaxTree

/-- In a well-nested tree of nodes that start before they end, what is found as the body of a
declaration is its body. The lines of the signature, found in front of it, are before those
of the body wherever they do not have to share one. -/
theorem MemoryTree.WellNested.isBodyOf_and_signature_lt_body {t : MemoryTree} (ht : t.WellNested)
    (hproper : ∀ node < t.size, (t.extent node).IsProper) (d : Document)
    (declaration body : Nat) :
    (∀ kinds, t.toSyntaxTree.body? d declaration kinds = .ok (some body) →
      t.IsBodyOf declaration kinds body) ∧
    ∀ q q' : Query, q.document = d → q'.document = d →
      t.toSyntaxTree.TakesSignature q declaration body →
      t.toSyntaxTree.TakesBody q' declaration body →
      ∃ before behind : Span, t.toSyntaxTree.locate? q = .ok (some before) ∧
        t.toSyntaxTree.locate? q' = .ok (some behind) ∧ before.last ≤ behind.first ∧
        (before.last < behind.first ↔
          ¬ SyntaxTree.SharesLine d (t.extent declaration) (t.extent body)) := by
  refine ⟨fun kinds => isBodyOf_of_body?, ?_⟩
  rintro q q' rfl hdocument hsignature hbody
  have hbelow := (isBodyOf_of_body? hsignature.body?_eq).below
  obtain ⟨hup, hne⟩ := below_iff.mp hbelow
  have hinside := hproper body hbelow.lt_size
  have hstart := (ht.liesIn_of_mem_ancestors hup).startLine_le hinside
  refine ⟨_, _, hsignature.locate?_eq, hbody.locate?_eq, ?_⟩
  rw [hdocument]
  exact SyntaxTree.last_signatureSpan_lt_iff hstart hinside

/-- A function whose body opens behind its signature. -/
def bracedFunction : Document :=
  .ofText "// @guard:ai:n.sig\n// @guard:human:n.body\nfn f() \x7b\n    g();\n\x7d\n".toList
    (some "rust".toList)

/-- The nodes of `bracedFunction`: the function, its name and its body, with one statement. -/
def bracedTree : MemoryTree :=
  ((((MemoryTree.root "source_file".toList ⟨0, 0, 5, 0⟩).add 0 (by decide)
    "function_item".toList ⟨2, 0, 4, 1⟩).add 1 (by decide)
    "identifier".toList ⟨2, 3, 2, 4⟩).add 1 (by decide)
    "block".toList ⟨2, 7, 4, 1⟩).add 3 (by decide)
    "expression_statement".toList ⟨3, 4, 3, 8⟩

theorem MemoryTree.WellNested.isBodyOf_and_signature_lt_body_braced :
    let r : Resolver Nat := ⟨.builtin, some bracedTree.toSyntaxTree, false, 10⟩
    let signature := r.query bracedFunction ⟨0, 0, .ai, none, .deny, .construct .signature [] []⟩
      .signature [] []
    let body := r.query bracedFunction ⟨1, 0, .human, none, .deny, .construct .body [] []⟩
      .body [] []
    bracedTree.WellNested ∧ bracedTree.IsBodyOf 1 body.kinds 3 ∧
      ∃ before behind : Span, bracedTree.toSyntaxTree.locate? signature = .ok (some before) ∧
        bracedTree.toSyntaxTree.locate? body = .ok (some behind) ∧ before.last < behind.first := by
  intro r signature body
  have hnested : bracedTree.WellNested :=
    wellNested_of_bounds (by decide +kernel) (by decide +kernel)
  obtain ⟨hbody, hlines⟩ :=
    hnested.isBodyOf_and_signature_lt_body (by decide +kernel) bracedFunction 1 3
  have hsignature : bracedTree.toSyntaxTree.TakesSignature signature 1 3 :=
    ⟨rfl, by decide +kernel, by decide +kernel⟩
  have htakes : bracedTree.toSyntaxTree.TakesBody body 1 3 :=
    ⟨rfl, by decide +kernel, by decide +kernel⟩
  obtain ⟨before, behind, hbefore, hbehind, -, hlt⟩ :=
    hlines signature body rfl rfl hsignature htakes
  refine ⟨hnested, hbody body.kinds htakes.body?_eq, before, behind, hbefore, hbehind, hlt.mpr ?_⟩
  rintro (⟨-, honly⟩ | ⟨hopens, -⟩)
  · exact absurd (honly.le_last 3 0 (by decide)) (by decide)
  · exact absurd hopens (by decide +kernel)

end LineGuard
