/-
# Asking a tree one question at a time

Whoever offers a syntax tree is asked for the node at a position, again and again, and may
fail on any of these questions. A search that is written as a function of the tree takes
for granted that the same question is always answered alike. Here a search is written as
what it does with the answers: an inquiry is over, or it asks for the node at a position
and goes on with the answer. It can then be followed against answers that change from one
question to the next.

Every search for a construct is such an inquiry. Against a tree that answers alike it comes
to what the search comes to; an answer that fails ends it and is its outcome; and without a
node among the answers nothing is found.
-/

import LineGuard.Scope.TreeSearch

namespace LineGuard

/-- What is answered when the node at a position is asked for. -/
abbrev TreeReply (Node : Type) : Type := Except TreeFault (Option Node)

/-- Questions to a syntax tree, and what is made of the answers. -/
inductive Inquiry (Node α : Type) where
  | done (result : α)
  | ask (line column : Nat) (next : Option Node → Inquiry Node α)

namespace Inquiry

variable {Node α β : Type}

/-- Goes on with the result of an inquiry. -/
def bind : Inquiry Node α → (α → Inquiry Node β) → Inquiry Node β
  | done result, goOn => goOn result
  | ask line column next, goOn => ask line column fun node => (next node).bind goOn

/-- Follows an inquiry whose questions are numbered on from `asked`. Next to the outcome
stand the replies received; the first that fails is the last. -/
def run (reply : (call line column : Nat) → TreeReply Node) (asked : Nat) :
    Inquiry Node α → Except TreeFault α × List (TreeReply Node)
  | done result => (.ok result, [])
  | ask line column next =>
    match reply asked line column with
    | .error fault => (.error fault, [.error fault])
    | .ok node =>
      let rest := run reply (asked + 1) (next node)
      (rest.1, .ok node :: rest.2)

/-- What an inquiry comes to when questions are answered alike whenever they are asked. -/
def outcome (nodeAt : (line column : Nat) → TreeReply Node) : Inquiry Node α → Except TreeFault α
  | done result => .ok result
  | ask line column next =>
    match nodeAt line column with
    | .error fault => .error fault
    | .ok node => (next node).outcome nodeAt

/-- What an inquiry comes to when there is no node anywhere. -/
def ifNothing : Inquiry Node α → α
  | done result => result
  | ask _ _ next => (next none).ifNothing

/-! ## Following an inquiry -/

variable {reply : (call line column : Nat) → TreeReply Node} {asked : Nat}
  {inquiry : Inquiry Node α} {goOn : α → Inquiry Node β}

theorem run_steady (nodeAt : (line column : Nat) → TreeReply Node) (asked : Nat)
    (inquiry : Inquiry Node α) :
    (inquiry.run (fun _ => nodeAt) asked).1 = inquiry.outcome nodeAt := by
  induction inquiry generalizing asked with
  | done result => rfl
  | ask line column next ih =>
    rw [run, outcome]
    cases nodeAt line column with
    | error fault => rfl
    | ok node => exact ih node (asked + 1)

theorem outcome_bind (nodeAt : (line column : Nat) → TreeReply Node) :
    (inquiry.bind goOn).outcome nodeAt =
      inquiry.outcome nodeAt >>= fun result => (goOn result).outcome nodeAt := by
  induction inquiry with
  | done result => rfl
  | ask line column next ih =>
    rw [bind, outcome, outcome]
    cases nodeAt line column with
    | error fault => rfl
    | ok node => exact ih node

theorem ifNothing_bind :
    (inquiry.bind goOn).ifNothing = (goOn inquiry.ifNothing).ifNothing := by
  induction inquiry with
  | done result => rfl
  | ask line column next ih => exact ih none

/-- An inquiry does not get over a reply that fails. -/
theorem exists_run_eq_error {fault : TreeFault} (h : .error fault ∈ (inquiry.run reply asked).2) :
    (inquiry.run reply asked).1 = .error fault := by
  induction inquiry generalizing asked with
  | done result => cases h
  | ask line column next ih =>
    rw [run] at h ⊢
    cases hreply : reply asked line column with
    | error other =>
      rw [hreply] at h
      cases List.mem_singleton.mp h
      rfl
    | ok node =>
      rw [hreply] at h
      rcases List.mem_cons.mp h with heq | hrest
      · cases heq
      · exact ih node hrest

/-- An inquiry that is shown no node comes to what it comes to without any. -/
theorem run_eq_ifNothing {result : α} (hok : (inquiry.run reply asked).1 = .ok result)
    (hnone : ∀ node, .ok (some node) ∉ (inquiry.run reply asked).2) :
    result = inquiry.ifNothing := by
  induction inquiry generalizing asked with
  | done answer => exact (Except.ok.inj hok).symm
  | ask line column next ih =>
    rw [run] at hok hnone
    cases hreply : reply asked line column with
    | error fault =>
      rw [hreply] at hok
      cases hok
    | ok answer =>
      rw [hreply] at hok hnone
      cases answer with
      | some node => exact absurd List.mem_cons_self (hnone node)
      | none => exact ih none hok fun node hnode => hnone node (List.mem_cons_of_mem _ hnode)

/-- The replies received are those to the questions asked, in order. -/
theorem exists_reply_eq {index : Nat} {received : TreeReply Node}
    (h : (inquiry.run reply asked).2[index]? = some received) :
    ∃ line column, reply (asked + index) line column = received := by
  induction inquiry generalizing asked index with
  | done result => cases h
  | ask line column next ih =>
    rw [run] at h
    cases hreply : reply asked line column with
    | error fault =>
      rw [hreply] at h
      cases index with
      | zero => exact ⟨line, column, hreply.trans (Option.some.inj h)⟩
      | succ index => cases h
    | ok node =>
      rw [hreply] at h
      cases index with
      | zero => exact ⟨line, column, hreply.trans (Option.some.inj h)⟩
      | succ index =>
        have hrest := ih node h
        rwa [Nat.add_right_comm] at hrest

/-! ## Searching for constructs -/

/-- Asks at some positions in turn until there is an answer. -/
def firstAnswer (answer? : Node → Option α) : List (Nat × Nat) → Inquiry Node (Option α)
  | [] => done none
  | (line, column) :: rest =>
    ask line column fun node =>
      match node.bind answer? with
      | some answer => done (some answer)
      | none => firstAnswer answer? rest

variable (t : SyntaxTree Node)

/-- The search for a node. -/
def construct (q : Query) (kinds : KindSet) : Inquiry Node (Option Node) :=
  if kinds.isEmpty then done none
  else firstAnswer (t.enclosing? q.tagLine kinds) (SyntaxTree.searchPositions q)

/-- The search for the lines of a construct. -/
def locateConstruct (q : Query) : Inquiry Node (Option Span) :=
  (construct t q q.kinds).bind fun node =>
    done (node.map fun node => SyntaxTree.nodeSpan (t.extent node))

theorem outcome_firstAnswer (answer? : Node → Option α) (positions : List (Nat × Nat)) :
    (firstAnswer answer? positions).outcome t.nodeAt = t.firstAnswer? answer? positions := by
  induction positions with
  | nil => rfl
  | cons position rest ih =>
    obtain ⟨line, column⟩ := position
    rw [firstAnswer, outcome, SyntaxTree.firstAnswer?]
    cases t.nodeAt line column with
    | error fault => rfl
    | ok node =>
      dsimp only
      cases node.bind answer? with
      | some answer => rfl
      | none => exact ih

theorem outcome_construct (q : Query) (kinds : KindSet) :
    (construct t q kinds).outcome t.nodeAt = t.construct? q kinds := by
  rw [construct, SyntaxTree.construct?]
  split
  · rfl
  · exact outcome_firstAnswer t _ _

theorem outcome_locateConstruct (q : Query) :
    (locateConstruct t q).outcome t.nodeAt = t.locateConstruct? q := by
  rw [locateConstruct, outcome_bind, outcome_construct]
  rfl

theorem ifNothing_firstAnswer (answer? : Node → Option α) (positions : List (Nat × Nat)) :
    (firstAnswer answer? positions).ifNothing = none := by
  induction positions with
  | nil => rfl
  | cons position rest ih => exact ih

theorem ifNothing_construct (q : Query) (kinds : KindSet) :
    (construct t q kinds).ifNothing = none := by
  rw [construct]
  split
  · rfl
  · exact ifNothing_firstAnswer _ _

theorem ifNothing_locateConstruct (q : Query) : (locateConstruct t q).ifNothing = none := by
  rw [locateConstruct, ifNothing_bind, ifNothing_construct]
  rfl

/-! ## Searching for bodies -/

/-- The positions at which a body is asked for, on all lines of an extent, however far it
reaches. A line with one visible character has only one. -/
def outlineQuestions (d : Document) (e : Extent) : List (Nat × Nat) :=
  (List.range' e.startLine (e.lastLine + 1 - e.startLine)).flatMap fun line =>
    ((d.firstVisible? line).toList ++
      (d.lastVisible? line).toList.filter (some · ≠ d.firstVisible? line)).map (line, ·)

/-- Asking the same question again changes nothing. -/
theorem firstAnswer?_repeat (answer? : Node → Option α) (position : Nat × Nat)
    (rest : List (Nat × Nat)) :
    t.firstAnswer? answer? (position :: position :: rest) =
      t.firstAnswer? answer? (position :: rest) := by
  obtain ⟨line, column⟩ := position
  rw [SyntaxTree.firstAnswer?, SyntaxTree.firstAnswer?]
  cases t.nodeAt line column with
  | error fault => rfl
  | ok node =>
    cases hanswer : node.bind answer? with
    | some answer => simp only [hanswer]
    | none => simp only [hanswer]

theorem firstAnswer?_congr_append {answer? : Node → Option α} {rest others : List (Nat × Nat)}
    (h : t.firstAnswer? answer? rest = t.firstAnswer? answer? others)
    (positions : List (Nat × Nat)) :
    t.firstAnswer? answer? (positions ++ rest) = t.firstAnswer? answer? (positions ++ others) := by
  induction positions with
  | nil => exact h
  | cons position positions ih =>
    obtain ⟨line, column⟩ := position
    rw [List.cons_append, List.cons_append, SyntaxTree.firstAnswer?, SyntaxTree.firstAnswer?, ih]

theorem firstAnswer?_outlineQuestions (answer? : Node → Option α) (d : Document) (e : Extent) :
    t.firstAnswer? answer? (outlineQuestions d e) =
      t.firstAnswer? answer? (SyntaxTree.outlinePositions d e) := by
  rw [outlineQuestions, SyntaxTree.outlinePositions_eq]
  generalize List.range' e.startLine _ = lines
  induction lines with
  | nil => rfl
  | cons line lines ih =>
    rw [List.flatMap_cons, List.flatMap_cons, firstAnswer?_congr_append t ih]
    cases hlast : d.lastVisible? line with
    | none => rfl
    | some last =>
      by_cases hsame : some last = d.firstVisible? line
      · -- The line shows one character, which the search looks at twice.
        have hquestions : [last].filter (some · ≠ some last) = [] := by simp
        rw [← hsame, Option.toList_some, hquestions]
        exact (firstAnswer?_repeat t answer? (line, last) _).symm
      · simp [hsame]

variable [DecidableEq Node]

/-- The search for the body of a declaration. -/
def body (d : Document) (declaration : Node) (kinds : KindSet) : Inquiry Node (Option Node) :=
  if kinds.isEmpty then done none
  else firstAnswer (t.outermostBelow? declaration kinds)
    (outlineQuestions d (t.extent declaration))

theorem outcome_body (d : Document) (declaration : Node) (kinds : KindSet) :
    (body t d declaration kinds).outcome t.nodeAt = t.body? d declaration kinds := by
  rw [body, SyntaxTree.body?]
  split
  · rfl
  · rw [outcome_firstAnswer, firstAnswer?_outlineQuestions]

/-! ## Answering queries -/

/-- The search for the lines of a signature. -/
def locateSignature (q : Query) : Inquiry Node (Option Span) :=
  (construct t q q.kinds).bind fun
    | none => done none
    | some declaration =>
      (body t q.document declaration q.companions).bind fun body =>
        done (some (SyntaxTree.signatureSpan q.document (t.extent declaration)
          (body.map t.extent)))

/-- The search for the lines of a body. -/
def locateBody (q : Query) : Inquiry Node (Option Span) :=
  (construct t q q.companions).bind fun declaration =>
    (match declaration with
      | some declaration => body t q.document declaration q.kinds
      | none => done none).bind fun
        | some body => done (some (SyntaxTree.bodySpan q.document (t.extent body)))
        | none => locateConstruct t q

/-- The search that answers a query. -/
def locate (q : Query) : Inquiry Node (Option Span) :=
  match q.keyword with
  | .signature => locateSignature t q
  | .body => locateBody t q
  | _ => locateConstruct t q

theorem outcome_locateSignature (q : Query) :
    (locateSignature t q).outcome t.nodeAt = t.locateSignature? q := by
  rw [locateSignature, outcome_bind, outcome_construct, SyntaxTree.locateSignature?]
  apply congrArg
  funext declaration
  cases declaration with
  | none => rfl
  | some declaration =>
    show ((body t q.document declaration q.companions).bind _).outcome t.nodeAt = _
    rw [outcome_bind, outcome_body]
    rfl

theorem outcome_locateBody (q : Query) :
    (locateBody t q).outcome t.nodeAt = t.locateBody? q := by
  rw [locateBody, outcome_bind, outcome_construct, SyntaxTree.locateBody?]
  apply congrArg
  funext declaration
  rw [outcome_bind]
  have hbody (found : Option Node) :
      (match found with
        | some body => done (some (SyntaxTree.bodySpan q.document (t.extent body)))
        | none => locateConstruct t q).outcome t.nodeAt =
      match found with
        | some body => return some (SyntaxTree.bodySpan q.document (t.extent body))
        | none => t.locateConstruct? q := by
    cases found with
    | some body => rfl
    | none => exact outcome_locateConstruct t q
  cases declaration with
  | none => exact hbody none
  | some declaration =>
    show ((body t q.document declaration q.kinds).outcome t.nodeAt >>= _) = _
    rw [outcome_body]
    exact congrArg _ (funext hbody)

/-- Against a tree, an inquiry comes to what the search comes to. -/
theorem outcome_locate (q : Query) : (locate t q).outcome t.nodeAt = t.locate? q := by
  rw [locate, SyntaxTree.locate?]
  cases q.keyword with
  | signature => exact outcome_locateSignature t q
  | body => exact outcome_locateBody t q
  | _ => exact outcome_locateConstruct t q

/-- A search without nodes finds nothing. -/
theorem ifNothing_locate (q : Query) : (locate t q).ifNothing = none := by
  rw [locate]
  cases q.keyword with
  | signature =>
    rw [locateSignature, ifNothing_bind, ifNothing_construct]
    rfl
  | body =>
    rw [locateBody, ifNothing_bind, ifNothing_construct, ifNothing_bind]
    exact ifNothing_locateConstruct t q
  | _ => exact ifNothing_locateConstruct t q

/-- What a search finds rests on a node that it was shown. -/
theorem exists_node_of_run_locate {q : Query} {span : Span}
    (h : ((locate t q).run reply asked).1 = .ok (some span)) :
    ∃ node, .ok (some node) ∈ ((locate t q).run reply asked).2 := by
  apply Classical.byContradiction
  intro hnone
  have hresult := run_eq_ifNothing h fun node hnode => hnone ⟨node, hnode⟩
  rw [ifNothing_locate] at hresult
  cases hresult

end Inquiry

end LineGuard
