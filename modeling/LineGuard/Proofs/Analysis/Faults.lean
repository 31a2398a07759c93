/-
# When a syntax tree fails

A syntax tree may have to reach for a grammar, and any question put to it may fail, for a
reason that has passed by the next question or has not. An analysis goes on all the same.
What fails is one search, for the tag that is being placed: the tag is given the scope it
has without a tree, and the tags behind it are placed as if nothing had happened.

The tree considered here answers each call as it likes, by the number of the call. The
calls are numbered through the whole analysis, so the scopes are worked out in the order of
the tags. For a tree that answers alike at all times this is the analysis with that tree.
-/

import LineGuard.Proofs.Analysis.Background
import LineGuard.Proofs.Scope.Inquiry

namespace LineGuard

variable {Node : Type}

/-- A syntax tree that may answer the same question differently from one call to the next. -/
structure UnreliableTree (Node : Type) where
  nodeAt : (call line column : Nat) → TreeReply Node
  ancestors : Node → List Node
  kind : Node → Text
  extent : Node → Extent

namespace UnreliableTree

/-- The tree as it is on one call. -/
def onCall (u : UnreliableTree Node) (call : Nat) : SyntaxTree Node where
  nodeAt := u.nodeAt call
  ancestors := u.ancestors
  kind := u.kind
  extent := u.extent

/-- A tree that answers alike on every call. -/
def steady (t : SyntaxTree Node) : UnreliableTree Node where
  nodeAt _ := t.nodeAt
  ancestors := t.ancestors
  kind := t.kind
  extent := t.extent

end UnreliableTree

/-- The scope of a tag, with the replies that were received on the way to it. -/
structure Placement (Node : Type) where
  scope : Scope
  replies : List (TreeReply Node)

namespace Placement

/-- Whether a placement keeps to itself what goes wrong with a tree. `plain` is the scope
there is without one. -/
structure Contains (plain : Scope) (placement : Placement Node) : Prop where
  byTree_or_plain : (placement.scope.origin = .syntaxTree ∧
    ∃ node, .ok (some node) ∈ placement.replies) ∨ placement.scope = plain
  plain_of_fault : ∀ fault, .error fault ∈ placement.replies → placement.scope = plain

end Placement

/-! ## One tag -/

namespace Resolver

/-- The scope of a tag that names a construct, given where a tree places the construct. -/
def scopeFrom (r : Resolver Node) (q : Query) (placed : Option Span) : Scope :=
  match (placed.map (·, ScopeOrigin.syntaxTree)).or
      ((r.placeByText? q).map (·, ScopeOrigin.heuristic)) with
  | some (span, origin) => .bounded q.tagLine (governedSpan q.tagLine q.keyword span) origin
  | none => .openEnded q.tagLine .unresolved

/-- Where a tree places a construct, by how the search for it has ended. -/
def placed? : Except TreeFault (Option Span) → Option Span
  | .ok span => span
  | .error _ => none

variable [DecidableEq Node]

/-- Places a tag that names a construct by an unreliable tree, and by the text where that
fails. Calls are numbered on from `asked`. -/
def placeConstruct (r : Resolver Node) (u : UnreliableTree Node) (asked : Nat) (q : Query) :
    Placement Node :=
  if q.isInline && q.keyword == .signature then
    ⟨.bounded q.tagLine (.single q.tagLine) .inlineSignature, []⟩
  else
    let answer := (Inquiry.locate (u.onCall asked) q).run u.nodeAt asked
    ⟨r.scopeFrom q (placed? answer.1), answer.2⟩

/-- Places a tag. -/
def place (r : Resolver Node) (u : UnreliableTree Node) (d : Document) (asked : Nat) (tag : Tag) :
    Placement Node :=
  match tag.reach with
  | .construct keyword added removed =>
    r.placeConstruct u asked (r.query d tag keyword added removed)
  | _ => ⟨r.resolve d tag, []⟩

/-- Places some tags in turn. -/
def placeEach (r : Resolver Node) (u : UnreliableTree Node) (d : Document) :
    (asked : Nat) → List Tag → List (Placement Node)
  | _, [] => []
  | asked, tag :: rest =>
    let placement := r.place u d asked tag
    placement :: placeEach r u d (asked + placement.replies.length) rest

variable {r : Resolver Node} {u : UnreliableTree Node} {d : Document} {tag : Tag}
  {tags : List Tag} {asked : Nat} {q : Query}

theorem constructScope_eq :
    r.constructScope q =
      if q.isInline && q.keyword == .signature then
        .bounded q.tagLine (.single q.tagLine) .inlineSignature
      else r.scopeFrom q (r.placeByTree? q) := rfl

theorem placeByTree?_of_some (t : SyntaxTree Node) :
    { r with tree := some t }.placeByTree? q = placed? (t.locate? q) := by
  cases hlocate : t.locate? q <;> simp [placeByTree?, placed?, hlocate]

theorem scope_placeConstruct_steady (t : SyntaxTree Node) :
    (r.placeConstruct (.steady t) asked q).scope =
      { r with tree := some t }.constructScope q := by
  have hplaced : { r with tree := some t }.placeByTree? q =
      placed? ((Inquiry.locate t q).run (fun _ => t.nodeAt) asked).1 := by
    rw [placeByTree?_of_some, Inquiry.run_steady, Inquiry.outcome_locate]
  rw [placeConstruct, constructScope_eq, hplaced]
  split <;> rfl

/-- With a tree that answers alike, a tag is given the scope it has with that tree. -/
theorem scope_place_steady (t : SyntaxTree Node) :
    (r.place (.steady t) d asked tag).scope = { r with tree := some t }.resolve d tag := by
  cases hreach : tag.reach with
  | construct keyword added removed =>
    simp only [place, resolve, hreach]
    exact scope_placeConstruct_steady t
  | _ => simp only [place, resolve, hreach]

theorem contains_placeConstruct (htree : r.tree = none) :
    (r.placeConstruct u asked q).Contains (r.constructScope q) := by
  rw [placeConstruct, constructScope_eq, placeByTree?, htree]
  by_cases hinline : (q.isInline && q.keyword == .signature) = true
  · rw [if_pos hinline, if_pos hinline]
    exact ⟨.inr rfl, fun _ hfault => absurd hfault List.not_mem_nil⟩
  · rw [if_neg hinline, if_neg hinline]
    constructor
    case byTree_or_plain =>
      cases hanswer : ((Inquiry.locate (u.onCall asked) q).run u.nodeAt asked).1 with
      | error fault => exact .inr (congrArg (r.scopeFrom q ∘ placed?) hanswer)
      | ok placed =>
        have hscope := congrArg (r.scopeFrom q ∘ placed?) hanswer
        cases placed with
        | none => exact .inr hscope
        | some span =>
          exact .inl ⟨congrArg Scope.origin hscope, Inquiry.exists_node_of_run_locate _ hanswer⟩
    case plain_of_fault =>
      intro fault hfault
      exact congrArg (r.scopeFrom q ∘ placed?) (Inquiry.exists_run_eq_error hfault)

/-- Whatever an unreliable tree answers, a tag is given a scope that the tree places or the
one it has without a tree, and the latter if any answer fails. -/
theorem contains_place (htree : r.tree = none) :
    (r.place u d asked tag).Contains (r.resolve d tag) := by
  rw [place]
  cases hreach : tag.reach with
  | construct keyword added removed =>
    rw [resolve, hreach]
    exact contains_placeConstruct htree
  | _ =>
    exact ⟨.inr rfl, fun _ hfault => absurd hfault List.not_mem_nil⟩

/-- The replies are those of the tree to the calls made, in order. -/
theorem exists_nodeAt_eq_of_place {index : Nat} {received : TreeReply Node}
    (h : (r.place u d asked tag).replies[index]? = some received) :
    ∃ line column, u.nodeAt (asked + index) line column = received := by
  rw [place] at h
  cases hreach : tag.reach with
  | construct keyword added removed =>
    rw [hreach] at h
    dsimp only [placeConstruct] at h
    split at h
    · cases h
    · exact Inquiry.exists_reply_eq h
  | _ =>
    rw [hreach] at h
    cases h

/-! ## All tags -/

theorem map_scope_placeEach_steady (t : SyntaxTree Node) :
    (r.placeEach (.steady t) d asked tags).map (·.scope) =
      tags.map ({ r with tree := some t }.resolve d) := by
  induction tags generalizing asked with
  | nil => rfl
  | cons tag rest ih => rw [placeEach, List.map_cons, List.map_cons, scope_place_steady, ih]

theorem contains_placeEach (htree : r.tree = none) :
    List.Forall₂ Placement.Contains (tags.map (r.resolve d)) (r.placeEach u d asked tags) := by
  induction tags generalizing asked with
  | nil => exact .nil
  | cons tag rest ih => exact .cons (contains_place htree) ih

theorem exists_nodeAt_eq_of_placeEach {index : Nat} {received : TreeReply Node}
    (h : ((r.placeEach u d asked tags).flatMap (·.replies))[index]? = some received) :
    ∃ line column, u.nodeAt (asked + index) line column = received := by
  induction tags generalizing asked index with
  | nil => cases h
  | cons tag rest ih =>
    rw [placeEach, List.flatMap_cons] at h
    by_cases hhere : index < (r.place u d asked tag).replies.length
    · rw [List.getElem?_append_left hhere] at h
      exact exists_nodeAt_eq_of_place h
    · rw [List.getElem?_append_right (Nat.le_of_not_lt hhere)] at h
      have hrest := ih h
      rwa [Nat.add_assoc, Nat.add_sub_cancel' (Nat.le_of_not_lt hhere)] at hrest

end Resolver

namespace Placement

/-- Without a node among the replies, all placements are those there are without a tree. -/
theorem map_scope_eq_of_contains {plain : List Scope} {placements : List (Placement Node)}
    (h : List.Forall₂ Contains plain placements)
    (hnone : ∀ placement ∈ placements, ∀ node, .ok (some node) ∉ placement.replies) :
    placements.map (·.scope) = plain := by
  induction h with
  | nil => rfl
  | cons hcontains _ ih =>
    have hfirst := hnone _ List.mem_cons_self
    have hrest := ih fun placement hplacement =>
      hnone placement (List.mem_cons_of_mem _ hplacement)
    rcases hcontains.byTree_or_plain with ⟨_, node, hnode⟩ | hplain
    · exact absurd hnode (hfirst node)
    · rw [List.map_cons, hplain, hrest]

end Placement

/-! ## The analysis -/

namespace Analysis

/-- The analysis of a document whose tags have been given scopes. -/
def ofScopes (options : Options) (d : Document) (scopes : List Scope) :
    Except Problem Analysis := do
  let regions := Region.build d d.tags scopes options.defaults
  let permissions ← PermissionMap.ofRegions d.lineCount regions options.defaults
  return { lineCount := d.lineCount, tags := d.tags, scopes, regions, permissions }

variable (options : Options) (table : LanguageTable) (d : Document)

theorem exists_ofScopes_eq_ok (scopes : List Scope) :
    ∃ a, ofScopes options d scopes = .ok a ∧ a.tags = d.tags ∧ a.scopes = scopes := by
  obtain ⟨map, hmap, _⟩ :=
    PermissionMap.exists_ofRegions_build d d.tags scopes options.defaults
  rw [ofScopes, hmap]
  exact ⟨_, rfl, rfl, rfl⟩

variable [DecidableEq Node]

theorem ofDocument_eq_ofScopes (tree : Option (SyntaxTree Node)) :
    ofDocument options table tree d =
      ofScopes options d (d.tags.map ((resolver options table tree).resolve d)) := rfl

/-- The placements of the tags of a document by an unreliable tree. -/
def placements (u : UnreliableTree Node) : List (Placement Node) :=
  (resolver options table (none : Option (SyntaxTree Node))).placeEach u d 0 d.tags

/-- Analyses a document with a syntax tree that is unreliable. -/
def ofUnreliable (u : UnreliableTree Node) : Except Problem Analysis :=
  ofScopes options d ((placements options table d u).map (·.scope))

/-- The scope of a tag without a tree is the same for trees of all kinds. -/
theorem resolve_none_eq_textScope (tag : Tag) :
    (resolver options table (none : Option (SyntaxTree Node))).resolve d tag =
      textScope options table d tag := by
  rw [textScope, Resolver.resolve, Resolver.resolve]
  cases tag.reach <;> rfl

/-- Failures of a syntax tree stay with the tags they happen to. Whatever the tree answers
to each call, there is an analysis; each tag has a scope that the tree has placed, going by
some node, or the one it has without a tree, and always the latter if an answer on the way
has failed; and if no answer is a node, the whole analysis is the one without a tree. -/
theorem contains_faults (u : UnreliableTree Node) :
    ∃ a plain, ofUnreliable options table d u = .ok a ∧ ofText options table d = .ok plain ∧
      a.tags = plain.tags ∧ a.scopes = (placements options table d u).map (·.scope) ∧
      List.Forall₂ Placement.Contains plain.scopes (placements options table d u) ∧
      (∀ call received,
        ((placements options table d u).flatMap (·.replies))[call]? = some received →
          ∃ line column, u.nodeAt call line column = received) ∧
      ((∀ placement ∈ placements options table d u, ∀ node,
        .ok (some node) ∉ placement.replies) → a = plain) ∧
      ∀ t : SyntaxTree Node, u = .steady t → ofDocument options table (some t) d = .ok a := by
  obtain ⟨a, hok, htags, hscopes⟩ :=
    exists_ofScopes_eq_ok options d ((placements options table d u).map (·.scope))
  obtain ⟨plain, hplain, hplainTags, hplainScopes⟩ :=
    exists_ofScopes_eq_ok options d (d.tags.map (textScope options table d))
  have hcontains : List.Forall₂ Placement.Contains (d.tags.map (textScope options table d))
      (placements options table d u) := by
    have hresolve : (resolver options table (none : Option (SyntaxTree Node))).resolve d =
        textScope options table d :=
      funext (resolve_none_eq_textScope options table d)
    rw [← hresolve]
    exact Resolver.contains_placeEach rfl
  refine ⟨a, plain, hok, hplain, htags.trans hplainTags.symm, hscopes,
    hplainScopes ▸ hcontains, ?_, ?_, ?_⟩
  · intro call received hreceived
    have hnodeAt := Resolver.exists_nodeAt_eq_of_placeEach hreceived
    rwa [Nat.zero_add] at hnodeAt
  · intro hnone
    rw [Placement.map_scope_eq_of_contains hcontains hnone] at hok
    exact Except.ok.inj (hok.symm.trans hplain)
  · rintro t rfl
    rw [ofDocument_eq_ofScopes, ← hok, placements, Resolver.map_scope_placeEach_steady]
    rfl

end Analysis

end LineGuard
