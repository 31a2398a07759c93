/-
# Finished statements

A statement ends where its brackets are closed and no operator carries it on. A line that
closes all that it opens and ends in a semicolon should be one by itself. But a header may have
the brace of its body on the next line, and whether a brace follows is asked of every line,
whatever it ends in. So a block that happens to stand behind a finished statement is taken for
its body, and the statement for a header.

Both cases are settled by the line itself and the first line of code behind it: without a brace
there the scope ends with the statement, and with one it reaches the brace at least.
-/

import LineGuard.Proofs.Construct.HeaderAndBody
import LineGuard.Proofs.Construct.LeftOut
import LineGuard.Proofs.Text.Piece
import LineGuard.Tag.Grammar

namespace LineGuard

namespace Construct

variable {t : Text} {line : Nat}

/-! ## Code that closes what it opens -/

/-- Brackets of all kinds. -/
def brackets : List Char := ['(', ')', '[', ']', '{', '}']

/-- Bare code whose round and square brackets are closed in turn, and which has no braces. -/
inductive IsNested : Text → Prop where
  | nil : IsNested []
  | plain {c : Char} {t : Text} (hc : c ∉ brackets) (ht : IsNested t) : IsNested (c :: t)
  | round {s t : Text} (hs : IsNested s) (ht : IsNested t) : IsNested ('(' :: (s ++ ')' :: t))
  | square {s t : Text} (hs : IsNested s) (ht : IsNested t) : IsNested ('[' :: (s ++ ']' :: t))

/-- Bare code of a statement that needs no other line. -/
structure IsFinished (code : Text) : Prop where
  nested : IsNested code
  ends : code.getLast? = some ';'
  opensKeywordBlock_eq : opensKeywordBlock code = false

theorem IsNested.append {s t : Text} (hs : (s.all fun c => c ∉ brackets) = true)
    (ht : IsNested t) : IsNested (s ++ t) := by
  induction s with
  | nil => exact ht
  | cons c rest ih =>
    rw [List.all_cons, Bool.and_eq_true, decide_eq_true_eq] at hs
    exact .plain hs.1 (ih hs.2)

theorem IsNested.foldl_bracketsBehind (h : IsNested t) (depth : Nat) :
    t.foldl bracketsBehind depth = depth := by
  induction h generalizing depth with
  | nil => rfl
  | @plain c t hc _ ih =>
    have hsame : bracketsBehind depth c = depth := by
      simp only [brackets, List.mem_cons, not_or] at hc
      simp [bracketsBehind, hc]
    rw [List.foldl_cons, hsame, ih]
  | round _ _ ihs iht =>
    rw [List.foldl_cons, List.foldl_append, List.foldl_cons, ihs]
    exact iht depth
  | square _ _ ihs iht =>
    rw [List.foldl_cons, List.foldl_append, List.foldl_cons, ihs]
    exact iht depth

theorem IsNested.notMem_brace (h : IsNested t) : '{' ∉ t ∧ '}' ∉ t := by
  induction h with
  | nil => exact ⟨List.not_mem_nil, List.not_mem_nil⟩
  | plain hc _ ih =>
    simp only [brackets, List.mem_cons, not_or] at hc
    simp [ih, Ne.symm hc.2.2.2.2.1, Ne.symm hc.2.2.2.2.2.1]
  | round _ _ ihs iht => simp [ihs, iht]
  | square _ _ ihs iht => simp [ihs, iht]

theorem foldl_bracesBehind (hopen : '{' ∉ t) (hclose : '}' ∉ t) (depth : Nat) :
    t.foldl bracesBehind depth = depth := by
  induction t with
  | nil => rfl
  | cons c rest ih =>
    rw [List.mem_cons, not_or] at hopen hclose
    have hsame : bracesBehind depth c = depth := by
      rw [bracesBehind, if_neg (Ne.symm hopen.1), if_neg (Ne.symm hclose.1)]
    rw [List.foldl_cons, hsame, ih hopen.2 hclose.2]

/-- Behind such code nothing is open. -/
theorem IsNested.isOutside (h : IsNested t) (line : Nat) : IsOutside (t.map (line, ·)) := by
  rw [IsOutside, bracketDepth, braceDepth, List.foldl_map, List.foldl_map]
  exact ⟨h.foldl_bracketsBehind 0, foldl_bracesBehind h.notMem_brace.1 h.notMem_brace.2 0⟩

theorem IsNested.opensNothing (h : IsNested t) (line : Nat) : OpensNothing (t.map (line, ·)) := by
  intro earlier other later heq
  have hbrace : (other, '{') ∈ t.map (line, ·) := by
    rw [heq]
    exact List.mem_append_right earlier List.mem_cons_self
  obtain ⟨c, hc, hmark⟩ := List.mem_map.mp hbrace
  obtain ⟨-, rfl⟩ := Prod.mk.inj hmark
  exact absurd hc h.notMem_brace.1

theorem continues_eq_false_of_semicolon (h : t.getLast? = some ';') : continues t = false := by
  have harrow : Text.endsWith "=>".toList t = false := by
    rw [Bool.eq_false_iff, ne_eq, Text.endsWith, List.isSuffixOf_iff_suffix]
    rintro ⟨before, rfl⟩
    simp at h
  have hmark : (some ';').any carryingMarks.contains = false := by decide
  rw [continues, harrow, h, hmark, Bool.or_false, Bool.and_false]

namespace Listing

variable {s : Listing} {header next : Nat}

theorem readUpTo_header (s : Listing) (header : Nat) :
    s.readUpTo header header = (s.bare header).map (header, ·) := by
  have hlines : header :: s.codeAfter header = [] ++ header :: s.codeAfter header := rfl
  rw [readUpTo_eq hlines, List.nil_append, marks_singleton]

/-- Behind a finished line, measuring goes on for the sake of a brace only. -/
theorem goesOn_iff_of_isFinished (h : IsFinished (s.bare header)) :
    s.GoesOn header header ↔ s.braceFollows header = true := by
  have hbare : s.bare header ≠ [] := by
    intro hnil
    have hends := h.ends
    rw [hnil] at hends
    cases hends
  rw [GoesOn, readUpTo_header, h.ends, continues_eq_false_of_semicolon h.ends]
  simp [hbare, h.nested.isOutside]

theorem stopsAt_of_isFinished (h : IsFinished (s.bare header))
    (hbrace : s.braceFollows header = false) : s.StopsAt header header where
  mem := List.mem_cons_self
  goesOn _ hearlier hlt := absurd hlt (Nat.not_lt_of_le (bounds_of_mem_measured hearlier).1)
  not_goesOn := by
    rw [goesOn_iff_of_isFinished h, hbrace]
    exact Bool.false_ne_true
  opensNothing := by
    rw [readUpTo_header]
    exact h.nested.opensNothing header

/-- Without a brace behind it a finished line is all there is. -/
theorem measure_of_isFinished (h : IsFinished (s.bare header))
    (hbrace : s.braceFollows header = false) : s.measure header = statement header header := by
  have hsettle := (stopsAt_of_isFinished h hbrace).settle?_eq
  rw [settle?, h.ends, if_neg (by decide), continues_eq_false_of_semicolon h.ends, hbrace,
    h.opensKeywordBlock_eq, Bool.and_false, if_neg (by decide), if_neg (by decide)] at hsettle
  exact (Option.some.inj hsettle).symm

/-! ## A brace behind the line -/

/-- A brace that a line starts with is left of it when literals and comments are taken out. -/
theorem bare_ne_nil_of_startsWith
    (h : Text.startsWith ['{'] (Text.trimStart (s.text line)) = true) : s.bare line ≠ [] := by
  obtain ⟨rest, hrest⟩ := Text.startsWith_iff.mp h
  have hblanks : ∀ c ∈ (s.text line).takeWhile Text.isBlank, Text.isBlank c = true :=
    fun c hc => List.mem_takeWhile_imp hc
  have htext : s.text line = (s.text line).takeWhile Text.isBlank ++ '{' :: rest := by
    conv_lhs => rw [← List.takeWhile_append_dropWhile (p := Text.isBlank) (l := s.text line)]
    rw [← Text.trimStart, ← hrest]
    rfl
  generalize (s.text line).takeWhile Text.isBlank = blanks at hblanks htext
  have hvisible : ∀ c ∈ ['{'], Text.isBlank c = false := List.forall_mem_singleton.mpr rfl
  have hmarks : ∀ c ∈ blanks, c ∉ lexicalMarks := fun c hc =>
    Text.notMem_of_isBlank (by decide) c (hblanks c hc)
  rw [bare, htext, bare_append _ hmarks, bare_cons _ (by decide), Text.trim, Text.trimStart,
    Text.dropWhile_append_of_stops hblanks (Text.stops_cons.mpr rfl), ← List.singleton_append,
    Text.trimEnd_append hvisible]
  exact List.cons_ne_nil _ _

theorem SettlesAs.line_le_last {code : Text} {c : Construct} (h : s.SettlesAs header line code c) :
    line ≤ c.last := by
  cases h with
  | indented _ hbody =>
    have hrun := isDeeperRun_of_indentedBody? hbody
    exact Nat.le_trans (Nat.le_of_lt hrun.lt_first) hrun.first_le_last
  | keyword heq hclose =>
    subst heq
    exact Nat.le_of_lt (isFirstEnd_of_keywordEnd? hclose).lt_close
  | statement => exact Nat.le_refl _

theorem le_of_head?_codeAfter (hnext : (s.codeAfter header).head? = some next)
    (hline : line ∈ s.codeAfter header) : next ≤ line := by
  obtain ⟨more, hafter⟩ := List.head?_eq_some_iff.mp hnext
  have hordered := s.pairwise_codeAfter header
  rw [hafter] at hline hordered
  rcases List.mem_cons.mp hline with rfl | hmore
  · exact Nat.le_refl _
  · exact Nat.le_of_lt ((List.pairwise_cons.mp hordered).1 line hmore)

/-- With a brace behind it a finished line is not all there is: what is measured has the line
of the brace in it. -/
theorem le_last_measure_of_isFinished (h : IsFinished (s.bare header))
    (hbrace : s.braceFollows header = true) (hnext : (s.codeAfter header).head? = some next)
    (hbare : s.bare next ≠ []) : next ≤ (s.measure header).last := by
  -- A line that something is passed over in front of is not the header.
  have hbehind {first line : Nat} {passed rest : List Nat}
      (hlines : header :: s.codeAfter header = first :: passed ++ line :: rest) : next ≤ line := by
    apply le_of_head?_codeAfter hnext
    rw [(List.cons.inj hlines).2]
    exact List.mem_append_right passed List.mem_cons_self
  have hends := s.endsAs_measure header
  generalize s.measure header = c at hends
  cases hends with
  | @closes before passed rest line opening hlines hpasses hread =>
    cases passed with
    | nil =>
      obtain ⟨rfl, -⟩ := List.cons.inj hlines
      have hclosed := (hpasses.describes Depth.describes_outside).closesBody_of_readLine hread
      exact absurd (h.nested.opensNothing header) hclosed.not_opensNothing
    | cons first passed => exact hbehind hlines
  | @settles before final passed rest line c hlines hpasses _ hread hsettled hsettle =>
    cases passed with
    | nil =>
      obtain ⟨rfl, -⟩ := List.cons.inj hlines
      have hcolon : (s.bare header).getLast? ≠ some ':' := by
        rw [h.ends]
        decide
      cases hsettle.symm.trans (settle?_eq_none_iff.mpr ⟨hcolon, .inr hbrace⟩)
    | cons first passed =>
      exact Nat.le_trans (hbehind hlines) (settlesAs_of_settle? hsettle).line_le_last
  | runsOutInBody hpasses hopening =>
    exact le_lastCodeOf (List.mem_cons_of_mem header (List.mem_of_head? hnext)) hbare
  | runsOut hpasses hopening =>
    exact le_lastCodeOf (List.mem_cons_of_mem header (List.mem_of_head? hnext)) hbare

/-- A brace that follows starts the next line of code. -/
theorem exists_head?_of_braceFollows (h : s.braceFollows header = true) :
    ∃ next, (s.codeAfter header).head? = some next ∧
      Text.startsWith ['{'] (Text.trimStart (s.text next)) = true := by
  obtain ⟨next, hnext, hstarts⟩ := (Option.any_eq_true _ _).mp h
  exact ⟨next, List.head?_filter.trans hnext, hstarts⟩

/-! ## Looking for the line -/

/-- The first line of code is taken for a keyword it can stand for, unless it decorates. -/
theorem firstConstruct?_of_find? {keyword : Keyword} {lines : List Nat} {c : Construct}
    (hfirst : lines.find? s.document.isCode = some line)
    (hdecorator : decorator.heads (s.text line) = false)
    (hc : s.construct? keyword line = some c) :
    s.firstConstruct? keyword none lines = some { c with start := line } := by
  induction lines with
  | nil => cases hfirst
  | cons other rest ih =>
    rw [firstConstruct?]
    cases hcode : s.document.isCode other with
    | false =>
      rw [List.find?_cons_of_neg (by simp [hcode])] at hfirst
      exact ih hfirst
    | true =>
      rw [List.find?_cons_of_pos hcode] at hfirst
      obtain rfl := Option.some.inj hfirst
      simp [hdecorator, hc]

end Listing

/-- The first line of code that a query looks at decorates nothing and is finished. -/
structure MeetsFinished (q : Query) (line : Nat) : Prop where
  first : q.searchLines.find? q.document.isCode = some line
  undecorated : decorator.heads ((Listing.ofQuery q).text line) = false
  finished : IsFinished ((Listing.ofQuery q).bare line)

end Construct

namespace Resolver

open Construct (IsFinished IsNested Listing MeetsFinished)

variable {Node : Type} [DecidableEq Node] {r : Resolver Node} {q : Query} {line : Nat}

theorem constructScope_of_meetsFinished (htree : r.tree = none) (htext : r.readsText = true)
    (hkeyword : q.keyword = .statement ∨ q.keyword = .expression) (h : MeetsFinished q line) :
    r.constructScope q =
      ⟨q.tagLine, q.tagLine, some ((Listing.ofQuery q).measure line).last, .heuristic⟩ := by
  obtain ⟨hsignature, hconstruct, hpart, hgoverned⟩ : q.keyword ≠ .signature ∧
      (Listing.ofQuery q).construct? q.keyword line = some ((Listing.ofQuery q).measure line) ∧
      (∀ c : Construct, c.part? q.keyword = some c.span) ∧
      ∀ span, governedSpan q.tagLine q.keyword span =
        .between (min q.tagLine span.first) span.last := by
    rcases hkeyword with hkeyword | hkeyword <;> rw [hkeyword] <;>
      exact ⟨by decide, rfl, fun _ => rfl, fun _ => rfl⟩
  have hplace : r.placeByTree? q = none := by
    rw [placeByTree?, htree]
    rfl
  have hread : r.ReadsConstruct q { (Listing.ofQuery q).measure line with start := line } :=
    ⟨hplace, htext, fun hinline => hsignature hinline.2,
      Listing.firstConstruct?_of_find? h.first h.undecorated hconstruct⟩
  have hcode : q.document.isCode line = true := by simpa using List.find?_some h.first
  have hstart : q.tagLine ≤ line := by
    have hsearched := (List.mem_range'_1.mp (List.mem_of_find?_eq_some h.first)).1
    rw [Query.searchStart] at hsearched
    split at hsearched <;> omega
  have hlies := (Listing.ofQuery q).liesIn_measure (Document.lt_lineCount_of_isCode hcode)
  have hlast := Nat.le_trans hlies.header_le_headerEnd hlies.headerEnd_le_last
  rw [hread.constructScope_eq (hpart _), hgoverned]
  simp only [Scope.bounded, Construct.span, Span.first_between, Span.last_between,
    Nat.min_eq_left hstart, Nat.max_eq_right hlast, Nat.max_eq_right (Nat.le_trans hstart hlast)]

/-- The scope of a tag in front of a finished statement ends with the statement, unless a brace
is the next thing in the code. Then it reaches the line of the brace at least. -/
theorem resolve_of_meetsFinished (table : LanguageTable) (window : Nat) {d : Document} {tag : Tag}
    {keyword : Construct.Keyword} {added removed : List Text}
    (hreach : tag.reach = .construct keyword added removed)
    (hkeyword : keyword = .statement ∨ keyword = .expression) :
    let r := Resolver.mk table (none : Option (SyntaxTree Node)) true window
    let q := r.query d tag keyword added removed
    MeetsFinished q line →
      ∃ last, r.resolve d tag = ⟨tag.line, tag.line, some last, .heuristic⟩ ∧
        ((Listing.ofQuery q).braceFollows line = false → last = line) ∧
        ((Listing.ofQuery q).braceFollows line = true →
          ∃ next, ((Listing.ofQuery q).codeAfter line).head? = some next ∧ line < next ∧
            next ≤ last) := by
  intro r q h
  refine ⟨((Listing.ofQuery q).measure line).last, ?_, fun hbrace => ?_, fun hbrace => ?_⟩
  · rw [resolve, hreach]
    exact constructScope_of_meetsFinished rfl rfl hkeyword h
  · rw [Listing.measure_of_isFinished h.finished hbrace]
    rfl
  · obtain ⟨next, hnext, hstarts⟩ := Listing.exists_head?_of_braceFollows hbrace
    have hafter := List.mem_of_head? hnext
    exact ⟨next, hnext, (Listing.lt_of_mem_linesAfter (List.mem_filter.mp hafter).1).1,
      Listing.le_last_measure_of_isFinished h.finished hbrace hnext
        (Listing.bare_ne_nil_of_startsWith hstarts)⟩

/-- A statement with its tag, and a block that only a call keeps apart from it. -/
def statementThenCall : Document :=
  .ofText "// @guard:ai:n.stmt\nlet total = f(a[0]);\n\nf(b);\n\x7b\n    g();\n\x7d\n".toList
    (some "rust".toList)

/-- A statement with its tag, and a block right behind it. -/
def statementThenBlock : Document :=
  .ofText "// @guard:ai:n.stmt\nlet total = f(a[0]);\n\x7b\n    g();\n\x7d\n".toList
    (some "rust".toList)

def statementTag : Tag := ⟨0, 0, .ai, none, .deny, .construct .statement [] []⟩

theorem isFinished_statement {code : Text} (h : code = "let total = f(a[0]);".toList) :
    IsFinished code where
  nested := by
    have hindex : IsNested "a[0]".toList :=
      .append (s := "a".toList) (by decide)
        (.square (.append (s := "0".toList) (by decide) .nil) .nil)
    rw [h]
    exact .append (s := "let total = f".toList) (by decide)
      (.round hindex (.append (s := ";".toList) (by decide) .nil))
  ends := by
    rw [h]
    decide
  opensKeywordBlock_eq := by
    rw [h]
    decide +kernel

theorem meetsFinished_statementThenCall :
    MeetsFinished (Listing.textResolver.query statementThenCall statementTag .statement [] [])
      1 where
  first := by decide +kernel
  undecorated := by decide +kernel
  finished := isFinished_statement (by decide +kernel)

theorem meetsFinished_statementThenBlock :
    MeetsFinished (Listing.textResolver.query statementThenBlock statementTag .statement [] [])
      1 where
  first := by decide +kernel
  undecorated := by decide +kernel
  finished := isFinished_statement (by decide +kernel)

theorem resolve_of_meetsFinished_statementThenCall :
    (statementTag.reach = .construct .statement [] [] ∧
        MeetsFinished
          (Listing.textResolver.query statementThenCall statementTag .statement [] []) 1) ∧
      Listing.textResolver.resolve statementThenCall statementTag =
        ⟨0, 0, some 1, .heuristic⟩ := by
  have hreach : statementTag.reach = .construct .statement [] [] := rfl
  obtain ⟨last, hresolve, hlast, -⟩ := resolve_of_meetsFinished .builtin standardWindow hreach
    (.inl rfl) meetsFinished_statementThenCall
  obtain rfl := hlast (by decide +kernel)
  exact ⟨⟨hreach, meetsFinished_statementThenCall⟩, hresolve⟩

/-- The block behind a finished statement comes under the tag of the statement. -/
theorem resolve_statementThenBlock :
    statementTag ∈ statementThenBlock.tags ∧ statementThenBlock.isDocumentation 0 = true ∧
      MeetsFinished
        (Listing.textResolver.query statementThenBlock statementTag .statement [] []) 1 ∧
      Listing.textResolver.resolve statementThenBlock statementTag ≠ ⟨0, 0, some 1, .heuristic⟩ ∧
      Listing.textResolver.resolve statementThenBlock statementTag =
        ⟨0, 0, some 4, .heuristic⟩ := by
  have hresolve : Listing.textResolver.resolve statementThenBlock statementTag =
      ⟨0, 0, some 4, .heuristic⟩ := by decide +kernel
  refine ⟨by decide +kernel, by decide +kernel, meetsFinished_statementThenBlock, ?_, hresolve⟩
  rw [hresolve]
  decide

end Resolver

end LineGuard
