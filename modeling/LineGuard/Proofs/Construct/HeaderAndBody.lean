/-
# Header and body

The header of a construct, its body and its end are worked out apart from each other, and still
they fit: the header ends in front of the body, and the body with the construct. So a tag for
the signature of a construct and a tag for its body never govern the same line.

There is one exception. A body between braces that is closed on the line it opens has no other
line, and where the header needs that line as well they share it. This is so when the body
opens behind other text, and also when the line is that of the header, which has to end
somewhere.
-/

import LineGuard.Language.Builtin
import LineGuard.Proofs.Construct.Extent
import LineGuard.Proofs.Region.Activation

namespace LineGuard

namespace Construct

variable {header close line : Nat} {opening : Opening} {s : Listing} {span : Span}

/-! ## Lines of a construct -/

/-- A body between braces is kept apart from the header unless it is over on the line on which
it opens behind other text. -/
theorem headerEnd_ofBraces_lt_iff (halone : opening.isAlone = true → header < opening.line)
    (hspan : (ofBraces header opening close).bodySpan? = some span) :
    (ofBraces header opening close).headerEnd < span.first ↔
      ¬ (opening.isAlone = false ∧ opening.line = close) := by
  obtain rfl := Option.some.inj hspan
  simp only [ofBraces]
  cases hopens : opening.isAlone with
  | true =>
    have hlt := halone hopens
    simp only [if_true, Bool.true_or, Span.first_between, Bool.true_eq_false, false_and,
      not_false_eq_true, iff_true]
    omega
  | false =>
    by_cases hone : opening.line = close <;> simp [hone]

namespace Listing

/-- The header and the body of a construct need the same line: the body is over on the line on
which it opens, and that is the header line or starts with other text. -/
def SharesLine (s : Listing) (header : Nat) : Prop :=
  ∃ opening, (s.measure header).body = some (.braces opening opening.line) ∧
    (opening.line = header ∨ Text.startsWith ['{'] (s.bare opening.line) = false)

theorem startsWithBrace_eq_false_iff (hline : header ≤ line) :
    s.startsWithBrace header line = false ↔
      line = header ∨ Text.startsWith ['{'] (s.bare line) = false := by
  rw [startsWithBrace, Bool.and_eq_false_iff, decide_eq_false_iff_not]
  exact or_congr_left ⟨fun h => Nat.le_antisymm (Nat.le_of_not_lt h) hline,
    fun h => h ▸ Nat.lt_irrefl _⟩

/-- The header ends in front of the body, unless there is no line to keep them apart. -/
theorem headerEnd_lt_iff (hspan : (s.measure header).bodySpan? = some span) :
    (s.measure header).headerEnd < span.first ↔ ¬ s.SharesLine header := by
  have hshape := s.hasShape_measure header
  rw [SharesLine]
  generalize s.measure header = c at hspan hshape
  cases hshape with
  | statement hline => cases hspan
  | @braces first close hfirst hclose hordered =>
    have hheader := (bounds_of_mem_measured hfirst).1
    have halone : s.startsWithBrace header first = true → header < first := fun h => by
      simpa using (Bool.and_eq_true_iff.mp h).1
    rw [headerEnd_ofBraces_lt_iff halone hspan, startsWithBrace_eq_false_iff hheader]
    refine not_congr ⟨?_, ?_⟩
    · rintro ⟨hbehind, hone⟩
      obtain rfl : first = close := hone
      exact ⟨_, rfl, hbehind⟩
    · rintro ⟨opening, hbody, hbehind⟩
      obtain ⟨rfl, rfl⟩ := Body.braces.inj (Option.some.inj hbody)
      exact ⟨hbehind, rfl⟩
  | indented hline hbody =>
    obtain rfl := Option.some.inj hspan
    exact iff_of_true (isDeeperRun_of_indentedBody? hbody).lt_first fun ⟨_, h, _⟩ => nomatch h
  | keyword hclose =>
    obtain rfl := Option.some.inj hspan
    exact iff_of_true (Nat.lt_succ_self _) fun ⟨_, h, _⟩ => nomatch h

end Listing

end Construct

/-! ## Tags -/

namespace Resolver

variable {Node : Type} [DecidableEq Node] {r : Resolver Node} {q : Query} {c : Construct}
  {span : Span}

/-- A query is answered by the text, with a construct. -/
structure ReadsConstruct (r : Resolver Node) (q : Query) (c : Construct) : Prop where
  placeByTree?_eq : r.placeByTree? q = none
  readsText : r.readsText = true
  not_inline : ¬ (q.isInline = true ∧ q.keyword = .signature)
  found : (Construct.Listing.ofQuery q).firstConstruct? q.keyword none q.searchLines = some c

theorem ReadsConstruct.constructScope_eq (h : r.ReadsConstruct q c)
    (hpart : c.part? q.keyword = some span) :
    r.constructScope q =
      .bounded q.tagLine (governedSpan q.tagLine q.keyword span) .heuristic := by
  have hlocate : Construct.locate? q = some span := by rw [Construct.locate?, h.found]; exact hpart
  have hplace : r.place? q = some (span, .heuristic) := by
    rw [place?, h.placeByTree?_eq, placeByText?, if_pos h.readsText, hlocate]
    rfl
  rw [constructScope, if_neg (by simpa using h.not_inline), hplace]

/-- What is read for a query starts no later than its header ends, and no later than its
body. -/
theorem ReadsConstruct.start_le (h : r.ReadsConstruct q c) :
    c.start ≤ c.headerEnd ∧ ∀ span, c.bodySpan? = some span → c.start ≤ span.first := by
  obtain ⟨line, -, start, -, hstart, hcode, -, rfl⟩ :=
    Construct.Listing.exists_measure_of_searchLines h.found
  have hlies :=
    (Construct.Listing.ofQuery q).liesIn_measure (Document.lt_lineCount_of_isCode hcode)
  exact ⟨Nat.le_trans hstart hlies.header_le_headerEnd, fun span hspan =>
    Nat.le_trans hstart ((Construct.Listing.ofQuery q).bodyFrom_measure line span hspan)⟩

variable {d : Document} {tag : Tag} {added removed : List Text}

theorem ReadsConstruct.resolve_signature_eq
    (hreach : tag.reach = .construct .signature added removed)
    (h : r.ReadsConstruct (r.query d tag .signature added removed) c) :
    r.resolve d tag =
      ⟨tag.line, min tag.line c.start, some c.headerEnd, .heuristic⟩ := by
  have hstart := h.start_le.1
  have hspan : (governedSpan tag.line .signature c.headerSpan).last = c.headerEnd := by
    simp only [governedSpan, Construct.headerSpan, Span.first_between, Span.last_between]
    omega
  rw [resolve, hreach]
  dsimp only
  rw [h.constructScope_eq rfl]
  exact congrArg (Scope.mk _ _ · _) (congrArg some hspan)

theorem ReadsConstruct.resolve_body_eq (hreach : tag.reach = .construct .body added removed)
    (h : r.ReadsConstruct (r.query d tag .body added removed) c)
    (hspan : c.bodySpan? = some span) :
    r.resolve d tag = ⟨tag.line, span.first, some span.last, .heuristic⟩ := by
  rw [resolve, hreach]
  dsimp only
  rw [h.constructScope_eq hspan]
  rfl

/-- What is found for a body has one. -/
theorem ReadsConstruct.exists_bodySpan? (h : r.ReadsConstruct q c) (hkeyword : q.keyword = .body) :
    ∃ span, c.bodySpan? = some span := by
  obtain ⟨line, -, start, -, -, -, hconstruct, rfl⟩ :=
    Construct.Listing.exists_measure_of_searchLines h.found
  rw [hkeyword] at hconstruct
  rw [← Option.isSome_iff_exists, Construct.isSome_bodySpan?]
  exact (Option.filter_eq_some_iff.mp hconstruct).2

end Resolver

/-- What is measured from a line of a document is in order, the header in front of the body.
Where the text places a tag for the signature and one for the body by the same construct, the
lines of the one, together with those between tag and construct, are in front of those of the
other. Header and body meet only where they have to share a line. -/
theorem Construct.Listing.ordered_measure {s : Listing} {header : Nat}
    (hheader : header < s.document.lineCount) {Node : Type} [DecidableEq Node]
    (r : Resolver Node) :
    (header ≤ (s.measure header).headerEnd ∧
      (s.measure header).headerEnd ≤ (s.measure header).last ∧
      ∃ final, s.document.lastLine? = some final ∧ (s.measure header).last ≤ final) ∧
    (∀ span, (s.measure header).bodySpan? = some span →
      span.first ≤ span.last ∧ span.last ≤ (s.measure header).last ∧
        ((s.measure header).headerEnd < span.first ↔ ¬ s.SharesLine header)) ∧
    ∀ (tag tag' : Tag) (added removed added' removed' : List Text) (start start' : Nat),
      tag.reach = .construct .signature added removed →
      tag'.reach = .construct .body added' removed' →
      r.ReadsConstruct (r.query s.document tag .signature added removed)
        { s.measure header with start } →
      r.ReadsConstruct (r.query s.document tag' .body added' removed')
        { s.measure header with start := start' } →
      ∃ last last', (r.resolve s.document tag).endLine = some last ∧
        (r.resolve s.document tag').endLine = some last' ∧
        (r.resolve s.document tag).startLine = min tag.line start ∧
        start ≤ last ∧ last ≤ (s.measure header).last ∧
        start' ≤ (r.resolve s.document tag').startLine ∧
        (r.resolve s.document tag').startLine ≤ last' ∧ last' ≤ (s.measure header).last ∧
        (last < (r.resolve s.document tag').startLine ↔ ¬ s.SharesLine header) := by
  have hlies := s.liesIn_measure hheader
  obtain ⟨final, hfinal, -, hle⟩ := Document.exists_lastLine?_eq_some hlies.last_lt
  refine ⟨⟨hlies.header_le_headerEnd, hlies.headerEnd_le_last, final, hfinal, hle⟩,
    fun span hspan => ⟨span.first_le_last, hlies.body_le_last span hspan, headerEnd_lt_iff hspan⟩,
    fun tag tag' added removed added' removed' start start' hreach hreach' hsignature hbody => ?_⟩
  obtain ⟨span, hspan⟩ := hbody.exists_bodySpan? rfl
  rw [hsignature.resolve_signature_eq hreach, hbody.resolve_body_eq hreach' hspan]
  exact ⟨_, _, rfl, rfl, rfl, hsignature.start_le.1, hlies.headerEnd_le_last,
    hbody.start_le.2 span hspan, span.first_le_last, hlies.body_le_last span hspan,
    headerEnd_lt_iff hspan⟩

namespace Construct.Listing

/-- A decorated function with a tag for its signature and one for its body. -/
def decoratedListing : Listing where
  document := .ofText
    ("// @guard:ai:n.sig\n".toList ++ "// @guard:human:n.body\n".toList ++ "@memo\n".toList ++
      "function f(a,\n  b) \x7b\n".toList ++ "  g();\n\x7d".toList)
    (some "javascript".toList)
  cut := none

/-- Places by the text alone. -/
def textResolver : Resolver Nat := ⟨.builtin, none, true, Resolver.standardWindow⟩

def signatureTag : Tag := ⟨0, 0, .ai, none, .deny, .construct .signature [] []⟩

def bodyTag : Tag := ⟨1, 0, .human, none, .deny, .construct .body [] []⟩

theorem readsConstruct_decoratedListing :
    textResolver.ReadsConstruct
        (textResolver.query decoratedListing.document signatureTag .signature [] [])
        { decoratedListing.measure 3 with start := 2 } ∧
      textResolver.ReadsConstruct
        (textResolver.query decoratedListing.document bodyTag .body [] [])
        { decoratedListing.measure 3 with start := 2 } :=
  ⟨⟨rfl, rfl, by decide +kernel, by decide +kernel⟩,
    ⟨rfl, rfl, by decide +kernel, by decide +kernel⟩⟩

theorem ordered_measure_decoratedListing :
    3 < decoratedListing.document.lineCount ∧
      decoratedListing.measure 3 = ⟨3, 4, some (.braces ⟨4, false⟩ 6), 6⟩ ∧
      ∃ last last',
        (textResolver.resolve decoratedListing.document signatureTag).endLine = some last ∧
        (textResolver.resolve decoratedListing.document bodyTag).endLine = some last' ∧
        (textResolver.resolve decoratedListing.document signatureTag).startLine = 0 ∧ 2 ≤ last ∧
        last < (textResolver.resolve decoratedListing.document bodyTag).startLine ∧
        last' ≤ 6 := by
  have hheader : 3 < decoratedListing.document.lineCount := by decide +kernel
  have hmeasure : decoratedListing.measure 3 = ⟨3, 4, some (.braces ⟨4, false⟩ 6), 6⟩ := by
    decide +kernel
  obtain ⟨hsignature, hbody⟩ := readsConstruct_decoratedListing
  obtain ⟨last, last', hlast, hlast', hstart, hle, -, -, -, hinside, hapart⟩ :=
    (decoratedListing.ordered_measure hheader textResolver).2.2 signatureTag bodyTag [] [] [] [] 2 2
      rfl rfl hsignature hbody
  refine ⟨hheader, hmeasure, last, last', hlast, hlast', hstart, hle, hapart.mpr ?_, ?_⟩
  · rintro ⟨opening, hbraces, -⟩
    rw [hmeasure] at hbraces
    obtain ⟨rfl, hclose⟩ := Body.braces.inj (Option.some.inj hbraces)
    cases hclose
  · rwa [hmeasure] at hinside

/-- A block that stands by itself on one line. -/
def bareBlockListing : Listing where
  document := .ofText "// @guard:ai:w.body\n\x7b a(); \x7d".toList (some "javascript".toList)
  cut := none

/-- The line of a block that stands by itself is header and body at once, although nothing
stands in front of the block. And a tag for a signature also governs its own line, in front of
the construct. -/
theorem headerEnd_measure_bareBlockListing :
    ((bareBlockListing.measure 1).body = some (.braces ⟨1, false⟩ 1) ∧
      Text.startsWith ['{'] (bareBlockListing.document.line 1) = true ∧
      ∃ span, (bareBlockListing.measure 1).bodySpan? = some span ∧
        ¬ (bareBlockListing.measure 1).headerEnd < span.first) ∧
    textResolver.ReadsConstruct
        (textResolver.query decoratedListing.document signatureTag .signature [] [])
        { decoratedListing.measure 3 with start := 2 } ∧
      (textResolver.resolve decoratedListing.document signatureTag).startLine = 0 :=
  ⟨⟨by decide +kernel, by decide +kernel, .single 1, by decide +kernel, by decide +kernel⟩,
    readsConstruct_decoratedListing.1, by decide +kernel⟩

end Construct.Listing

end LineGuard
