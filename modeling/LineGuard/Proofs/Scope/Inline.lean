/-
# Tags that trail code

A tag behind code on its line speaks of that code: a search for what it names starts on the
line itself, and a signature it names is the one it stands behind. Any other tag speaks of
what follows. Which of the two a tag is goes by what stands in front of its mark on the
line, and anything but blanks is taken for code.

On a line that is comment throughout there is no code in front of the tag. Yet the mark of
the tag need not be the mark that begins the comment. A third slash, a second hash or a few
words in front of the tag are text in front of its mark, and the tag is taken for one that
trails code.
-/

import LineGuard.Language.Builtin
import LineGuard.Proofs.Line.Kind
import LineGuard.Proofs.Tag.Scan
import LineGuard.Scope.Resolver

namespace LineGuard

/-! ## What stands in front of a tag -/

/-- The first visible character lies right behind a lead exactly when the lead is blank. -/
theorem Text.firstVisible?_append_eq_some_iff {lead t : Text} {c : Char} (hc : t.head? = some c)
    (hvisible : isBlank c = false) :
    firstVisible? (lead ++ t) = some (byteLength lead) ↔ ∀ d ∈ lead, isBlank d = true := by
  induction lead with
  | nil =>
    obtain ⟨rest, rfl⟩ := List.head?_eq_some_iff.mp hc
    simp [firstVisible?, hvisible]
  | cons d lead ih =>
    rw [List.cons_append, firstVisible?, byteLength_cons, List.forall_mem_cons, ← ih]
    by_cases hblank : isBlank d = true
    · rw [if_pos hblank]
      constructor
      · intro h
        obtain ⟨column, hcolumn, hsum⟩ := Option.map_eq_some_iff.mp h
        exact ⟨hblank, hcolumn.trans (congrArg some (Nat.add_left_cancel hsum))⟩
      · rintro ⟨-, h⟩
        rw [h, Option.map_some]
    · rw [if_neg hblank]
      constructor
      · intro h
        have hsize := d.utf8Size_pos
        have hzero := Option.some.inj h
        omega
      · exact fun h => absurd h.1 hblank

/-- The mark of a tag is visible. -/
theorem Tag.Reads.exists_head? {t : Text} {tag : Tag} (h : Reads t tag) :
    ∃ c, t.head? = some c ∧ Text.isBlank c = false := by
  obtain ⟨candidate, left, hread, -⟩ := reads_iff.mp h
  cases t with
  | nil => cases hread
  | cons c rest =>
    refine ⟨c, rfl, ?_⟩
    by_contra hblank
    rw [readCandidate?_cons_of_isBlank (by simpa using hblank)] at hread
    cases hread

/-- There is something in front of a tag unless its mark is the first thing to be seen. -/
theorem Document.hasCodeBefore_iff {d : Document} {tag : Tag} (htag : tag ∈ d.tags) :
    d.hasCodeBefore tag.line tag.column = true ↔ d.firstVisible? tag.line ≠ some tag.column := by
  obtain ⟨before, t, hline, hreads, hcolumn⟩ := exists_reads_of_mem_tags htag
  obtain ⟨c, hc, hvisible⟩ := hreads.exists_head?
  rw [hasCodeBefore, firstVisible?, hline, hcolumn, Text.takeBytes?_append, ne_eq,
    Text.firstVisible?_append_eq_some_iff hc hvisible]
  simp

/-! ## How a tag is treated -/

/-- A tag that names a signature. -/
def Tag.NamesSignature (tag : Tag) : Prop :=
  ∃ added removed, tag.reach = .construct .signature added removed

namespace Resolver

variable {Node : Type} [DecidableEq Node]

/-- A tag is treated as standing on a line of its own. -/
structure TakesAlone (r : Resolver Node) (d : Document) (tag : Tag) : Prop where
  origin_ne : (r.resolve d tag).origin ≠ .inlineSignature
  searchStart_eq : ∀ keyword added removed,
    (r.query d tag keyword added removed).searchStart = tag.line + 1

/-- A tag is treated as standing behind code. -/
structure TakesInline (r : Resolver Node) (d : Document) (tag : Tag) : Prop where
  origin_iff : (r.resolve d tag).origin = .inlineSignature ↔ tag.NamesSignature
  searchStart_eq : ∀ keyword added removed,
    (r.query d tag keyword added removed).searchStart = tag.line

variable {r : Resolver Node} {d : Document} {tag : Tag}

theorem origin_ne_inlineSignature_of_place? {q : Query} {span : Span} {origin : ScopeOrigin}
    (h : r.place? q = some (span, origin)) : origin ≠ .inlineSignature := by
  rw [place?, Option.or_eq_some_iff] at h
  rintro rfl
  rcases h with h | ⟨-, h⟩
  · obtain ⟨found, -, heq⟩ := Option.map_eq_some_iff.mp h
    cases heq
  · obtain ⟨found, -, heq⟩ := Option.map_eq_some_iff.mp h
    cases heq

theorem origin_constructScope_iff {q : Query} :
    (r.constructScope q).origin = .inlineSignature ↔
      q.isInline = true ∧ q.keyword = .signature := by
  rw [constructScope]
  split
  · next hinline =>
    rw [Bool.and_eq_true, beq_iff_eq] at hinline
    exact ⟨fun _ => hinline, fun _ => rfl⟩
  · next hnot =>
    rw [Bool.and_eq_true, beq_iff_eq] at hnot
    refine ⟨fun h => ?_, fun h => absurd h hnot⟩
    cases hplace : r.place? q with
    | none =>
      rw [hplace] at h
      cases h
    | some placed =>
      rw [hplace] at h
      exact absurd h (origin_ne_inlineSignature_of_place? hplace)

/-- Just a signature tag that trails code governs the line it stands on for that. -/
theorem origin_resolve_iff :
    (r.resolve d tag).origin = .inlineSignature ↔
      d.hasCodeBefore tag.line tag.column = true ∧ tag.NamesSignature := by
  rw [resolve]
  cases hreach : tag.reach with
  | unbounded | lines =>
    refine ⟨fun h => (nomatch h), ?_⟩
    rintro ⟨-, added, removed, hsignature⟩
    cases hreach.symm.trans hsignature
  | construct keyword added removed =>
    refine origin_constructScope_iff.trans (and_congr_right' ?_)
    constructor
    · rintro rfl
      exact ⟨added, removed, hreach⟩
    · rintro ⟨added', removed', hsignature⟩
      exact (Reach.construct.inj (hreach.symm.trans hsignature)).1

/-- On a line that is comment throughout, a tag whose mark begins the comment is treated as
standing on a line of its own, and every other tag as trailing code, of which the line has
none. -/
theorem takesAlone_or_takesInline_of_isLineComment (r : Resolver Node) (d : Document) :
    ∀ tag ∈ d.tags, d.IsLineComment tag.line →
      d.kind tag.line = .comment ∧
        (d.firstVisible? tag.line = some tag.column → r.TakesAlone d tag) ∧
        (d.firstVisible? tag.line ≠ some tag.column → r.TakesInline d tag) := by
  intro tag htag hcomment
  refine ⟨hcomment.kind_eq, fun hfirst => ?_, fun hbehind => ?_⟩
  · have hcode : ¬ d.hasCodeBefore tag.line tag.column = true := by
      rw [Document.hasCodeBefore_iff htag]
      exact not_not.mpr hfirst
    constructor
    case origin_ne =>
      rw [ne_eq, origin_resolve_iff]
      exact fun h => hcode h.1
    case searchStart_eq =>
      intro keyword added removed
      rw [searchStart_query, if_neg hcode]
  · have hcode := (Document.hasCodeBefore_iff htag).mpr hbehind
    constructor
    case origin_iff => rw [origin_resolve_iff, and_iff_right hcode]
    case searchStart_eq =>
      intro keyword added removed
      rw [searchStart_query, if_pos hcode]

/-- The builtin table, with nothing but the text to go by. -/
def byText : Resolver Nat := ⟨.builtin, none, true, standardWindow⟩

/-- A comment of two slashes and one of three, each with a tag for a signature. -/
def docComment : Document :=
  .ofText "  // @guard:ai:n.sig\nfn f() \x7b\n\x7d\n/// @guard:ai:r.sig\nfn g() \x7b\n\x7d\n".toList
    (some "rust".toList)

def plainTag : Tag := ⟨0, 2, .ai, none, .deny, .construct .signature [] []⟩

/-- Its mark begins with the second slash. -/
def docCommentTag : Tag := ⟨3, 1, .ai, none, .read, .construct .signature [] []⟩

theorem docCommentTag_mem_tags : docCommentTag ∈ docComment.tags := by decide +kernel

theorem isLineComment_docComment : docComment.IsLineComment 3 :=
  ⟨by decide +kernel, by decide +kernel⟩

theorem takesAlone_and_takesInline_docComment :
    (plainTag ∈ docComment.tags ∧ docComment.IsLineComment 0 ∧
      byText.TakesAlone docComment plainTag) ∧
    (docCommentTag ∈ docComment.tags ∧ docComment.IsLineComment 3 ∧
      byText.TakesInline docComment docCommentTag) := by
  have hplain : plainTag ∈ docComment.tags := by decide +kernel
  have hline : docComment.IsLineComment 0 := ⟨by decide +kernel, by decide +kernel⟩
  have htwo := takesAlone_or_takesInline_of_isLineComment byText docComment _ hplain hline
  have hthree := takesAlone_or_takesInline_of_isLineComment byText docComment _
    docCommentTag_mem_tags isLineComment_docComment
  exact ⟨⟨hplain, hline, htwo.2.1 (by decide +kernel)⟩, docCommentTag_mem_tags,
    isLineComment_docComment, hthree.2.2 (by decide +kernel)⟩

/-- A doc comment holds no code, and yet a signature tag in it governs its own line only. -/
theorem origin_resolve_docComment :
    docCommentTag ∈ docComment.tags ∧ docComment.IsLineComment docCommentTag.line ∧
      byText.resolve docComment docCommentTag = ⟨3, 3, some 3, .inlineSignature⟩ ∧
      (byText.query docComment docCommentTag .function [] []).searchStart = 3 :=
  ⟨docCommentTag_mem_tags, isLineComment_docComment, by decide +kernel, by decide +kernel⟩

end Resolver

end LineGuard
