/-
# Spelling a tag out and reading it again

A well-formed tag is one a text can hold: its identifier fits in brackets and has no
blanks to lose at either end, its count fits a machine word, and its modifiers are
words in lower case. Reading gives nothing but well-formed tags, and every well-formed
tag that is spelled out behind a mark is read back, wherever it is put.

Nothing behind a spelled tag may be taken for a part of it. A blank is enough, because no
part of a tag but the identifier, which its bracket closes, goes over a blank.
-/

import LineGuard.Proofs.Tag.Scan

namespace LineGuard.Tag

variable {t rest tail text : Text} {tag : Tag}

/-! ## Well-formed tags -/

/-- A letter that lower case leaves alone. -/
def isSmallLetter (c : Char) : Bool := c.isLower || c == '\u017F' || c == '\u212A'

/-- A modifier as it is kept: a word of small letters. -/
def IsModifier (word : Text) : Prop := word ≠ [] ∧ ∀ c ∈ word, isSmallLetter c = true

/-- An identifier as it is kept: something that fits in brackets, without blanks at
either end. -/
structure IsIdentifier (identifier : Text) : Prop where
  ne_nil : identifier ≠ []
  first : ∀ c, identifier.head? = some c → Text.isBlank c = false
  last : ∀ c, identifier.getLast? = some c → Text.isBlank c = false
  closed : ']' ∉ identifier

/-- A reach that a tag can spell. -/
inductive IsSpellable : Reach → Prop
  | unbounded : IsSpellable .unbounded
  | lines {count : Nat} (fits : count < Nat.pow 2 64) : IsSpellable (.lines count)
  | construct {keyword : Construct.Keyword} {added removed : List Text}
      (isModifier : ∀ word ∈ added ++ removed, IsModifier word) :
      IsSpellable (.construct keyword added removed)

/-- A tag that a text can hold. -/
structure WellFormed (tag : Tag) : Prop where
  identifier : ∀ identifier, tag.identifier = some identifier → IsIdentifier identifier
  reach : IsSpellable tag.reach

/-! ## What is read is well formed -/

theorem isSmallLetter_toLower {c : Char} (h : isLetter c = true) :
    isSmallLetter c.toLower = true := by
  simp only [isLetter, Bool.or_eq_true, beq_iff_eq, Text.isAlpha_iff] at h
  rcases h with ((hupper | hlower) | rfl) | rfl
  · rw [isSmallLetter, Text.isLower_toLower_of_isUpper hupper]
    rfl
  · rw [Text.toLower_of_isLower hlower, isSmallLetter, hlower]
    rfl
  · decide
  · decide

theorem Modifiers.isModifier_lower {mark : Char} {words : List Text}
    (h : Modifiers mark t words rest) : ∀ word ∈ words.map Text.lower, IsModifier word := by
  induction h with
  | done => exact fun word hmem => nomatch hmem
  | @more word tail rest words hrun _ ih =>
    intro other hmem
    rcases List.mem_cons.mp hmem with rfl | hmem
    · refine ⟨mt List.map_eq_nil_iff.mp hrun.ne_nil, ?_⟩
      intro c hc
      obtain ⟨d, hd, rfl⟩ := List.mem_map.mp hc
      exact isSmallLetter_toLower (hrun.mem d hd)
    · exact ih other hmem

theorem Reaches.isSpellable {reach : Reach} (h : Reaches t reach) : IsSpellable reach := by
  cases h with
  | unbounded => exact .unbounded
  | lines _ _ hfits => exact .lines hfits
  | construct _ _ hadded hremoved =>
    refine .construct fun word hmem => ?_
    rcases List.mem_append.mp hmem with hmem | hmem
    · exact hadded.isModifier_lower word hmem
    · exact hremoved.isModifier_lower word hmem

theorem Reads.wellFormed (h : Reads t tag) : tag.WellFormed := by
  obtain ⟨bracketed, behind, ⟨_, _, _, _, _, _, hgrants⟩, hidentifier, hreaches⟩ := h
  refine ⟨fun identifier heq => ?_, hreaches.isSpellable⟩
  rw [heq] at hidentifier
  obtain ⟨hmap, hne⟩ := Option.filter_eq_some_iff.mp hidentifier.symm
  obtain ⟨raw, rfl, rfl⟩ := Option.map_eq_some_iff.mp hmap
  obtain ⟨_, _, hbracketed, _⟩ := hgrants
  exact ⟨by simpa using hne, Text.stops_trim raw, Text.not_isBlank_of_getLast?_trim raw,
    fun hmem => (hbracketed raw rfl).2 (Text.mem_of_mem_trim hmem)⟩

/-! ## What is spelled is read -/

/-- The blanks one by one. -/
def blanks : List Char :=
  [0x9, 0xA, 0xB, 0xC, 0xD, 0x20, 0x85, 0xA0, 0x1680, 0x2000, 0x2001, 0x2002, 0x2003, 0x2004,
    0x2005, 0x2006, 0x2007, 0x2008, 0x2009, 0x200A, 0x2028, 0x2029, 0x202F, 0x205F,
    0x3000].map Char.ofNat

theorem mem_blanks {c : Char} (h : Text.isBlank c = true) : c ∈ blanks := by
  refine List.mem_map.mpr ⟨c.toNat, ?_, c.ofNat_toNat⟩
  simp only [Text.isBlank, Bool.or_eq_true, Bool.and_eq_true, decide_eq_true_eq, beq_iff_eq] at h
  simp only [List.mem_cons, List.not_mem_nil, or_false]
  omega

/-- The text is over, or a blank comes next. -/
def Over (t : Text) : Prop := ∀ c, t.head? = some c → Text.isBlank c = true

/-- What no blank belongs to does not go on when the text is over. -/
theorem Over.stops {p : Char → Bool} (h : Over t) (hp : blanks.all (!p ·) = true) :
    Text.Stops p t := by
  intro c hc
  have hnot := List.all_eq_true.mp hp c (mem_blanks (h c hc))
  simpa using hnot

theorem stops_flatMap {p : Char → Bool} {mark : Char} (hmark : p mark = false)
    (hrest : Text.Stops p rest) (words : List Text) :
    Text.Stops p (words.flatMap (mark :: ·) ++ rest) := by
  cases words with
  | nil => exact hrest
  | cons word words => exact Text.stops_cons.mpr hmark

/-- Words behind marks are read back if neither a letter nor another mark follows. -/
theorem modifiers_flatMap {mark : Char} {words : List Text} (hmark : isLetter mark = false)
    (hwords : ∀ word ∈ words, word ≠ [] ∧ ∀ c ∈ word, isLetter c = true)
    (hletters : Text.Stops isLetter rest) (hmore : Text.Stops (· == mark) rest) :
    Modifiers mark (words.flatMap (mark :: ·) ++ rest) words rest := by
  induction words with
  | nil =>
    refine .done fun other heq => ?_
    rw [List.flatMap_nil, List.nil_append] at heq
    rw [heq, Text.stops_cons] at hmore
    simp at hmore
  | cons word words ih =>
    obtain ⟨hne, hmem⟩ := hwords word List.mem_cons_self
    have hshape : (word :: words).flatMap (mark :: ·) ++ rest =
        mark :: (word ++ (words.flatMap (mark :: ·) ++ rest)) := by simp
    rw [hshape]
    exact .more ⟨hne, hmem, stops_flatMap hmark hletters words⟩
      (ih fun other hother => hwords other (List.mem_cons_of_mem _ hother))

theorem isLetter_of_isSmallLetter {c : Char} (h : isSmallLetter c = true) : isLetter c = true := by
  simp only [isSmallLetter, Bool.or_eq_true] at h
  simp only [isLetter, Bool.or_eq_true, Text.isAlpha_iff]
  tauto

theorem toLower_of_isSmallLetter {c : Char} (h : isSmallLetter c = true) : c.toLower = c := by
  simp only [isSmallLetter, Bool.or_eq_true, beq_iff_eq] at h
  rcases h with (hlower | rfl) | rfl
  · exact Text.toLower_of_isLower hlower
  · decide
  · decide

theorem lower_of_isModifier {word : Text} (h : IsModifier word) : Text.lower word = word := by
  rw [Text.lower, List.map_congr_left fun c hc => toLower_of_isSmallLetter (h.2 c hc), List.map_id']

theorem map_lower_of_isModifier {words : List Text} (h : ∀ word ∈ words, IsModifier word) :
    words.map Text.lower = words := by
  rw [List.map_congr_left fun word hword => lower_of_isModifier (h word hword), List.map_id']

theorem isLetter_of_mem_name (keyword : Construct.Keyword) :
    ∀ c ∈ keyword.name, isLetter c = true := by
  rw [← List.all_eq_true]
  cases keyword <;> decide

/-- A tag spells its reach behind a dot, and an unbounded one not at all. -/
def suffixOf : Reach → Text
  | .unbounded => []
  | reach => '.' :: reach.text

theorem reaches_suffixOf {reach : Reach} (h : IsSpellable reach) (htail : Over tail) :
    Reaches (suffixOf reach ++ tail) reach := by
  cases h with
  | unbounded =>
    refine .unbounded fun other heq => ?_
    -- A blank is no dot.
    have hdot := htail.stops (p := (· == '.')) (by decide)
    rw [show tail = '.' :: other from heq, Text.stops_cons] at hdot
    cases hdot
  | @lines count hfits =>
    have hrun : Text.IsRun Text.isDecimalDigit (Text.numeral count) tail :=
      ⟨Nat.toDigits_ne_nil, fun c hc =>
        Text.isDecimalDigit_of_isAsciiDigit (Text.isAsciiDigit_of_mem_numeral hc),
        htail.stops (by decide)⟩
    have := Reaches.lines hrun (fun c hc => Text.isAsciiDigit_of_mem_numeral hc)
      (by rwa [Text.numberOf_numeral])
    rwa [Text.numberOf_numeral] at this
  | @construct keyword added removed hmodifiers =>
    have hadded : ∀ word ∈ added, IsModifier word := fun word hmem =>
      hmodifiers word (List.mem_append_left _ hmem)
    have hremoved : ∀ word ∈ removed, IsModifier word := fun word hmem =>
      hmodifiers word (List.mem_append_right _ hmem)
    have hletters : ∀ word, IsModifier word → word ≠ [] ∧ ∀ c ∈ word, isLetter c = true :=
      fun word hword => ⟨hword.1, fun c hc => isLetter_of_isSmallLetter (hword.2 c hc)⟩
    have hover : Text.Stops isLetter tail := htail.stops (by decide)
    have hminus : Modifiers '-' (removed.flatMap ('-' :: ·) ++ tail) removed tail :=
      modifiers_flatMap (by decide) (fun word hmem => hletters word (hremoved word hmem)) hover
        (htail.stops (by decide))
    have hbehind : Text.Stops isLetter (removed.flatMap ('-' :: ·) ++ tail) :=
      stops_flatMap (by decide) hover removed
    have hplus : Modifiers '+' (added.flatMap ('+' :: ·) ++ (removed.flatMap ('-' :: ·) ++ tail))
        added (removed.flatMap ('-' :: ·) ++ tail) :=
      modifiers_flatMap (by decide) (fun word hmem => hletters word (hadded word hmem)) hbehind
        (stops_flatMap (by decide) (htail.stops (by decide)) removed)
    have hrun : Text.IsRun isLetter keyword.name
        (added.flatMap ('+' :: ·) ++ (removed.flatMap ('-' :: ·) ++ tail)) :=
      ⟨by cases keyword <;> decide, isLetter_of_mem_name keyword,
        stops_flatMap (by decide) hbehind added⟩
    have hword : Text.lower keyword.name = keyword.name := by cases keyword <;> decide
    have := Reaches.construct hrun hword hplus hminus
    rw [map_lower_of_isModifier hadded, map_lower_of_isModifier hremoved] at this
    simpa [suffixOf, Reach.text] using this

theorem spelled_eq (tag : Tag) : tag.spelled =
    "@guard:".toList ++ tag.target.name ++ brackets tag.identifier ++ ':' :: tag.permission.name ++
      suffixOf tag.reach := by
  obtain ⟨line, column, target, identifier, permission, reach⟩ := tag
  cases identifier with
  | none => cases reach <;> rfl
  | some identifier => cases reach <;> rfl

theorem spelled_append (tag : Tag) (tail : Text) : tag.spelled ++ tail =
    "@guard:".toList ++ (tag.target.name ++ (brackets tag.identifier ++
      ':' :: (tag.permission.name ++ (suffixOf tag.reach ++ tail)))) := by
  rw [spelled_eq]
  simp only [List.append_assoc, List.cons_append]

/-- Where a tag can be spelled out on a line: blanks and a mark in front of it, and behind
it nothing or a blank. -/
structure Surrounds (lead mark gap tail : Text) : Prop where
  lead_blank : ∀ c ∈ lead, Text.isBlank c = true
  mark_mem : mark ∈ marks
  gap_blank : ∀ c ∈ gap, Text.isBlank c = true
  tail_over : Over tail

theorem WellFormed.reads {mark gap : Text} (h : tag.WellFormed) (hmark : mark ∈ marks)
    (hgap : ∀ c ∈ gap, Text.isBlank c = true) (htail : Over tail) :
    Reads (mark ++ (gap ++ (tag.spelled ++ tail))) tag := by
  refine ⟨tag.identifier, suffixOf tag.reach ++ tail, ⟨mark, hmark, gap, _, rfl, hgap, ?_⟩, ?_,
    reaches_suffixOf h.reach htail⟩
  · rw [spelled_append]
    refine .intro (by decide) ?_ ?_ ?_
    · cases tag.target <;> decide
    · intro identifier heq
      exact ⟨(h.identifier identifier heq).ne_nil, (h.identifier identifier heq).closed⟩
    · cases tag.permission <;> decide
  · cases hidentifier : tag.identifier with
    | none => rfl
    | some identifier =>
      have hkept := h.identifier identifier hidentifier
      rw [Option.map_some, Text.trim_of_stops hkept.first hkept.last, Option.filter_some, if_pos]
      simpa using hkept.ne_nil

theorem WellFormed.parse?_surrounded {lead mark gap : Text} (h : tag.WellFormed)
    (hsurrounds : Surrounds lead mark gap tail) (line : Nat) :
    parse? (lead ++ mark ++ gap ++ tag.spelled ++ tail) line =
      some { tag with line, column := Text.byteLength lead } := by
  have hreads := h.reads hsurrounds.mark_mem hsurrounds.gap_blank hsurrounds.tail_over
  have := parse?_append_of_isBlank hsurrounds.lead_blank hreads line
  simpa only [List.append_assoc] using this

/-- A well-formed tag is read back from wherever it is spelled out, at the column of its
mark. Reading gives well-formed tags only, so what was read once can be spelled out and
read again without loss. -/
theorem parse?_spelled :
    (∀ tag : Tag, tag.WellFormed → ∀ lead mark gap tail : Text, Surrounds lead mark gap tail →
      ∀ line, parse? (lead ++ mark ++ gap ++ tag.spelled ++ tail) line =
        some { tag with line, column := Text.byteLength lead }) ∧
    ∀ (text : Text) (line : Nat) (tag : Tag), parse? text line = some tag →
      tag.WellFormed ∧ ∀ lead mark gap tail : Text, Surrounds lead mark gap tail →
        parse? (lead ++ mark ++ gap ++ tag.spelled ++ tail) line =
          some { tag with column := Text.byteLength lead } := by
  constructor
  · intro tag hwell lead mark gap tail hsurrounds line
    exact hwell.parse?_surrounded hsurrounds line
  · intro text line tag hparse
    obtain ⟨before, t, rfl, hreads, rfl, -⟩ := exists_reads_of_parse? hparse
    refine ⟨hreads.wellFormed, ?_⟩
    intro lead mark gap tail hsurrounds
    exact hreads.wellFormed.parse?_surrounded hsurrounds tag.line

/-- A tag whose identifier looks like a tag, and whose modifiers hold a long s. -/
def nestedTag : Tag :=
  { line := 0, column := 0, target := .human, identifier := some "x // @guard:ai:w".toList
    permission := .deny
    reach := .construct .classLike ["impl".toList, "cla\u017F".toList] ["if".toList] }

theorem parse?_spelled_nested :
    nestedTag.WellFormed ∧ Surrounds "\t".toList "<!--".toList " ".toList " -->".toList ∧
      parse? ("\t".toList ++ "<!--".toList ++ " ".toList ++ nestedTag.spelled ++ " -->".toList) 7 =
        some { nestedTag with line := 7, column := 1 } ∧
      parse? ([] ++ "#".toList ++ [] ++ nestedTag.spelled ++ []) 7 =
        some { nestedTag with line := 7, column := 0 } := by
  have hwell : nestedTag.WellFormed := by
    have hwords : ∀ word ∈ ["impl".toList, "cla\u017F".toList] ++ ["if".toList],
        word ≠ [] ∧ word.all isSmallLetter = true := by decide
    refine ⟨?_, .construct fun word hmem => ?_⟩
    · rintro identifier ⟨⟩
      refine ⟨by decide, ?_, ?_, by decide⟩
      · rintro c ⟨⟩
        decide
      · rintro c ⟨⟩
        decide
    · exact ⟨(hwords word hmem).1, List.all_eq_true.mp (hwords word hmem).2⟩
  have hhtml : Surrounds "\t".toList "<!--".toList " ".toList " -->".toList := by
    refine ⟨List.all_eq_true.mp (by decide), by decide, List.all_eq_true.mp (by decide), ?_⟩
    rintro c ⟨⟩
    decide
  have hscript : Surrounds [] "#".toList [] [] :=
    ⟨fun c hc => (nomatch hc), by decide, fun c hc => (nomatch hc), fun c hc => nomatch hc⟩
  have hread := parse?_spelled.1 nestedTag hwell _ _ _ _ hhtml 7
  exact ⟨hwell, hhtml, hread, (parse?_spelled.2 _ 7 _ hread).2 _ _ _ _ hscript⟩

end LineGuard.Tag
