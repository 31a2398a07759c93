/-
# Which lines carry a tag

On a line with a single at sign there is one place where the words of a tag can be, and
the grammar settles what they say. What is left open is the mark: a comment mark may end
in another one, as `<!--` ends in `--`, and then the line can be read in two ways. They
differ in the column alone, and the search takes the one further left.

So such a line has a tag exactly when it can be read as one, and the tag is what was
read.
-/

import LineGuard.Proofs.Tag.Scan

namespace LineGuard.Tag

variable {text before other t t' left : Text} {line : Nat} {tag tag' : Tag} {candidate : Candidate}

/-- A line reads as a tag whose mark stands behind `before`. -/
structure ReadsAt (text before : Text) (line : Nat) (tag : Tag) : Prop where
  reads : ∃ t, text = before ++ t ∧ Reads t tag
  line_eq : tag.line = line
  column_eq : tag.column = Text.byteLength before

/-! ## One at sign -/

/-- What stands behind the only at sign does not depend on how the text is cut. -/
theorem eq_of_append_cons_at {front front' more more' : Text} (hcount : text.count '@' = 1)
    (h : text = front ++ '@' :: more) (h' : text = front' ++ '@' :: more') : more = more' := by
  have hnone : ∀ {front more : Text}, text = front ++ '@' :: more → '@' ∉ front ∧ '@' ∉ more := by
    intro front more happend
    rw [happend, List.count_append, List.count_cons_self] at hcount
    exact ⟨List.count_eq_zero.mp (by omega), List.count_eq_zero.mp (by omega)⟩
  have heq : front' ++ '@' :: more' = front ++ '@' :: more := h'.symm.trans h
  obtain ⟨_, _, rfl⟩ :=
    (List.append_cons_inj_of_notMem (hnone h').1 (hnone h').2).mp heq
  rfl

/-- Wherever a match begins on such a line, it grants the same. -/
theorem Opens.unique_of_count {target target' : Target} {bracketed bracketed' : Option Text}
    {permission permission' : Permission} {behind behind' : Text} (hcount : text.count '@' = 1)
    (htext : text = before ++ t) (h : Opens t target bracketed permission behind)
    (htext' : text = other ++ t') (h' : Opens t' target' bracketed' permission' behind') :
    target = target' ∧ bracketed = bracketed' ∧ permission = permission' ∧ behind = behind' := by
  obtain ⟨mark, _, blanks, words, rfl, _, hgrants⟩ := h
  obtain ⟨mark', _, blanks', words', rfl, _, hgrants'⟩ := h'
  obtain ⟨more, rfl⟩ := hgrants.exists_eq_cons
  obtain ⟨more', rfl⟩ := hgrants'.exists_eq_cons
  have hfront : text = before ++ (mark ++ blanks) ++ '@' :: (more ++ behind) := by
    rw [htext]
    simp only [List.append_assoc]
  have hfront' : text = other ++ (mark' ++ blanks') ++ '@' :: (more' ++ behind') := by
    rw [htext']
    simp only [List.append_assoc]
  rw [eq_of_append_cons_at hcount hfront hfront'] at hgrants
  exact hgrants.unique hgrants'

/-- A tag that can be read in one place can be read wherever a match begins. -/
theorem Reads.of_match (hcount : text.count '@' = 1) (htext : text = before ++ t)
    (hmatch : readCandidate? t = some (candidate, left)) (htext' : text = other ++ t')
    (h : Reads t' tag) : Reads t tag := by
  obtain ⟨bracketed, behind, hopens, hidentifier, hreaches⟩ := h
  obtain ⟨_, _, _, hmatched, _⟩ := readCandidate?_eq_some_iff.mp hmatch
  obtain ⟨htarget, hbracketed, hpermission, rfl⟩ :=
    hmatched.unique_of_count hcount htext htext' hopens
  rw [htarget, hbracketed, hpermission] at hmatched
  exact ⟨bracketed, _, hmatched, hidentifier, hreaches⟩

/-- Two ways to read such a line as a tag differ in the column alone. -/
theorem ReadsAt.eq_of_count (hcount : text.count '@' = 1) (h : ReadsAt text before line tag)
    (h' : ReadsAt text other line tag') : tag' = { tag with column := tag'.column } := by
  obtain ⟨⟨t, htext, hreads⟩, hline, _⟩ := h
  obtain ⟨⟨t', htext', hreads'⟩, hline', _⟩ := h'
  obtain ⟨c, left, hread, _⟩ := reads_iff.mp hreads'
  have hthere : Reads t' { tag with column := tag'.column } :=
    hreads.of_match hcount htext' hread htext
  exact hreads'.eq hthere (hline'.trans hline.symm) rfl

/-! ## The first match -/

/-- The first match makes sense exactly when a tag can be read at its place. -/
theorem FirstMatch.tag?_eq_some_iff (h : FirstMatch text before candidate left) :
    candidate.tag? line (Text.byteLength before) = some tag ↔ ReadsAt text before line tag := by
  obtain ⟨t, rfl, hread⟩ := h.isMatch
  constructor
  · intro htag
    obtain ⟨rfl, hcolumn, -⟩ := Candidate.tag?_eq_some_iff.mp htag
    rw [← hcolumn] at htag
    exact ⟨⟨t, rfl, reads_iff.mpr ⟨candidate, left, hread, htag⟩⟩, rfl, hcolumn⟩
  · rintro ⟨⟨t', htext, hreads⟩, rfl, hcolumn⟩
    obtain rfl := List.append_cancel_left htext
    obtain ⟨c, left', hread', htag⟩ := reads_iff.mp hreads
    obtain ⟨rfl, -⟩ := Prod.mk.inj (Option.some.inj (hread.symm.trans hread'))
    rw [← hcolumn]
    exact htag

/-- Whatever can be read on such a line can be read at the first match. -/
theorem FirstMatch.readsAt (hcount : text.count '@' = 1)
    (h : FirstMatch text before candidate left) (hreads : ReadsAt text other line tag) :
    before.length ≤ other.length ∧
      ReadsAt text before line { tag with column := Text.byteLength before } := by
  obtain ⟨⟨t', htext', hreads'⟩, hline, _⟩ := hreads
  obtain ⟨t, htext, hread⟩ := h.isMatch
  obtain ⟨c, left', hread', _⟩ := reads_iff.mp hreads'
  have hthere : Reads t { tag with column := Text.byteLength before } :=
    hreads'.of_match hcount htext hread htext'
  exact ⟨h.leftmost other t' htext' (by rw [hread']; rfl), ⟨t, htext, hthere⟩, hline, rfl⟩

/-- On such a line the first match is the only one. -/
theorem parse?_of_count (hcount : text.count '@' = 1) (line : Nat) :
    (parse? text line = none ∧ ∀ before tag, ¬ ReadsAt text before line tag) ∨
      ∃ before candidate left, FirstMatch text before candidate left ∧
        parse? text line = candidate.tag? line (Text.byteLength before) := by
  rcases (scan_candidatesFrom 0 text).cases_firstMatch with
    ⟨hfound, hnowhere⟩ | ⟨before, candidate, left, start, others, hfirst, hfound, hothers⟩
  · refine .inl ⟨by rw [parse?, hfound]; rfl, ?_⟩
    intro before tag hreads
    obtain ⟨t, htext, ht⟩ := hreads.reads
    obtain ⟨c, left, hread, _⟩ := reads_iff.mp ht
    rw [hnowhere before t htext] at hread
    cases hread
  · refine .inr ⟨before, candidate, left, hfirst, ?_⟩
    obtain ⟨rest, rfl, hread⟩ := hfirst.isMatch
    obtain ⟨piece, rfl, hat⟩ := exists_eq_append_of_readCandidate? hread
    have hleft : '@' ∉ left := by
      have hpiece := List.count_pos_iff.mpr hat
      rw [List.count_append, List.count_append] at hcount
      exact List.count_eq_zero.mp (by omega)
    rw [parse?, hfound, hothers.eq_nil_of_notMem hleft, List.findSome?_singleton, Nat.zero_add]

/-! ## The tag of a line -/

/-- A line with a single at sign has a tag exactly when it can be read as one. The tag is
then what was read, whichever way that was done, and its column cuts the line in front of
the mark furthest left. -/
theorem parse?_iff_readsAt (text : Text) (line : Nat) (hcount : text.count '@' = 1) :
    ((parse? text line).isSome ↔ ∃ before tag, ReadsAt text before line tag) ∧
      ∀ tag, parse? text line = some tag ↔ ∃ before, ReadsAt text before line tag ∧
        Text.takeBytes? tag.column text = some before ∧
        ∀ other tag', ReadsAt text other line tag' →
          before.length ≤ other.length ∧ tag' = { tag with column := tag'.column } := by
  rcases parse?_of_count hcount line with ⟨hparse, hnone⟩ | ⟨before, c, left, hfirst, hparse⟩
  · rw [hparse]
    constructor
    · refine ⟨fun h => (nomatch h), ?_⟩
      rintro ⟨before, tag, hreads⟩
      exact absurd hreads (hnone before tag)
    · refine fun tag => ⟨fun h => (nomatch h), ?_⟩
      rintro ⟨before, hreads, _⟩
      exact absurd hreads (hnone before tag)
  · rw [hparse]
    constructor
    · constructor
      · intro h
        obtain ⟨tag, htag⟩ := Option.isSome_iff_exists.mp h
        exact ⟨before, tag, hfirst.tag?_eq_some_iff.mp htag⟩
      · rintro ⟨other, tag, hreads⟩
        rw [hfirst.tag?_eq_some_iff.mpr (hfirst.readsAt hcount hreads).2]
        rfl
    · intro tag
      constructor
      · intro h
        have hreads := hfirst.tag?_eq_some_iff.mp h
        refine ⟨before, hreads, ?_, fun other tag' hother => ?_⟩
        · obtain ⟨t, rfl, _⟩ := hreads.reads
          rw [hreads.column_eq]
          exact Text.takeBytes?_append before t
        · exact ⟨(hfirst.readsAt hcount hother).1, hreads.eq_of_count hcount hother⟩
      · rintro ⟨other, hreads, _, hleftmost⟩
        obtain ⟨hle, hthere⟩ := hfirst.readsAt hcount hreads
        -- Both places are furthest left, so they are one.
        have hlength := Nat.le_antisymm hle (hleftmost before _ hthere).1
        obtain ⟨t, htext, _⟩ := hreads.reads
        obtain ⟨t', htext', _⟩ := hfirst.isMatch
        obtain rfl : before = other := List.append_inj_left (htext'.symm.trans htext) hlength
        exact hfirst.tag?_eq_some_iff.mpr hreads

/-- A line whose mark ends in another mark, with words in mixed case. -/
def mixedLine : Text := "x <!-- @GUARD:Human[ a ]:R.Func+Impl-If tail".toList

def mixedTag : Tag :=
  { line := 3, column := 2, target := .human, identifier := some "a".toList, permission := .read
    reach := .construct .function ["impl".toList] ["if".toList] }

theorem parse?_iff_readsAt_mixedLine :
    mixedLine.count '@' = 1 ∧ parse? mixedLine 3 = some mixedTag ∧
      ∃ before, ReadsAt mixedLine before 3 mixedTag ∧
        Text.takeBytes? mixedTag.column mixedLine = some before ∧
        ∀ other tag', ReadsAt mixedLine other 3 tag' →
          before.length ≤ other.length ∧ tag' = { mixedTag with column := tag'.column } := by
  have hcount : mixedLine.count '@' = 1 := by decide
  have hparse : parse? mixedLine 3 = some mixedTag := by decide +kernel
  exact ⟨hcount, hparse, ((parse?_iff_readsAt mixedLine 3 hcount).2 mixedTag).mp hparse⟩

end LineGuard.Tag
