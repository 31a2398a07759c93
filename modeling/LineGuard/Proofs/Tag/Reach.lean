/-
# How far a tag reaches

Behind the permission a dot may follow, and behind the dot a word or a count. A word is
a run of letters and a count a run of digits of any script, so the two cannot be
confused, and a dot with neither behind it is not part of the tag.

This is the one place where a match can make no sense: a word that is no keyword, a
count in other digits than those of ASCII, or one that no machine word holds. `Reaches`
says which texts are a reach, and which; modifiers count behind a keyword only.
-/

import LineGuard.Proofs.Text.Run
import LineGuard.Tag.Grammar

namespace LineGuard.Tag

variable {t rest word behind : Text}

/-! ## The shape of a reach -/

/-- Neither a word nor a count follows behind a dot. -/
def NotDotted (t : Text) : Prop :=
  ∀ rest, t = '.' :: rest → Text.Stops isLetter rest ∧ Text.Stops Text.isDecimalDigit rest

/-- Modifiers behind a mark: words, each a run of letters, as many as there are. -/
inductive Modifiers (mark : Char) : Text → List Text → Text → Prop
  | done {t : Text} (stops : ∀ rest, t = mark :: rest → Text.Stops isLetter rest) :
      Modifiers mark t [] t
  | more {word tail rest : Text} {words : List Text} (isRun : Text.IsRun isLetter word tail)
      (others : Modifiers mark tail words rest) :
      Modifiers mark (mark :: (word ++ tail)) (word :: words) rest

/-- How far a tag reaches, by the text behind its permission. A count is all ASCII
digits and fits a machine word; what is neither a count nor a keyword is no reach. -/
inductive Reaches : Text → Reach → Prop
  | unbounded {t : Text} (notDotted : NotDotted t) : Reaches t .unbounded
  | lines {digits rest : Text} (isRun : Text.IsRun Text.isDecimalDigit digits rest)
      (ascii : ∀ c ∈ digits, Text.isAsciiDigit c = true)
      (fits : Text.numberOf digits < Nat.pow 2 64) :
      Reaches ('.' :: (digits ++ rest)) (.lines (Text.numberOf digits))
  | construct {word afterWord afterAdded rest : Text} {keyword : Construct.Keyword}
      {added removed : List Text} (isRun : Text.IsRun isLetter word afterWord)
      (word_eq : Text.lower word = keyword.name)
      (plus : Modifiers '+' afterWord added afterAdded)
      (minus : Modifiers '-' afterAdded removed rest) :
      Reaches ('.' :: (word ++ afterWord))
        (.construct keyword (added.map Text.lower) (removed.map Text.lower))

/-! ## Words and counts are read -/

/-- No letter is a digit of any script. -/
theorem not_isDecimalDigit_of_isLetter {c : Char} (h : isLetter c = true) :
    Text.isDecimalDigit c = false := by
  simp only [isLetter, Bool.or_eq_true, beq_iff_eq] at h
  rcases h with (halpha | rfl) | rfl
  · have hbounds : 58 ≤ c.toNat ∧ c.toNat ≤ 122 := by
      rw [Text.isAlpha_iff, Text.isUpper_iff, Text.isLower_iff] at halpha
      omega
    have hdigit : Text.isAsciiDigit c = false := by
      rw [Text.isAsciiDigit, Bool.and_eq_false_iff]
      refine .inr (decide_eq_false fun hle => ?_)
      have : c.toNat ≤ 57 := hle
      omega
    have hascii : ¬ 0x80 ≤ c.toNat := by omega
    simp [Text.isDecimalDigit, hdigit, hascii]
  · decide
  · decide

theorem readSuffix_of_notDotted (h : NotDotted t) : readSuffix t = (none, t) := by
  unfold readSuffix
  split
  · next rest =>
    obtain ⟨hletters, hdigits⟩ := h rest rfl
    rw [hletters.takeWhile_eq_nil, hdigits.takeWhile_eq_nil]
  · rfl

theorem readSuffix_word (h : Text.IsRun isLetter word rest) :
    readSuffix ('.' :: (word ++ rest)) = (some (.word word), rest) := by
  obtain ⟨c, letters, rfl⟩ := List.exists_cons_of_ne_nil h.ne_nil
  simp only [readSuffix, h.takeWhile_eq, h.dropWhile_eq]

theorem readSuffix_count {digits : Text} (h : Text.IsRun Text.isDecimalDigit digits rest) :
    readSuffix ('.' :: (digits ++ rest)) = (some (.count digits), rest) := by
  obtain ⟨c, more, rfl⟩ := List.exists_cons_of_ne_nil h.ne_nil
  have hletters : Text.Stops isLetter (c :: more ++ rest) := by
    rw [List.cons_append, Text.stops_cons]
    by_contra hletter
    have := not_isDecimalDigit_of_isLetter (by simpa using hletter)
    rw [h.mem c List.mem_cons_self] at this
    cases this
  simp only [readSuffix, hletters.takeWhile_eq_nil, h.takeWhile_eq, h.dropWhile_eq]

/-- Behind the permission there is a word, a count, or neither. -/
theorem suffix_cases (t : Text) : NotDotted t ∨
    (∃ word rest, t = '.' :: (word ++ rest) ∧ Text.IsRun isLetter word rest) ∨
      ∃ digits rest, t = '.' :: (digits ++ rest) ∧ Text.IsRun Text.isDecimalDigit digits rest := by
  by_cases hdot : ∃ inner, t = '.' :: inner
  · obtain ⟨inner, rfl⟩ := hdot
    rcases Text.stops_or_isRun isLetter inner with hletters | ⟨word, rest, rfl, hrun⟩
    · rcases Text.stops_or_isRun Text.isDecimalDigit inner with hdigits | ⟨digits, rest, rfl, hrun⟩
      · refine .inl fun rest heq => ?_
        obtain rfl := (List.cons.inj heq).2
        exact ⟨hletters, hdigits⟩
      · exact .inr (.inr ⟨digits, rest, rfl, hrun⟩)
    · exact .inr (.inl ⟨word, rest, rfl, hrun⟩)
  · exact .inl fun rest heq => absurd ⟨rest, heq⟩ hdot

/-! ## Modifiers are read -/

theorem Modifiers.readModifiers_eq {mark : Char} {words : List Text}
    (h : Modifiers mark t words rest) : readModifiers mark t = (words, rest) := by
  induction h with
  | @done t hstops =>
    cases t with
    | nil => rw [readModifiers]
    | cons c inner =>
      rw [readModifiers]
      by_cases hmark : c = mark
      · subst hmark
        simp [(hstops inner rfl).takeWhile_eq_nil]
      · simp [hmark]
  | @more word tail rest words hrun _ ih =>
    have hne : word.isEmpty = false := by simpa using hrun.ne_nil
    rw [readModifiers]
    simp [hrun.takeWhile_eq, hrun.dropWhile_eq, hne, ih]

theorem exists_modifiers (mark : Char) (t : Text) : ∃ words rest, Modifiers mark t words rest := by
  -- A modifier takes a whole word, so the induction is on the length.
  induction hlength : t.length using Nat.strong_induction_on generalizing t with
  | _ length ih =>
    by_cases hmark : ∃ word tail, t = mark :: (word ++ tail) ∧ Text.IsRun isLetter word tail
    · obtain ⟨word, tail, rfl, hrun⟩ := hmark
      have hshorter : tail.length < length := by
        rw [← hlength, List.length_cons, List.length_append]
        omega
      obtain ⟨words, rest, hothers⟩ := ih tail.length hshorter tail rfl
      exact ⟨word :: words, rest, .more hrun hothers⟩
    · refine ⟨[], t, .done fun rest heq => ?_⟩
      rcases Text.stops_or_isRun isLetter rest with hstops | ⟨word, tail, rfl, hrun⟩
      · exact hstops
      · exact absurd ⟨word, tail, heq, hrun⟩ hmark

theorem modifiers_iff {mark : Char} {words : List Text} :
    Modifiers mark t words rest ↔ readModifiers mark t = (words, rest) := by
  constructor
  · exact fun h => h.readModifiers_eq
  · intro h
    obtain ⟨words', rest', hmodifiers⟩ := exists_modifiers mark t
    obtain ⟨rfl, rfl⟩ := Prod.mk.inj (hmodifiers.readModifiers_eq.symm.trans h)
    exact hmodifiers

/-! ## What is left behind a reach -/

theorem Modifiers.suffix {mark : Char} {words : List Text} (h : Modifiers mark t words rest) :
    rest <:+ t := by
  induction h with
  | done => exact List.suffix_refl _
  | more _ _ ih => exact (ih.trans (List.suffix_append _ _)).trans (List.suffix_cons _ _)

theorem readSuffix_suffix (t : Text) : (readSuffix t).2 <:+ t := by
  rcases suffix_cases t with hdot | ⟨word, rest, rfl, hrun⟩ | ⟨digits, rest, rfl, hrun⟩
  · exact ⟨[], congrArg Prod.snd (readSuffix_of_notDotted hdot)⟩
  · rw [readSuffix_word hrun]
    exact (List.suffix_append _ _).trans (List.suffix_cons _ _)
  · rw [readSuffix_count hrun]
    exact (List.suffix_append _ _).trans (List.suffix_cons _ _)

/-! ## Making sense of a match -/

theorem ofWord?_eq_some_iff {keyword : Construct.Keyword} :
    Construct.Keyword.ofWord? word = some keyword ↔ Text.lower word = keyword.name := by
  constructor
  · intro h
    have hname := List.find?_some h
    exact (beq_iff_eq.mp hname).symm
  · intro h
    unfold Construct.Keyword.ofWord?
    rw [h]
    cases keyword <;> decide

/-- A match makes sense exactly when what stands behind its permission is a reach. -/
theorem reach?_eq_some_iff {c : Candidate} {afterSuffix afterAdded left : Text} {reach : Reach}
    (hsuffix : readSuffix behind = (c.suffix, afterSuffix))
    (hadded : readModifiers '+' afterSuffix = (c.added, afterAdded))
    (hremoved : readModifiers '-' afterAdded = (c.removed, left)) :
    c.reach? = some reach ↔ Reaches behind reach := by
  constructor
  · intro h
    rcases suffix_cases behind with hdot | ⟨word, rest, rfl, hrun⟩ | ⟨digits, rest, rfl, hrun⟩
    · rw [readSuffix_of_notDotted hdot] at hsuffix
      rw [Candidate.reach?, ← (Prod.mk.inj hsuffix).1] at h
      obtain rfl := Option.some.inj h
      exact .unbounded hdot
    · rw [readSuffix_word hrun] at hsuffix
      obtain ⟨hword, rfl⟩ := Prod.mk.inj hsuffix
      rw [Candidate.reach?, ← hword] at h
      obtain ⟨keyword, hkeyword, rfl⟩ := Option.map_eq_some_iff.mp h
      exact .construct hrun (ofWord?_eq_some_iff.mp hkeyword) (modifiers_iff.mpr hadded)
        (modifiers_iff.mpr hremoved)
    · rw [readSuffix_count hrun] at hsuffix
      rw [Candidate.reach?, ← (Prod.mk.inj hsuffix).1] at h
      simp only [Bool.and_eq_true, List.all_eq_true, decide_eq_true_eq] at h
      split_ifs at h with hcount
      obtain rfl := Option.some.inj h
      exact .lines hrun hcount.1 (Nat.lt_of_le_pred (by decide) hcount.2)
  · intro h
    cases h with
    | unbounded hdot =>
      rw [readSuffix_of_notDotted hdot] at hsuffix
      rw [Candidate.reach?, ← (Prod.mk.inj hsuffix).1]
    | lines hrun hascii hfits =>
      rw [readSuffix_count hrun] at hsuffix
      rw [Candidate.reach?, ← (Prod.mk.inj hsuffix).1]
      simp only [Bool.and_eq_true, List.all_eq_true, decide_eq_true_eq]
      exact if_pos ⟨hascii, Nat.le_pred_of_lt hfits⟩
    | construct hrun hword hplus hminus =>
      rw [readSuffix_word hrun] at hsuffix
      obtain ⟨hwordSuffix, rfl⟩ := Prod.mk.inj hsuffix
      obtain ⟨rfl, rfl⟩ := Prod.mk.inj (hplus.readModifiers_eq.symm.trans hadded)
      obtain ⟨hwords, -⟩ := Prod.mk.inj (hminus.readModifiers_eq.symm.trans hremoved)
      rw [Candidate.reach?, ← hwordSuffix, hwords]
      exact Option.map_eq_some_iff.mpr ⟨_, ofWord?_eq_some_iff.mpr hword, rfl⟩

end LineGuard.Tag
