/-
# Splitting at blanks

Splitting a text at its blanks gives its words, and it does not matter how many blanks stand
between two words or around them. So a text can be cut at any blank, and a text that is set in
a column, with blanks filled in on either side or trimmed off its end, has the words it had.
-/

import LineGuard.Proofs.Text.Run

namespace LineGuard.Text

variable {c : Char} {t : Text}

/-- A text that is one word. -/
structure IsWord (t : Text) : Prop where
  ne_nil : t ≠ []
  visible : ∀ c ∈ t, isBlank c = false

theorem splitAt_eq_splitOnP (p : Char → Bool) (t : Text) : splitAt p t = t.splitOnP p := by
  induction t with
  | nil => rfl
  | cons c rest ih =>
    rw [List.splitOnP_cons_eq_if_modifyHead, splitAt, ih]
    split
    · rfl
    · cases hpieces : rest.splitOnP p with
      | nil => exact absurd hpieces (List.splitOnP_ne_nil p rest)
      | cons piece pieces => rfl

theorem IsWord.notMem (h : IsWord t) (hc : isBlank c = true) : c ∉ t := by
  intro hmem
  rw [h.visible c hmem] at hc
  cases hc

/-- A numeral is one word. -/
theorem isWord_numeral (n : Nat) : IsWord (numeral n) where
  ne_nil := Nat.toDigits_ne_nil
  visible c hc := by
    have hdigit := isAsciiDigit_of_mem_numeral hc
    rw [isAsciiDigit, Bool.and_eq_true, decide_eq_true_eq, decide_eq_true_eq, Char.le_def,
      Char.le_def] at hdigit
    have hlow : 48 ≤ c.toNat := hdigit.1
    have hhigh : c.toNat ≤ 57 := hdigit.2
    simp only [isBlank, Bool.or_eq_false_iff, Bool.and_eq_false_iff, decide_eq_false_iff_not,
      beq_eq_false_iff_ne]
    omega

/-- A blank divides the words in front of it from those behind it. -/
theorem words_append_cons (hc : isBlank c = true) (s t : Text) :
    words (s ++ c :: t) = words s ++ words t := by
  rw [words, splitAt_eq_splitOnP, List.splitOnP_append_cons s t hc, List.filter_append,
    ← splitAt_eq_splitOnP, ← splitAt_eq_splitOnP]
  rfl

theorem words_nil : words [] = [] := rfl

theorem IsWord.words_eq (h : IsWord t) : words t = [t] := by
  have hkept : ([t] : List Text).filter (!·.isEmpty) = [t] :=
    List.filter_eq_self.mpr fun piece hpiece => by
      simpa [List.mem_singleton.mp hpiece] using h.ne_nil
  rw [words, splitAt_eq_splitOnP, List.splitOnP_eq_singleton h.visible, hkept]

theorem words_append_of_isBlank {blanks : Text} (h : ∀ c ∈ blanks, isBlank c = true) (t : Text) :
    words (t ++ blanks) = words t := by
  induction blanks generalizing t with
  | nil => rw [List.append_nil]
  | cons c rest ih =>
    obtain ⟨hc, hrest⟩ := List.forall_mem_cons.mp h
    have hnone := ih hrest []
    rw [List.nil_append] at hnone
    rw [words_append_cons hc, hnone, words_nil, List.append_nil]

theorem words_of_isBlank_append {blanks : Text} (h : ∀ c ∈ blanks, isBlank c = true) (t : Text) :
    words (blanks ++ t) = words t := by
  induction blanks with
  | nil => rfl
  | cons c rest ih =>
    obtain ⟨hc, hrest⟩ := List.forall_mem_cons.mp h
    rw [← ih hrest]
    exact words_append_cons hc [] (rest ++ t)

theorem words_trimEnd (t : Text) : words (trimEnd t) = words t := by
  obtain ⟨blanks, hblanks, heq⟩ := exists_eq_trimEnd_append t
  rw [← words_append_of_isBlank hblanks, ← heq]

theorem isBlank_of_mem_replicate {n : Nat} (h : c ∈ List.replicate n ' ') : isBlank c = true := by
  rw [List.eq_of_mem_replicate h]
  rfl

theorem words_padLeft (width : Nat) (t : Text) : words (padLeft width t) = words t :=
  words_of_isBlank_append (fun _ => isBlank_of_mem_replicate) t

theorem words_padRight (width : Nat) (t : Text) : words (padRight width t) = words t :=
  words_append_of_isBlank (fun _ => isBlank_of_mem_replicate) t

end LineGuard.Text
