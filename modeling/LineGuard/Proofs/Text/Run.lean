/-
# Runs of characters

Readers take characters of a class as long as there are any. What they take is a run:
it is not empty, it stays in the class, and the text behind it does not go on with the
class. A text has at most one run of a class at its start, so to name the run is as
good as to compute it. A numeral is a run of digits, trimming is described by what it
leaves at either end, and lower case by the letters it changes.
-/

import LineGuard.Text.Basic
import Mathlib.Data.List.TakeWhile

namespace LineGuard.Text

/-- No character of the class comes next. -/
def Stops (p : Char → Bool) (t : Text) : Prop := ∀ c, t.head? = some c → p c = false

/-- All that the class takes of a text, with what is left. -/
structure IsRun (p : Char → Bool) (run rest : Text) : Prop where
  ne_nil : run ≠ []
  mem : ∀ c ∈ run, p c = true
  stops : Stops p rest

variable {p : Char → Bool} {c : Char} {t run rest : Text}

theorem stops_nil : Stops p [] := fun _ h => nomatch h

theorem stops_cons : Stops p (c :: t) ↔ p c = false := by
  simp [Stops]

theorem Stops.mono {q : Char → Bool} (h : Stops p t) (hq : ∀ c, q c = true → p c = true) :
    Stops q t := by
  intro c hc
  by_contra hmem
  rw [Bool.not_eq_false] at hmem
  exact Bool.false_ne_true ((h c hc).symm.trans (hq c hmem))

/-- A text that stops a class stops every piece made of it. -/
theorem Stops.contains {piece : Text} (h : Stops p t) (hpiece : piece.all p = true) :
    Stops piece.contains t :=
  h.mono fun c hc => List.all_eq_true.mp hpiece c (by simpa using hc)

theorem Stops.takeWhile_eq_nil (h : Stops p t) : t.takeWhile p = [] := by
  cases t with
  | nil => rfl
  | cons c rest => exact List.takeWhile_cons_of_neg (by simp [stops_cons.mp h])

theorem takeWhile_append_of_stops (hrun : ∀ c ∈ run, p c = true) (hrest : Stops p rest) :
    (run ++ rest).takeWhile p = run := by
  rw [List.takeWhile_append_of_pos hrun, hrest.takeWhile_eq_nil, List.append_nil]

theorem dropWhile_append_of_stops (hrun : ∀ c ∈ run, p c = true) (hrest : Stops p rest) :
    (run ++ rest).dropWhile p = rest := by
  rw [List.dropWhile_append_of_pos hrun]
  cases rest with
  | nil => rfl
  | cons c rest => exact List.dropWhile_cons_of_neg (by simp [stops_cons.mp hrest])

theorem IsRun.takeWhile_eq (h : IsRun p run rest) : (run ++ rest).takeWhile p = run :=
  takeWhile_append_of_stops h.mem h.stops

theorem IsRun.dropWhile_eq (h : IsRun p run rest) : (run ++ rest).dropWhile p = rest :=
  dropWhile_append_of_stops h.mem h.stops

theorem stops_dropWhile (p : Char → Bool) (t : Text) : Stops p (t.dropWhile p) := by
  intro c hc
  have hhead := List.head?_dropWhile_not p t
  rw [hc] at hhead
  exact hhead

/-- Either no character of the class comes next, or a run of it does. -/
theorem stops_or_isRun (p : Char → Bool) (t : Text) :
    Stops p t ∨ ∃ run rest, t = run ++ rest ∧ IsRun p run rest := by
  cases hrun : t.takeWhile p with
  | nil =>
    have hdrop := stops_dropWhile p t
    have ht := List.takeWhile_append_dropWhile (p := p) (l := t)
    rw [hrun, List.nil_append] at ht
    exact .inl (ht ▸ hdrop)
  | cons c run =>
    refine .inr ⟨t.takeWhile p, t.dropWhile p, List.takeWhile_append_dropWhile.symm, ?_, ?_,
      stops_dropWhile p t⟩
    · simp [hrun]
    · exact fun d hd => List.mem_takeWhile_imp hd

/-! ## Trimming -/

/-- A text with nothing to trim at its end is left alone. -/
theorem trimEnd_of_getLast? (h : ∀ c, t.getLast? = some c → isBlank c = false) : trimEnd t = t := by
  induction t with
  | nil => rfl
  | cons c rest ih =>
    cases rest with
    | nil => simp [trimEnd, h c rfl]
    | cons d more =>
      have hrest := ih fun e he => h e (by rw [List.getLast?_cons_cons, he])
      rw [trimEnd, hrest]

/-- What trimming leaves has no blank at its end. -/
theorem not_isBlank_of_getLast?_trimEnd (t : Text) :
    ∀ c, (trimEnd t).getLast? = some c → isBlank c = false := by
  induction t with
  | nil => exact fun _ h => nomatch h
  | cons d rest ih =>
    intro c hc
    rw [trimEnd] at hc
    cases hkept : trimEnd rest with
    | nil =>
      rw [hkept] at hc
      by_cases hblank : isBlank d = true
      · simp [hblank] at hc
      · obtain rfl : d = c := by simpa [hblank] using hc
        simpa using hblank
    | cons e kept =>
      rw [hkept] at hc ih
      exact ih c (by simpa using hc)

/-- Trimming the end takes characters off the end only. -/
theorem trimEnd_isPrefix (t : Text) : trimEnd t <+: t := by
  induction t with
  | nil => exact List.prefix_refl []
  | cons c rest ih =>
    rw [trimEnd]
    cases hkept : trimEnd rest with
    | nil =>
      by_cases hblank : isBlank c = true
      · simp [hblank]
      · simp [hblank]
    | cons d kept => exact List.cons_prefix_cons.mpr ⟨rfl, hkept ▸ ih⟩

/-- What is taken off the end is blank. -/
theorem exists_eq_trimEnd_append (t : Text) :
    ∃ blanks, (∀ c ∈ blanks, isBlank c = true) ∧ t = trimEnd t ++ blanks := by
  induction t with
  | nil => exact ⟨[], by simp, rfl⟩
  | cons c rest ih =>
    obtain ⟨blanks, hblanks, hrest⟩ := ih
    rw [trimEnd]
    cases hkept : trimEnd rest with
    | nil =>
      rw [hkept, List.nil_append] at hrest
      by_cases hblank : isBlank c = true
      · refine ⟨c :: rest, ?_, by simp [hblank]⟩
        rw [hrest]
        exact List.forall_mem_cons.mpr ⟨hblank, hblanks⟩
      · exact ⟨rest, hrest ▸ hblanks, by simp [hblank]⟩
    | cons d kept =>
      rw [hkept] at hrest
      exact ⟨blanks, hblanks, congrArg (c :: ·) hrest⟩

theorem trimEnd_append (hrun : ∀ c ∈ run, isBlank c = false) :
    trimEnd (run ++ t) = run ++ trimEnd t := by
  induction run with
  | nil => rfl
  | cons c run ih =>
    obtain ⟨hc, hrest⟩ := List.forall_mem_cons.mp hrun
    rw [List.cons_append, trimEnd, ih hrest]
    cases hkept : run ++ trimEnd t with
    | nil => simp [hc, hkept]
    | cons d kept => rw [List.cons_append, hkept]

/-- Trimming does not reach past what is visible at the start of a text. -/
theorem trim_append (hne : run ≠ []) (hrun : ∀ c ∈ run, isBlank c = false) :
    trim (run ++ t) = run ++ trimEnd t := by
  obtain ⟨c, rest, rfl⟩ := List.exists_cons_of_ne_nil hne
  have hstart : trimStart (c :: rest ++ t) = c :: rest ++ t :=
    List.dropWhile_cons_of_neg (by simp [hrun c List.mem_cons_self])
  rw [trim, hstart, trimEnd_append hrun]

/-- A piece without blanks is not begun by the blanks behind a text. -/
theorem startsWith_append_of_isBlank {lead blanks : Text}
    (hlead : lead.any isBlank = false) (hblanks : ∀ c ∈ blanks, isBlank c = true) :
    startsWith lead (t ++ blanks) = startsWith lead t := by
  induction lead generalizing t with
  | nil => rfl
  | cons c lead ih =>
    rw [List.any_cons, Bool.or_eq_false_iff] at hlead
    obtain ⟨hc, hrest⟩ := hlead
    cases t with
    | nil =>
      cases blanks with
      | nil => rfl
      | cons d blanks =>
        have hne : c ≠ d := by
          rintro rfl
          rw [hblanks c List.mem_cons_self] at hc
          cases hc
        simp [startsWith, List.isPrefixOf, hne]
    | cons d t => exact congrArg (c == d && ·) (ih hrest)

/-- A text without blanks at either end is left alone. -/
theorem trim_of_stops (hfirst : Stops isBlank t)
    (hlast : ∀ c, t.getLast? = some c → isBlank c = false) : trim t = t := by
  have hstart : trimStart t = t := by
    cases t with
    | nil => rfl
    | cons c rest => exact List.dropWhile_cons_of_neg (by simp [stops_cons.mp hfirst])
  rw [trim, hstart, trimEnd_of_getLast? hlast]

theorem stops_trim (t : Text) : Stops isBlank (trim t) := by
  intro c hc
  obtain ⟨cut, hcut⟩ := trimEnd_isPrefix (trimStart t)
  refine stops_dropWhile isBlank t c ?_
  rw [show t.dropWhile isBlank = trim t ++ cut from hcut.symm, List.head?_append, hc]
  rfl

theorem not_isBlank_of_getLast?_trim (t : Text) :
    ∀ c, (trim t).getLast? = some c → isBlank c = false :=
  not_isBlank_of_getLast?_trimEnd (trimStart t)

theorem mem_of_mem_trim (h : c ∈ trim t) : c ∈ t :=
  (List.dropWhile_sublist _).subset ((trimEnd_isPrefix _).subset h)

/-! ## Letter case -/

theorem isUpper_iff : c.isUpper = true ↔ 65 ≤ c.toNat ∧ c.toNat ≤ 90 :=
  decide_eq_true_iff.trans (and_congr UInt32.le_iff_toNat_le UInt32.le_iff_toNat_le)

theorem isLower_iff : c.isLower = true ↔ 97 ≤ c.toNat ∧ c.toNat ≤ 122 :=
  Bool.and_eq_true_iff.trans (and_congr
    (decide_eq_true_iff.trans UInt32.le_iff_toNat_le)
    (decide_eq_true_iff.trans UInt32.le_iff_toNat_le))

theorem isAlpha_iff : c.isAlpha = true ↔ c.isUpper = true ∨ c.isLower = true :=
  Bool.or_eq_true_iff

theorem toLower_of_not_isUpper (h : c.isUpper = false) : c.toLower = c := by
  unfold Char.toLower
  exact dif_neg (of_decide_eq_false h)

theorem toNat_toLower_of_isUpper (h : c.isUpper = true) : c.toLower.toNat = c.toNat + 32 := by
  have hbounds := isUpper_iff.mp h
  unfold Char.toLower
  rw [dif_pos (of_decide_eq_true h)]
  change (c.val + 32).toNat = c.val.toNat + 32
  rw [UInt32.toNat_add]
  exact Nat.mod_eq_of_lt (by change c.toNat + 32 < 4294967296; omega)

theorem isLower_toLower_of_isUpper (h : c.isUpper = true) : c.toLower.isLower = true := by
  have hbounds := isUpper_iff.mp h
  rw [isLower_iff, toNat_toLower_of_isUpper h]
  omega

theorem toLower_of_isLower (h : c.isLower = true) : c.toLower = c := by
  apply toLower_of_not_isUpper
  have hbounds := isLower_iff.mp h
  rw [Bool.eq_false_iff, ne_eq, isUpper_iff]
  omega

/-- Lower case makes nothing but small letters, so any other character was there before. -/
theorem eq_of_toLower_eq {d : Char} (h : c.toLower = d) (hd : d.isLower = false) : c = d := by
  cases hupper : c.isUpper with
  | true =>
    rw [← h, isLower_toLower_of_isUpper hupper] at hd
    cases hd
  | false => rw [← h, toLower_of_not_isUpper hupper]

/-! ## Numerals -/

theorem isAsciiDigit_of_mem_numeral {n : Nat} (h : c ∈ numeral n) : isAsciiDigit c = true :=
  Nat.isDigit_of_mem_toDigits (by decide) (Nat.le_refl 10) h

/-- Reading a numeral gives back the number. -/
theorem numberOf_numeral (n : Nat) : numberOf (numeral n) = n :=
  Nat.ofDigitChars_toDigits (by decide) (Nat.le_refl 10)

end LineGuard.Text
