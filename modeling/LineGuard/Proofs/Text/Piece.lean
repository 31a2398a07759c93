/-
# Fixed pieces in a text that is put together

Looking for a piece, counting it and taking what follows its last occurrence are recursions
over a text. What they find in a text that is put together is found in its parts, unless a
piece lies across the seam. It cannot do so if the part behind the seam begins with a
character that the piece lacks, and this one condition is enough for all three.

The first occurrence of a piece is not moved by what comes behind it, whatever that begins with.

White space at the ends is the common case: no piece looked for here has any, so a text can
be trimmed before it is searched or after.
-/

import Mathlib.Data.List.Basic
import LineGuard.Proofs.Text.Run

namespace LineGuard.Text

variable {piece s t rest : Text} {c : Char}

/-! ## Where a piece stands -/

theorem startsWith_iff : startsWith piece t = true ↔ piece <+: t := List.isPrefixOf_iff_prefix

theorem startsWith_eq_false_iff : startsWith piece t = false ↔ ¬ piece <+: t := by
  rw [Bool.eq_false_iff, ne_eq, startsWith_iff]

theorem after?_eq_some_iff : after? piece t = some rest ↔ t = piece ++ rest := by
  rw [after?, List.isPrefixOf?_eq_some_iff_append_eq, eq_comm]

theorem after?_eq_none_iff : after? piece t = none ↔ startsWith piece t = false := by
  rw [startsWith, ← List.isSome_isPrefixOf?_eq_isPrefixOf, Option.isSome_eq_false_iff,
    Option.isNone_iff_eq_none, after?]

theorem includes_iff : includes piece t = true ↔ piece <:+: t := by
  induction t with
  | nil => rw [includes, List.isEmpty_iff, List.infix_nil]
  | cons c rest ih => rw [includes, Bool.or_eq_true, startsWith_iff, ih, List.infix_cons_iff]

theorem includes_eq_false_iff : includes piece t = false ↔ ¬ piece <:+: t := by
  rw [Bool.eq_false_iff, ne_eq, includes_iff]

/-- A piece needs all its characters. -/
theorem includes_eq_false_of_count_lt (h : t.count c < piece.count c) :
    includes piece t = false := by
  rw [includes_eq_false_iff]
  exact fun hin => Nat.not_le_of_lt h (hin.sublist.count_le c)

theorem includes_eq_false_of_notMem (hpiece : c ∈ piece) (ht : c ∉ t) :
    includes piece t = false := by
  apply includes_eq_false_of_count_lt
  rw [List.count_eq_zero.mpr ht]
  exact List.count_pos_iff.mpr hpiece

theorem startsWith_eq_false_of_includes (h : includes piece t = false) :
    startsWith piece t = false := by
  rw [startsWith_eq_false_iff]
  exact fun hstarts => includes_eq_false_iff.mp h hstarts.isInfix

theorem occurrences_eq_zero (h : includes piece t = false) : occurrences piece t = 0 := by
  induction t with
  | nil => rfl
  | cons c rest ih =>
    rw [includes, Bool.or_eq_false_iff] at h
    rw [occurrences_cons, h.1, if_neg Bool.false_ne_true, ih h.2]

theorem afterLast?_eq_none (h : includes piece t = false) : afterLast? piece t = none := by
  induction t with
  | nil =>
    rw [includes, List.isEmpty_eq_false_iff] at h
    rw [afterLast?, after?_eq_none_iff, startsWith_eq_false_iff, List.prefix_nil]
    exact h
  | cons c rest ih =>
    rw [includes, Bool.or_eq_false_iff] at h
    rw [afterLast?, ih h.2, Option.none_or, after?_eq_none_iff]
    exact h.1

/-! ## Two parts -/

/-- A piece at the start of a text in two parts is in the first or goes on behind the seam. -/
theorem prefix_append_cases (h : piece <+: s ++ t) :
    piece <+: s ∨ ∃ c across, piece = s ++ c :: across ∧ c :: across <+: t := by
  rcases List.prefix_or_prefix_of_prefix h (List.prefix_append s t) with hin | ⟨across, rfl⟩
  · exact .inl hin
  · cases across with
    | nil => exact .inl ⟨[], by rw [List.append_nil, List.append_nil]⟩
    | cons c across => exact .inr ⟨c, across, rfl, (List.prefix_append_right_inj s).mp h⟩

theorem startsWith_append (hseam : Stops piece.contains t) :
    startsWith piece (s ++ t) = startsWith piece s := by
  rw [Bool.eq_iff_iff, startsWith_iff, startsWith_iff]
  refine ⟨fun h => ?_, fun h => h.trans (List.prefix_append s t)⟩
  rcases prefix_append_cases h with hin | ⟨c, across, rfl, others, rfl⟩
  · exact hin
  · -- A piece that went on behind the seam would hold the first character there.
    have hlacks := stops_cons.mp hseam
    rw [List.contains_eq_mem, decide_eq_false_iff_not] at hlacks
    exact absurd (List.mem_append_right s List.mem_cons_self) hlacks

theorem after?_append (hseam : Stops piece.contains t) :
    after? piece (s ++ t) = (after? piece s).map (· ++ t) := by
  cases hs : after? piece s with
  | none =>
    rw [after?_eq_none_iff] at hs
    rw [Option.map_none, after?_eq_none_iff, startsWith_append hseam, hs]
  | some rest =>
    obtain rfl := after?_eq_some_iff.mp hs
    rw [Option.map_some, after?_eq_some_iff, List.append_assoc]

theorem includes_append (hpiece : piece ≠ []) (hseam : Stops piece.contains t) :
    includes piece (s ++ t) = (includes piece s || includes piece t) := by
  induction s with
  | nil => simp [includes, hpiece]
  | cons c s ih =>
    rw [List.cons_append, includes, ih, ← List.cons_append, startsWith_append hseam, includes,
      Bool.or_assoc]

theorem afterLast?_append (hpiece : piece ≠ []) (hseam : Stops piece.contains t) :
    afterLast? piece (s ++ t) = (afterLast? piece t).or ((afterLast? piece s).map (· ++ t)) := by
  induction s with
  | nil =>
    have hnone : afterLast? piece [] = none := afterLast?_eq_none (by simp [includes, hpiece])
    rw [hnone, Option.map_none, Option.or_none, List.nil_append]
  | cons c s ih =>
    rw [List.cons_append, afterLast?, ih, ← List.cons_append, after?_append hseam, afterLast?,
      Option.map_or, Option.or_assoc]

theorem occurrences_append (hseam : Stops piece.contains t) :
    occurrences piece (s ++ t) = occurrences piece s + occurrences piece t := by
  -- Counting leaps over an occurrence, so the induction is on the length of the first part.
  induction hlength : s.length using Nat.strong_induction_on generalizing s with
  | _ n ih =>
    cases s with
    | nil => rw [List.nil_append, occurrences_nil, Nat.zero_add]
    | cons c s =>
      rw [List.cons_append, occurrences_cons, ← List.cons_append, startsWith_append hseam,
        occurrences_cons piece c s]
      rw [List.length_cons] at hlength
      by_cases hstarts : startsWith piece (c :: s) = true
      · have hle : piece.length ≤ s.length + 1 := (startsWith_iff.mp hstarts).length_le
        rw [if_pos hstarts, if_pos hstarts, List.drop_append_of_le_length (by omega),
          ih (s.drop (piece.length - 1)).length (by rw [List.length_drop]; omega) rfl]
        omega
      · rw [if_neg hstarts, if_neg hstarts, ih s.length (by omega) rfl]

/-! ## The first occurrence -/

/-- A piece whose first character does not come again in it is found where it stands in full, if
the text in front does not hold it. -/
theorem afterFirst?_append (hc : c ∉ piece) (hs : includes (c :: piece) s = false) :
    afterFirst? (c :: piece) (s ++ (c :: piece ++ t)) = some t := by
  induction s with
  | nil =>
    have hstarts : after? (c :: piece) (c :: piece ++ t) = some t := after?_eq_some_iff.mpr rfl
    rw [List.nil_append, List.cons_append, afterFirst?, ← List.cons_append, hstarts, Option.some_or]
  | cons d s ih =>
    rw [includes, Bool.or_eq_false_iff] at hs
    have hnone : after? (c :: piece) (d :: s ++ (c :: piece ++ t)) = none := by
      rw [after?_eq_none_iff, startsWith_eq_false_iff]
      intro hstarts
      rcases prefix_append_cases hstarts with hin | ⟨e, across, hpiece, others, hacross⟩
      · exact startsWith_eq_false_iff.mp hs.1 hin
      · -- What lies across the seam would begin with the first character again.
        obtain ⟨rfl, -⟩ := List.cons.inj hacross
        obtain ⟨-, rfl⟩ := List.cons.inj hpiece
        exact hc (List.mem_append_right s List.mem_cons_self)
    rw [List.cons_append, afterFirst?, ← List.cons_append, hnone, Option.none_or, ih hs.2]

theorem exists_eq_append_of_afterFirst? (h : afterFirst? piece t = some rest) :
    ∃ front, t = front ++ (piece ++ rest) := by
  induction t with
  | nil =>
    rw [afterFirst?, after?_eq_some_iff] at h
    exact ⟨[], h⟩
  | cons c t ih =>
    rw [afterFirst?, Option.or_eq_some_iff] at h
    rcases h with hhere | ⟨-, hlater⟩
    · rw [after?_eq_some_iff] at hhere
      exact ⟨[], hhere⟩
    · obtain ⟨front, rfl⟩ := ih hlater
      exact ⟨c :: front, rfl⟩

/-- The first occurrence stays the first when the text goes on. -/
theorem afterFirst?_append_of_eq_some (h : afterFirst? piece s = some rest) :
    afterFirst? piece (s ++ t) = some (rest ++ t) := by
  induction s with
  | nil =>
    rw [afterFirst?, after?_eq_some_iff] at h
    obtain ⟨rfl, rfl⟩ := List.nil_eq_append_iff.mp h
    cases t <;> rfl
  | cons c s ih =>
    rw [afterFirst?, Option.or_eq_some_iff] at h
    rw [List.cons_append, afterFirst?, ← List.cons_append]
    rcases h with hhere | ⟨hnone, hlater⟩
    · rw [after?_eq_some_iff] at hhere
      have hstarts : after? piece (c :: s ++ t) = some (rest ++ t) :=
        after?_eq_some_iff.mpr (by rw [hhere, List.append_assoc])
      rw [hstarts, Option.some_or]
    · have hstill : after? piece (c :: s ++ t) = none := by
        rw [after?_eq_none_iff, startsWith_eq_false_iff] at hnone ⊢
        intro hstarts
        rcases prefix_append_cases hstarts with hin | ⟨d, across, hpiece, -⟩
        · exact hnone hin
        · -- A piece across the seam is too long to be found further down.
          obtain ⟨front, hs⟩ := exists_eq_append_of_afterFirst? hlater
          have hlength := congrArg List.length hs
          have hlong := congrArg List.length hpiece
          simp only [List.length_append, List.length_cons] at hlength hlong
          omega
      rw [hstill, Option.none_or, ih hlater]

/-! ## Characters that the piece lacks -/

theorem stops_contains_of_forall (h : ∀ c ∈ t, c ∉ piece) : Stops piece.contains t := by
  intro c hc
  rw [List.contains_eq_mem, decide_eq_false_iff_not]
  exact h c (List.mem_of_head? hc)

theorem includes_eq_false_of_forall (hpiece : piece ≠ []) (h : ∀ c ∈ t, c ∉ piece) :
    includes piece t = false := by
  obtain ⟨c, hc⟩ := List.exists_mem_of_ne_nil piece hpiece
  exact includes_eq_false_of_notMem hc fun ht => h c ht hc

theorem startsWith_cons_of_notMem (hpiece : piece ≠ []) (hc : c ∉ piece) :
    startsWith piece (c :: t) = false := by
  rw [startsWith_eq_false_iff]
  rintro ⟨others, h⟩
  obtain ⟨d, piece, rfl⟩ := List.exists_cons_of_ne_nil hpiece
  obtain ⟨rfl, -⟩ := List.cons.inj h
  exact hc List.mem_cons_self

theorem includes_cons_of_notMem (hpiece : piece ≠ []) (hc : c ∉ piece) :
    includes piece (c :: t) = includes piece t := by
  rw [includes, startsWith_cons_of_notMem hpiece hc, Bool.false_or]

theorem occurrences_cons_of_notMem (hpiece : piece ≠ []) (hc : c ∉ piece) :
    occurrences piece (c :: t) = occurrences piece t := by
  rw [occurrences_cons, startsWith_cons_of_notMem hpiece hc, if_neg Bool.false_ne_true]

theorem afterLast?_cons_of_notMem (hpiece : piece ≠ []) (hc : c ∉ piece) :
    afterLast? piece (c :: t) = afterLast? piece t := by
  rw [afterLast?, after?_eq_none_iff.mpr (startsWith_cons_of_notMem hpiece hc), Option.or_none]

variable {tail : Text}

theorem includes_append_right (hpiece : piece ≠ []) (htail : ∀ c ∈ tail, c ∉ piece) :
    includes piece (s ++ tail) = includes piece s := by
  rw [includes_append hpiece (stops_contains_of_forall htail),
    includes_eq_false_of_forall hpiece htail, Bool.or_false]

theorem occurrences_append_right (hpiece : piece ≠ []) (htail : ∀ c ∈ tail, c ∉ piece) :
    occurrences piece (s ++ tail) = occurrences piece s := by
  rw [occurrences_append (stops_contains_of_forall htail),
    occurrences_eq_zero (includes_eq_false_of_forall hpiece htail), Nat.add_zero]

theorem afterLast?_append_right (hpiece : piece ≠ []) (htail : ∀ c ∈ tail, c ∉ piece) :
    afterLast? piece (s ++ tail) = (afterLast? piece s).map (· ++ tail) := by
  rw [afterLast?_append hpiece (stops_contains_of_forall htail),
    afterLast?_eq_none (includes_eq_false_of_forall hpiece htail), Option.none_or]

/-! ## What some characters make no difference to -/

section Ignored

variable {α : Type} {f : Text → α} {p : Char → Prop}

/-- What looks at none of some characters in front of a text does not look at several. -/
theorem apply_append_of_ignored {lead : Text} (hfront : ∀ c t, p c → f (c :: t) = f t)
    (hlead : ∀ c ∈ lead, p c) : f (lead ++ t) = f t := by
  induction lead with
  | nil => rfl
  | cons c lead ih =>
    obtain ⟨hc, hrest⟩ := List.forall_mem_cons.mp hlead
    rw [List.cons_append, hfront c _ hc, ih hrest]

variable (hblank : ∀ c, isBlank c = true → p c)
  (hbehind : ∀ s tail, (∀ c ∈ tail, p c) → f (s ++ tail) = f s)
include hblank hbehind

theorem apply_trimEnd (t : Text) : f (trimEnd t) = f t := by
  obtain ⟨blanks, hblanks, ht⟩ := exists_eq_trimEnd_append t
  conv_rhs => rw [ht]
  rw [hbehind _ blanks fun c hc => hblank c (hblanks c hc)]

theorem apply_trim (hfront : ∀ c t, p c → f (c :: t) = f t) (t : Text) :
    f (trim t) = f t := by
  have hlead : ∀ c ∈ t.takeWhile isBlank, p c := fun c hc =>
    hblank c (List.mem_takeWhile_imp hc)
  conv_rhs => rw [← List.takeWhile_append_dropWhile (p := isBlank) (l := t)]
  rw [apply_append_of_ignored hfront hlead, trim, trimStart, apply_trimEnd hblank hbehind]

end Ignored

theorem notMem_of_isBlank (hvisible : piece.any isBlank = false) (c : Char)
    (hc : isBlank c = true) : c ∉ piece := by
  rw [List.any_eq_false] at hvisible
  exact fun hmem => hvisible c hmem hc

theorem includes_trimEnd (hpiece : piece ≠ []) (hvisible : piece.any isBlank = false) (t : Text) :
    includes piece (trimEnd t) = includes piece t :=
  apply_trimEnd (notMem_of_isBlank hvisible) (fun _ _ => includes_append_right hpiece) t

theorem includes_trim (hpiece : piece ≠ []) (hvisible : piece.any isBlank = false) (t : Text) :
    includes piece (trim t) = includes piece t :=
  apply_trim (notMem_of_isBlank hvisible) (fun _ _ => includes_append_right hpiece)
    (fun _ _ => includes_cons_of_notMem hpiece) t

theorem occurrences_trim (hpiece : piece ≠ []) (hvisible : piece.any isBlank = false) (t : Text) :
    occurrences piece (trim t) = occurrences piece t :=
  apply_trim (notMem_of_isBlank hvisible) (fun _ _ => occurrences_append_right hpiece)
    (fun _ _ => occurrences_cons_of_notMem hpiece) t

end LineGuard.Text
