/-
# What a depth says about the text read

Measuring keeps two counts and the brace that opened the body. The counts are those of the
whole text read so far: brackets and braces left open, where closing marks that close nothing
do not count. So it does not matter that they are kept from line to line.

From the brace that opened the body on, the count of braces is exact. It is one behind that
brace, and the next brace that would bring it to nothing closes the body, so it never stops at
zero on the way. Up to then there are more opening braces than closing ones.
-/

import LineGuard.Construct.Measure
import Mathlib.Data.List.Infix

namespace LineGuard.Construct

/-- A character of bare code, with the line it stands on. -/
abbrev Mark := Nat × Char

/-! ## Counting -/

/-- The number of open brackets behind a character. -/
def bracketsBehind (brackets : Nat) (c : Char) : Nat :=
  if c = '(' ∨ c = '[' then brackets + 1 else if c = ')' ∨ c = ']' then brackets - 1 else brackets

/-- The number of open braces behind a character. -/
def bracesBehind (braces : Nat) (c : Char) : Nat :=
  if c = '{' then braces + 1 else if c = '}' then braces - 1 else braces

/-- The round and square brackets that some text leaves open. -/
def bracketDepth (marks : List Mark) : Nat := marks.foldl (fun n mark => bracketsBehind n mark.2) 0

/-- The braces that some text leaves open. -/
def braceDepth (marks : List Mark) : Nat := marks.foldl (fun n mark => bracesBehind n mark.2) 0

/-- Behind some text neither brackets nor braces are open. -/
def IsOutside (marks : List Mark) : Prop := bracketDepth marks = 0 ∧ braceDepth marks = 0

/-- No brace of a text stands outside all brackets and braces. -/
def OpensNothing (marks : List Mark) : Prop :=
  ∀ earlier line later, marks = earlier ++ (line, '{') :: later → ¬ IsOutside earlier

/-- The opening braces of a text. -/
def opened (marks : List Mark) : Nat := marks.countP (·.2 == '{')

/-- The closing braces of a text. -/
def closed (marks : List Mark) : Nat := marks.countP (·.2 == '}')

/-- Counting from its first mark, a text has more opening braces than closing ones
throughout. -/
def StaysOpen (marks : List Mark) : Prop :=
  ∀ part, part <+: marks → part ≠ [] → closed part < opened part

/-- The first brace of a text outside all brackets stands on one line, and the brace that
matches it on another. -/
def ClosesBody (marks : List Mark) (first last : Nat) : Prop :=
  ∃ before inner rest, marks = before ++ (first, '{') :: inner ++ (last, '}') :: rest ∧
    IsOutside before ∧ OpensNothing before ∧ StaysOpen ((first, '{') :: inner) ∧
    closed ((first, '{') :: inner ++ [(last, '}')]) =
      opened ((first, '{') :: inner ++ [(last, '}')])

/-- The first brace of a text outside all brackets stands on a line, and no brace matches it. -/
def LeavesBodyOpen (marks : List Mark) (first : Nat) : Prop :=
  ∃ before behind, marks = before ++ (first, '{') :: behind ∧
    IsOutside before ∧ OpensNothing before ∧ StaysOpen ((first, '{') :: behind)

variable {marks earlier later : List Mark} {mark : Mark} {line first last : Nat} {c : Char}

theorem bracketDepth_concat :
    bracketDepth (marks ++ [mark]) = bracketsBehind (bracketDepth marks) mark.2 := by
  rw [bracketDepth, List.foldl_concat, ← bracketDepth]

theorem braceDepth_concat :
    braceDepth (marks ++ [mark]) = bracesBehind (braceDepth marks) mark.2 := by
  rw [braceDepth, List.foldl_concat, ← braceDepth]

theorem opened_concat :
    opened (marks ++ [(line, c)]) = opened marks + if c = '{' then 1 else 0 := by
  simp [opened, List.countP_append]

theorem closed_concat :
    closed (marks ++ [(line, c)]) = closed marks + if c = '}' then 1 else 0 := by
  simp [closed, List.countP_append]

theorem staysOpen_concat (h : StaysOpen marks)
    (hlast : closed (marks ++ [mark]) < opened (marks ++ [mark])) :
    StaysOpen (marks ++ [mark]) := by
  intro part hpart hne
  rcases List.prefix_concat_iff.mp hpart with rfl | hbefore
  · exact hlast
  · exact h part hbefore hne

theorem OpensNothing.concat (h : OpensNothing marks) (hmark : mark.2 = '{' → ¬ IsOutside marks) :
    OpensNothing (marks ++ [mark]) := by
  intro earlier line later heq
  rcases List.eq_nil_or_concat later with rfl | ⟨later, final, rfl⟩
  · obtain ⟨rfl, hlast⟩ := List.append_inj' heq rfl
    obtain rfl := List.singleton_inj.mp hlast
    exact hmark rfl
  · rw [List.concat_eq_append, ← List.cons_append, ← List.append_assoc] at heq
    exact h earlier line later (List.append_inj' heq rfl).1

theorem OpensNothing.of_append (h : OpensNothing (earlier ++ later)) : OpensNothing earlier := by
  rintro before line behind rfl
  exact h before line (behind ++ later) (by simp)

theorem ClosesBody.append (h : ClosesBody marks first last) (later : List Mark) :
    ClosesBody (marks ++ later) first last := by
  obtain ⟨before, inner, rest, rfl, hbody⟩ := h
  exact ⟨before, inner, rest ++ later, by simp, hbody⟩

/-- A brace that closes a body has one before it that opens the body. -/
theorem ClosesBody.not_opensNothing (h : ClosesBody marks first last) : ¬ OpensNothing marks := by
  obtain ⟨before, inner, rest, rfl, houtside, -⟩ := h
  intro hnothing
  exact hnothing before first (inner ++ (last, '}') :: rest) (by simp) houtside

namespace Depth

variable {d next : Depth} {isAlone : Bool} {opening : Opening}

/-! ## One character -/

/-- Only a closing brace closes a body, and only when one brace is open. Any other character
changes the counts, and a brace that finds nothing open opens the body. -/
theorem read_eq (d : Depth) (line : Nat) (isAlone : Bool) (c : Char) :
    d.read line isAlone c =
      match if c = '}' ∧ d.braces ≤ 1 then d.opening else none with
      | some opening => .closed opening
      | none => .inside {
          brackets := bracketsBehind d.brackets c
          braces := bracesBehind d.braces c
          opening :=
            if c = '{' ∧ d.isSettled = true then some ⟨line, isAlone⟩ else d.opening } := by
  rw [read, bracketsBehind, bracesBehind]
  by_cases hopen : c = '(' ∨ c = '['
  · obtain ⟨hne, hne'⟩ : c ≠ '{' ∧ c ≠ '}' := by rcases hopen with rfl | rfl <;> decide
    simp [hopen, hne, hne']
  · by_cases hclose : c = ')' ∨ c = ']'
    · obtain ⟨hne, hne'⟩ : c ≠ '{' ∧ c ≠ '}' := by rcases hclose with rfl | rfl <;> decide
      simp [hopen, hclose, hne, hne']
    · rw [if_neg hopen, if_neg hclose, if_neg hopen, if_neg hclose]
      by_cases hbrace : c = '{'
      · simp [hbrace]
      · by_cases hend : c = '}'
        · cases hopening : d.opening with
          | none => simp [hend]
          | some opening => by_cases hlast : d.braces ≤ 1 <;> simp [hend, hlast]
        · simp [hbrace, hend]

/-- A step closes the body at the brace that opened it, opens the body on its own
line, or leaves the brace that opened it as it is. -/
theorem read_cases (d : Depth) (line : Nat) (isAlone : Bool) (c : Char) :
    (∃ opening, d.opening = some opening ∧ d.read line isAlone c = .closed opening) ∨
      ∃ next, d.read line isAlone c = .inside next ∧
        (next.opening = some ⟨line, isAlone⟩ ∨ next.opening = d.opening) := by
  rw [read_eq]
  split
  · next opening hopening =>
    split_ifs at hopening
    exact .inl ⟨opening, hopening, rfl⟩
  · refine .inr ⟨_, rfl, ?_⟩
    dsimp only
    split_ifs
    · exact .inl rfl
    · exact .inr rfl

/-- A depth is that behind some text, in which no body was closed. -/
structure Describes (d : Depth) (marks : List Mark) : Prop where
  brackets_eq : d.brackets = bracketDepth marks
  braces_eq : d.braces = braceDepth marks
  opensNothing : d.opening = none → OpensNothing marks
  staysOpen : ∀ opening, d.opening = some opening → ∃ before behind,
    marks = before ++ (opening.line, '{') :: behind ∧ IsOutside before ∧ OpensNothing before ∧
      StaysOpen ((opening.line, '{') :: behind) ∧
      d.braces + closed ((opening.line, '{') :: behind) = opened ((opening.line, '{') :: behind)

theorem describes_outside : outside.Describes [] where
  brackets_eq := rfl
  braces_eq := rfl
  opensNothing _ _ _ _ h := by simp at h
  staysOpen _ h := nomatch h

/-- Nothing is open just outside brackets and braces. -/
theorem Describes.isSettled_iff (h : d.Describes marks) : d.isSettled = true ↔ IsOutside marks := by
  rw [IsOutside, ← h.brackets_eq, ← h.braces_eq]
  cases hopening : d.opening with
  | none => simp [isSettled, hopening]
  | some opening =>
    -- While a body is open, one of its braces is.
    obtain ⟨before, behind, -, -, -, hopen, hcount⟩ := h.staysOpen opening hopening
    have hmore := hopen _ (List.prefix_refl _) (List.cons_ne_nil _ _)
    have hbraces : d.braces ≠ 0 := by omega
    simp [isSettled, hopening, hbraces]

/-- While a body stays open, a character keeps the count of its braces. -/
theorem staysOpen_and_count_concat {body : List Mark} {braces : Nat} (line : Nat)
    (h : StaysOpen body) (hne : body ≠ []) (hcount : braces + closed body = opened body)
    (hc : c = '}' → 1 < braces) :
    StaysOpen (body ++ [(line, c)]) ∧
      bracesBehind braces c + closed (body ++ [(line, c)]) = opened (body ++ [(line, c)]) := by
  have hmore := h body (List.prefix_refl _) hne
  have hcount' :
      bracesBehind braces c + closed (body ++ [(line, c)]) = opened (body ++ [(line, c)]) := by
    rw [bracesBehind, closed_concat, opened_concat]
    by_cases hbrace : c = '{'
    · have hend : c ≠ '}' := hbrace ▸ by decide
      rw [if_pos hbrace, if_pos hbrace, if_neg hend]
      omega
    · by_cases hend : c = '}'
      · have hlast := hc hend
        rw [if_neg hbrace, if_neg hbrace, if_pos hend, if_pos hend]
        omega
      · rw [if_neg hbrace, if_neg hbrace, if_neg hend, if_neg hend]
        exact hcount
  refine ⟨staysOpen_concat h ?_, hcount'⟩
  have hopen : 0 < bracesBehind braces c := by
    rw [bracesBehind]
    split_ifs with hbrace hend
    · exact Nat.succ_pos _
    · have := hc hend
      omega
    · omega
  omega

/-- A character that closes no body leaves a depth that describes the text with it. -/
theorem Describes.of_read (h : d.Describes marks) (hread : d.read line isAlone c = .inside next) :
    next.Describes (marks ++ [(line, c)]) := by
  rw [read_eq] at hread
  split at hread
  · cases hread
  · next hnone =>
    obtain rfl := Step.inside.inj hread
    refine ⟨?_, ?_, fun hopening => ?_, fun opening hopening => ?_⟩
    · rw [bracketDepth_concat, ← h.brackets_eq]
    · rw [braceDepth_concat, ← h.braces_eq]
    · split_ifs at hopening with hown
      refine (h.opensNothing hopening).concat fun hc houtside => hown ⟨hc, ?_⟩
      exact h.isSettled_iff.mpr houtside
    · split_ifs at hopening with hown
      · -- The character opens the body.
        obtain ⟨rfl, hsettled⟩ := hown
        obtain rfl := Option.some.inj hopening
        have houtside := h.isSettled_iff.mp hsettled
        have hnothing : d.opening = none := by
          simp only [isSettled, Bool.and_eq_true, Option.isNone_iff_eq_none] at hsettled
          exact hsettled.1.1
        refine ⟨marks, [], rfl, houtside, h.opensNothing hnothing, ?_, ?_⟩
        · have hnil : StaysOpen [] := fun _ hpart hne => absurd (List.prefix_nil.mp hpart) hne
          exact staysOpen_concat hnil (by simp [closed, opened])
        · rw [h.braces_eq, houtside.2]
          rfl
      · obtain ⟨before, behind, rfl, houtside, hnothing, hopen, hcount⟩ :=
          h.staysOpen opening hopening
        have hends : c = '}' → 1 < d.braces := by
          intro hc
          by_contra hlast
          rw [if_pos ⟨hc, Nat.le_of_not_lt hlast⟩, hopening] at hnone
          cases hnone
        obtain ⟨hopen', hcount'⟩ :=
          staysOpen_and_count_concat line hopen (List.cons_ne_nil _ _) hcount hends
        exact ⟨before, behind ++ [(line, c)], by simp, houtside, hnothing, hopen', hcount'⟩

/-- The character that closes a body is the brace that matches the one that opened it. -/
theorem Describes.closesBody_of_read (h : d.Describes marks)
    (hread : d.read line isAlone c = .closed opening) :
    ClosesBody (marks ++ [(line, c)]) opening.line line := by
  rw [read_eq] at hread
  split at hread
  · next found hfound =>
    obtain rfl := Step.closed.inj hread
    split_ifs at hfound with hcloses
    obtain ⟨rfl, hlast⟩ := hcloses
    obtain ⟨before, inner, rfl, houtside, hnothing, hopen, hcount⟩ := h.staysOpen found hfound
    refine ⟨before, inner, [], rfl, houtside, hnothing, hopen, ?_⟩
    -- More braces were open than closed, and at most one was.
    have hmore := hopen _ (List.prefix_refl _) (List.cons_ne_nil _ _)
    rw [closed_concat, opened_concat, if_pos rfl, if_neg (show '}' ≠ '{' by decide)]
    omega
  · cases hread

/-! ## One line -/

/-- The same of all steps along a line. -/
theorem readLine_cases (d : Depth) (line : Nat) (isAlone : Bool) (t : Text) :
    (∃ opening, d.readLine line isAlone t = .closed opening ∧
        (opening = ⟨line, isAlone⟩ ∨ d.opening = some opening)) ∨
      ∃ next, d.readLine line isAlone t = .inside next ∧
        (next.opening = some ⟨line, isAlone⟩ ∨ next.opening = d.opening) := by
  induction t generalizing d with
  | nil => exact .inr ⟨d, rfl, .inr rfl⟩
  | cons c rest ih =>
    rw [readLine]
    rcases d.read_cases line isAlone c with ⟨opening, hopening, hread⟩ | ⟨next, hread, hnext⟩
    · rw [hread]
      exact .inl ⟨opening, rfl, .inr hopening⟩
    · rw [hread]
      rcases ih next with ⟨opening, hclosed, hopening⟩ | ⟨after, hinside, hafter⟩
      · refine .inl ⟨opening, hclosed, ?_⟩
        rcases hopening with hown | hbefore
        · exact .inl hown
        · rcases hnext with hown | hsame
          · exact .inl (Option.some.inj (hbefore.symm.trans hown))
          · exact .inr (hsame.symm.trans hbefore)
      · refine .inr ⟨after, hinside, ?_⟩
        rcases hafter with hown | hbefore
        · exact .inl hown
        · rcases hnext with hown | hsame
          · exact .inl (hbefore.trans hown)
          · exact .inr (hbefore.trans hsame)

theorem Describes.of_readLine {t : Text} (h : d.Describes marks)
    (hread : d.readLine line isAlone t = .inside next) :
    next.Describes (marks ++ t.map (line, ·)) := by
  induction t generalizing d marks with
  | nil =>
    obtain rfl := Step.inside.inj hread
    simpa using h
  | cons c rest ih =>
    rw [readLine] at hread
    cases hstep : d.read line isAlone c with
    | closed opening => simp [hstep] at hread
    | inside behind =>
      rw [hstep] at hread
      simpa using ih (h.of_read hstep) hread

theorem Describes.closesBody_of_readLine {t : Text} (h : d.Describes marks)
    (hread : d.readLine line isAlone t = .closed opening) :
    ClosesBody (marks ++ t.map (line, ·)) opening.line line := by
  induction t generalizing d marks with
  | nil => cases hread
  | cons c rest ih =>
    rw [readLine] at hread
    cases hstep : d.read line isAlone c with
    | closed found =>
      rw [hstep] at hread
      obtain rfl := Step.closed.inj hread
      simpa using (h.closesBody_of_read hstep).append (rest.map (line, ·))
    | inside behind =>
      rw [hstep] at hread
      simpa using ih (h.of_read hstep) hread

end Depth

end LineGuard.Construct
