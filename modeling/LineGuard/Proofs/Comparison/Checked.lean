/-
# Comparing with machine words

A program that compares regions counts lines in machine words, and a sum of two words need not
be one. Here the comparison is carried out as such a program does it: each addition and each
subtraction has a result only if it stays in the range of a word, and one without a result
leaves the whole without one.

Where the lines of our regions are words even when counted from one, and our regions can be
counted, there always is a result, and it is that of the comparison with numbers of any size.
What the other program sends does not matter to this: lines that two regions share are lines of
ours, and what is subtracted is never the greater number.
-/

import LineGuard.Proofs.Comparison.Accounting
import LineGuard.Proofs.MapM
import LineGuard.Proofs.Word

namespace LineGuard

/-- The line numbers of a region are machine words when they are counted from one. -/
structure Region.FitsWords (r : Region) : Prop where
  startLine_lt : r.startLine + 1 < Nat.pow 2 64
  endLine_lt : r.endLine + 1 < Nat.pow 2 64
  sourceLine_lt : ∀ line, r.sourceLine = some line → line + 1 < Nat.pow 2 64

/-- The sides of a discrepancy are regions that were compared. -/
theorem Report.mem_of_mem_discrepancies {tolerance : Nat} {engine external : List Region}
    {d : Discrepancy} (hd : d ∈ (compare tolerance engine external).discrepancies) :
    (∀ r, d.engine = some r → r ∈ engine) ∧ ∀ r, d.external = some r → r ∈ external := by
  have hours {q : Region × Option Region} (hq : q ∈ (pairingOf engine external).ours) :
      q.1 ∈ engine := by
    have hmem := List.mem_map_of_mem (f := (·.1)) hq
    rw [pairingOf, Pairing.map_fst_ours_make] at hmem
    exact (List.mem_filter.mp hmem).1
  have htheirs {r : Region} (hr : r ∈ (pairingOf engine external).pairs.map (·.2) ++
      (pairingOf engine external).unpaired) : r ∈ external :=
    (List.mem_filter.mp ((Pairing.perm_make _ _).mem_iff.mp hr)).1
  rw [discrepancies_compare] at hd
  rcases List.mem_append.mp hd with hd | hd
  · obtain ⟨⟨ours, partner⟩, hq, hd⟩ := List.mem_flatMap.mp hd
    cases partner with
    | none =>
      obtain rfl := List.mem_singleton.mp hd
      have hlacking : ours ∈ engine := hours hq
      refine ⟨fun r hr => Option.some.inj hr ▸ hlacking, fun r hr => ?_⟩
      cases hr
    | some theirs =>
      have hregion : ours ∈ engine := hours hq
      have hpartner : theirs ∈ external := htheirs (List.mem_append_left _
        (List.mem_map_of_mem (f := (·.2)) (Pairing.mem_pairs.mpr hq)))
      rcases Discrepancy.mem_ofPair hd with rfl | rfl | rfl <;>
        exact ⟨fun r hr => Option.some.inj hr ▸ hregion,
          fun r hr => Option.some.inj hr ▸ hpartner⟩
  · obtain ⟨theirs, hunpaired, rfl⟩ := List.mem_map.mp hd
    have hleft : theirs ∈ external := htheirs (List.mem_append_right _ hunpaired)
    refine ⟨fun r hr => ?_, fun r hr => Option.some.inj hr ▸ hleft⟩
    cases hr

namespace Checked

variable {tolerance : Nat} {region ours theirs : Region} {engine external rest free : List Region}

/-! ## Pairing -/

/-- The number of lines that two overlapping regions share. Where the end is in front of the
start the subtraction stops at zero. -/
def sharedLines (r s : Region) : Option Nat := do
  let behind ← Word.add? (min r.endLine s.endLine) 1
  return behind - max r.startLine s.startLine

theorem sharedLines_eq (hours : ours.FitsWords) (theirs : Region) :
    sharedLines ours theirs = some (Pairing.sharedLines ours theirs) := by
  have hbehind : min ours.endLine theirs.endLine + 1 < Nat.pow 2 64 :=
    Nat.lt_of_le_of_lt (Nat.succ_le_succ (Nat.min_le_left _ _)) hours.endLine_lt
  rw [sharedLines, Word.add?_eq_some hbehind]
  rfl

/-- Whether a region with some number of shared lines is preferred to another. -/
def isPreferred (ours a b : Region) (sharedA sharedB : Nat) : Bool :=
  match Pairing.sameDeclaration a ours, Pairing.sameDeclaration b ours with
  | true, false => true
  | false, true => false
  | _, _ => sharedB < sharedA

/-- The partner for a region with the lines they share, and the free regions left. The shared
lines are counted for every region that fits. -/
def partner (ours : Region) : List Region → Option (Option (Region × Nat × List Region))
  | [] => some none
  | theirs :: rest => do
    let found ← partner ours rest
    if Pairing.fits ours theirs then
      let shared ← sharedLines ours theirs
      match found with
      | some (later, sharedLater, others) =>
        if isPreferred ours later theirs sharedLater shared then
          return some (later, sharedLater, theirs :: others)
        else return some (theirs, shared, rest)
      | none => return some (theirs, shared, rest)
    else
      return found.map fun (later, sharedLater, others) => (later, sharedLater, theirs :: others)

theorem partner_eq (hours : ours.FitsWords) (free : List Region) :
    partner ours free = some ((Pairing.partner? ours free).map fun (theirs, left) =>
      (theirs, Pairing.sharedLines ours theirs, left)) := by
  induction free with
  | nil => rfl
  | cons theirs rest ih =>
    rw [partner, ih, Pairing.partner?, sharedLines_eq hours]
    cases hfits : Pairing.fits ours theirs with
    | false => cases Pairing.partner? ours rest <;> simp
    | true =>
      cases Pairing.partner? ours rest with
      | none => simp
      | some found =>
        have hpreferred : isPreferred ours found.1 theirs (Pairing.sharedLines ours found.1)
            (Pairing.sharedLines ours theirs) = Pairing.fitsBetter ours found.1 theirs := rfl
        cases hbetter : Pairing.fitsBetter ours found.1 theirs <;> simp [hpreferred, hbetter]

/-- Gives our regions partners in order, and goes on counting pairs from some number. -/
def make : (matched : Nat) → (ours free : List Region) → Option (Pairing × Nat)
  | matched, [], free => some (⟨[], free⟩, matched)
  | matched, region :: rest, free => do
    match ← partner region free with
    | some (theirs, _, left) =>
      let (pairing, total) ← make (← Word.add? matched 1) rest left
      return ({ pairing with ours := (region, some theirs) :: pairing.ours }, total)
    | none =>
      let (pairing, total) ← make matched rest free
      return ({ pairing with ours := (region, none) :: pairing.ours }, total)

theorem make_eq {ours : List Region} (hours : ∀ r ∈ ours, r.FitsWords) {matched : Nat}
    (hmatched : matched + ours.length < Nat.pow 2 64) (free : List Region) :
    make matched ours free =
      some (Pairing.make ours free, matched + (Pairing.make ours free).pairs.length) := by
  induction ours generalizing matched free with
  | nil => rfl
  | cons region rest ih =>
    obtain ⟨hregion, hrest⟩ := List.forall_mem_cons.mp hours
    rw [List.length_cons] at hmatched
    rw [make, partner_eq hregion]
    rcases Pairing.make_cons region rest free with ⟨theirs, left, hpartner, heq⟩ | ⟨hpartner, heq⟩
    · have hadd : Word.add? matched 1 = some (matched + 1) := Word.add?_eq_some (by omega)
      rw [hpartner, heq]
      simp [hadd, ih hrest (show matched + 1 + rest.length < Nat.pow 2 64 by omega) left,
        Pairing.pairs]
      omega
    · rw [hpartner, heq]
      simp [ih hrest (show matched + rest.length < Nat.pow 2 64 by omega) free, Pairing.pairs]

/-! ## Discrepancies -/

/-- Whether two line numbers are further apart than is tolerated. -/
def differ (tolerance m n : Nat) : Option Bool := do
  return tolerance < (← Word.sub? (max m n) (min m n))

theorem differ_eq (tolerance m n : Nat) :
    differ tolerance m n = some (Discrepancy.differ tolerance m n) := by
  rw [differ, Word.sub?_eq_some (Nat.le_trans (Nat.min_le_left m n) (Nat.le_max_left m n))]
  rfl

/-- How a pair of regions disagrees. -/
def ofPair (tolerance : Nat) (ours theirs : Region) : Option (List Discrepancy) := do
  let permission := if ours.permission = theirs.permission then [] else
    [Discrepancy.permissionMismatch ours theirs]
  if ← differ tolerance ours.startLine theirs.startLine then
    return permission ++ [.startMismatch ours theirs]
  else if ← differ tolerance ours.endLine theirs.endLine then
    return permission ++ [.endMismatch ours theirs]
  else return permission

theorem ofPair_eq (tolerance : Nat) (ours theirs : Region) :
    ofPair tolerance ours theirs = some (Discrepancy.ofPair tolerance ours theirs) := by
  rw [ofPair, differ_eq, differ_eq, Discrepancy.ofPair, Discrepancy.ofBounds?]
  cases Discrepancy.differ tolerance ours.startLine theirs.startLine <;>
    cases Discrepancy.differ tolerance ours.endLine theirs.endLine <;> simp

/-- The discrepancies of one of our regions with the partner it was given. -/
def ofOurs (tolerance : Nat) : Region × Option Region → Option (List Discrepancy)
  | (ours, some theirs) => ofPair tolerance ours theirs
  | (ours, none) => some [.missingInExternal ours]

theorem ofOurs_eq (tolerance : Nat) (q : Region × Option Region) :
    ofOurs tolerance q = some (Report.ofOurs tolerance q) := by
  obtain ⟨ours, partner⟩ := q
  cases partner with
  | none => rfl
  | some theirs => exact ofPair_eq tolerance ours theirs

/-- Compares our regions with those of another program. -/
def compare (tolerance : Nat) (engine external : List Region) : Option Report := do
  let ours := engine.filter (·.isTagged)
  let theirs := external.filter (·.isTagged)
  let (pairing, matched) ← make 0 ours theirs
  let found ← pairing.ours.mapM (ofOurs tolerance)
  return {
    engineRegions := ours.length
    externalRegions := theirs.length
    matched
    discrepancies := found.flatten ++ pairing.unpaired.map .missingInEngine }

theorem compare_eq (tolerance : Nat) (hcount : engine.length < Nat.pow 2 64)
    (hengine : ∀ r ∈ engine, r.FitsWords) (external : List Region) :
    compare tolerance engine external = some (Report.compare tolerance engine external) := by
  have hours : ∀ r ∈ engine.filter (·.isTagged), r.FitsWords := fun r hr =>
    hengine r (List.mem_filter.mp hr).1
  have hlength : 0 + (engine.filter (·.isTagged)).length < Nat.pow 2 64 := by
    have := List.length_filter_le (·.isTagged) engine
    omega
  rw [compare, make_eq hours hlength]
  simp only [Option.bind_eq_bind, Option.bind_some,
    mapM_eq_some_map fun q _ => ofOurs_eq tolerance q, Nat.zero_add, ← List.flatMap_def]
  rfl

/-! ## What is told -/

/-- A region in words, lines counted from one. -/
def describe (r : Region) : Option Text := do
  let first ← Word.add? r.startLine 1
  let last ← Word.add? r.endLine 1
  return r.target.name ++ ':' :: r.permission.name ++ " region at lines ".toList ++
    Text.numeral first ++ '-' :: Text.numeral last

theorem describe_eq (h : region.FitsWords) : describe region = some (Discrepancy.describe region) := by
  rw [describe, Word.add?_eq_some h.startLine_lt, Word.add?_eq_some h.endLine_lt]
  rfl

/-- The wording of a discrepancy. -/
def message : Discrepancy → Option Text
  | .missingInExternal ours => do
    return (← describe ours) ++ " has no counterpart in the external parser".toList
  | .missingInEngine theirs => do
    return (← describe theirs) ++
      " from the external parser has no counterpart in the engine".toList
  | .permissionMismatch ours theirs => do
    return (← describe ours) ++ " is '".toList ++ ours.permission.name ++
      "' in the engine but '".toList ++ theirs.permission.name ++
      "' in the external parser".toList
  | .startMismatch ours theirs => do
    return (← describe ours) ++ " starts on line ".toList ++
      Text.numeral (← Word.add? theirs.startLine 1) ++ " in the external parser".toList
  | .endMismatch ours theirs => do
    return (← describe ours) ++ " ends on line ".toList ++
      Text.numeral (← Word.add? theirs.endLine 1) ++ " in the external parser".toList

/-- Both sides of a discrepancy have lines that are words. -/
def FitsSides (d : Discrepancy) : Prop := ∀ r, d.engine = some r ∨ d.external = some r → r.FitsWords

theorem message_eq {d : Discrepancy} (h : FitsSides d) : message d = some d.message := by
  cases d with
  | missingInExternal ours =>
    rw [message, describe_eq (h ours (.inl rfl))]
    rfl
  | missingInEngine theirs =>
    rw [message, describe_eq (h theirs (.inr rfl))]
    rfl
  | permissionMismatch ours theirs =>
    rw [message, describe_eq (h ours (.inl rfl))]
    rfl
  | startMismatch ours theirs =>
    rw [message, describe_eq (h ours (.inl rfl)),
      Word.add?_eq_some (h theirs (.inr rfl)).startLine_lt]
    rfl
  | endMismatch ours theirs =>
    rw [message, describe_eq (h ours (.inl rfl)),
      Word.add?_eq_some (h theirs (.inr rfl)).endLine_lt]
    rfl

end Checked

end LineGuard
