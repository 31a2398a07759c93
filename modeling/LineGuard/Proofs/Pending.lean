/-
# Lists walked along with the lines

Activations wait for the line on which they take place, and regions for the line
on which they become active. Both walks take from the front of a list whatever
has started by the current line. When the list is sorted by its starts, this takes
everything that has started and leaves everything that has not.
-/

import Mathlib.Data.List.Basic

namespace LineGuard

theorem exists_started_remaining {α : Type} (start : α → Nat) {pending : List α}
    (hsorted : pending.Pairwise (start · ≤ start ·)) (line : Nat) :
    ∃ started remaining, pending = started ++ remaining ∧
      pending.takeWhile (start · ≤ line) = started ∧
      (∀ a ∈ started, start a ≤ line) ∧ ∀ a ∈ remaining, line < start a := by
  induction pending with
  | nil => exact ⟨[], [], rfl, rfl, fun _ h => (nomatch h), fun _ h => (nomatch h)⟩
  | cons a rest ih =>
    obtain ⟨hfirst, hrest⟩ := List.pairwise_cons.mp hsorted
    by_cases ha : start a ≤ line
    · obtain ⟨started, remaining, heq, htake, hstarted, hremaining⟩ := ih hrest
      refine ⟨a :: started, remaining, by rw [heq, List.cons_append], ?_, ?_, hremaining⟩
      · rw [List.takeWhile_cons_of_pos (by simpa using ha), htake]
      · intro b hb
        rcases List.mem_cons.mp hb with rfl | hb
        · exact ha
        · exact hstarted b hb
    · refine ⟨[], a :: rest, rfl, List.takeWhile_cons_of_neg (by simpa using ha),
        fun _ h => (nomatch h), ?_⟩
      -- Nothing behind the first element starts before it.
      intro b hb
      rcases List.mem_cons.mp hb with rfl | hb
      · exact Nat.lt_of_not_le ha
      · have := hfirst b hb
        omega

/-- Of a list in the order of its starts, what starts up to a line comes first, and in the
only order there is if no two elements of it start together. -/
theorem exists_eq_append_of_perm {α : Type} (start : α → Nat) {line : Nat}
    {sorted early late : List α} (hsorted : sorted.Pairwise (start · ≤ start ·))
    (hperm : sorted.Perm (early ++ late)) (hearly : early.Pairwise (start · < start ·))
    (hstarted : ∀ a ∈ early, start a ≤ line) (hlate : ∀ a ∈ late, line < start a) :
    ∃ pending, sorted = early ++ pending ∧ ∀ a ∈ pending, line < start a := by
  obtain ⟨first, pending, rfl, _, hfirst, hpending⟩ := exists_started_remaining start hsorted line
  have hsplit (front back : List α) (hfront : ∀ a ∈ front, start a ≤ line)
      (hback : ∀ a ∈ back, line < start a) :
      (front ++ back).filter (start · ≤ line) = front := by
    rw [List.filter_append, List.filter_eq_self.mpr (by simpa using hfront),
      List.filter_eq_nil_iff.mpr (by simpa using hback), List.append_nil]
  have hsame : first.Perm early := by
    have hfilter := hperm.filter (start · ≤ line)
    rwa [hsplit first pending hfirst hpending, hsplit early late hstarted hlate] at hfilter
  -- The starts differ in one order and so in the other, which makes it strict as well.
  have hstrict : first.Pairwise (start · < start ·) := by
    have hapart := (hsame.symm.pairwise_iff fun h => Ne.symm h).mp (hearly.imp Nat.ne_of_lt)
    exact ((List.pairwise_append.mp hsorted).1.and hapart).imp fun ⟨hle, hne⟩ =>
      Nat.lt_of_le_of_ne hle hne
  refine ⟨pending, ?_, hpending⟩
  rw [hsame.eq_of_pairwise (fun a b _ _ hab hba => absurd hab (Nat.lt_asymm hba)) hstrict hearly]

/-- What holds of the elements of a list in order holds of them in pairs. -/
theorem pairwise_zip_of_pairwise {α β : Type} {R : α → α → Prop} {as : List α} {bs : List β}
    (h : as.Pairwise R) : (as.zip bs).Pairwise fun p q => R p.1 q.1 := by
  rw [List.pairwise_iff_getElem]
  intro i j hi hj hij
  rw [List.getElem_zip, List.getElem_zip]
  exact List.pairwise_iff_getElem.mp h i j _ _ hij

end LineGuard
