/-
# Dictionaries in order

A dictionary comes about by inserting entries one after another, and inserting keeps the keys in
ascending order. So no key stands in it twice. A walk through such a dictionary that changes
another one at each key it meets therefore changes no key twice, and what is found at a key
behind the walk depends on what the two dictionaries had at that key alone.
-/

import LineGuard.Text.Dict
import Mathlib.Data.Char
import Mathlib.Data.List.Lex

namespace LineGuard

/-- The order of keys is the lexicographic one. -/
theorem Text.precedes_iff {s t : Text} : precedes s t = true ↔ s < t := by
  induction s generalizing t with
  | nil => cases t <;> simp [precedes]
  | cons c rest ih =>
    cases t with
    | nil => simp [precedes]
    | cons d other =>
      rw [precedes, List.cons_lt_cons_iff, Bool.or_eq_true, Bool.and_eq_true, ih,
        decide_eq_true_iff, beq_iff_eq]
      exact Iff.rfl

namespace Dict

variable {α β : Type} {d : Dict α} {key : Text} {value : α} {entry : Text × α}

/-- The keys of a dictionary ascend. -/
def Ascends (d : Dict α) : Prop := d.Pairwise fun entry later => entry.1 < later.1

theorem mem_of_mem_insert (h : entry ∈ d.insert key value) : entry = (key, value) ∨ entry ∈ d := by
  induction d with
  | nil => exact .inl (List.mem_singleton.mp h)
  | cons first rest ih =>
    obtain ⟨k, a⟩ := first
    rw [insert] at h
    split_ifs at h
    · exact (List.mem_cons.mp h).imp_right (List.mem_cons_of_mem _)
    · exact List.mem_cons.mp h
    · rcases List.mem_cons.mp h with rfl | hrest
      · exact .inr List.mem_cons_self
      · exact (ih hrest).imp_right (List.mem_cons_of_mem _)

theorem Ascends.insert (h : d.Ascends) (key : Text) (value : α) : (d.insert key value).Ascends := by
  induction d with
  | nil => exact List.pairwise_singleton _ _
  | cons first rest ih =>
    obtain ⟨k, a⟩ := first
    obtain ⟨hfirst, hrest⟩ := List.pairwise_cons.mp h
    rw [Dict.insert]
    split_ifs with hsame hbefore
    · subst hsame
      exact List.pairwise_cons.mpr ⟨hfirst, hrest⟩
    · have hlt := Text.precedes_iff.mp hbefore
      refine List.pairwise_cons.mpr ⟨fun later hlater => ?_, h⟩
      rcases List.mem_cons.mp hlater with rfl | hmem
      · exact hlt
      · exact hlt.trans (hfirst later hmem)
    · have hlt : k < key := by
        refine lt_of_le_of_ne (le_of_not_gt fun hgt => hbefore ?_) hsame
        exact Text.precedes_iff.mpr hgt
      refine List.pairwise_cons.mpr ⟨fun later hlater => ?_, ih hrest⟩
      rcases mem_of_mem_insert hlater with rfl | hmem
      · exact hlt
      · exact hfirst later hmem

/-- However entries are listed, the dictionary they make is in order. -/
theorem ascends_ofEntries (entries : List (Text × α)) : (ofEntries entries).Ascends := by
  have hfold (d : Dict α) (hd : d.Ascends) :
      (entries.foldl (fun d entry => d.insert entry.1 entry.2) d).Ascends := by
    induction entries generalizing d with
    | nil => exact hd
    | cons entry rest ih => exact ih _ (hd.insert entry.1 entry.2)
  exact hfold [] List.Pairwise.nil

theorem mem_of_mem_foldl_insert {entries : List (Text × α)}
    (h : entry ∈ entries.foldl (fun d entry => d.insert entry.1 entry.2) d) :
    entry ∈ entries ∨ entry ∈ d := by
  induction entries generalizing d with
  | nil => exact .inr h
  | cons first rest ih =>
    rcases ih h with hrest | hinsert
    · exact .inl (List.mem_cons_of_mem _ hrest)
    · rcases mem_of_mem_insert hinsert with rfl | hd
      · exact .inl List.mem_cons_self
      · exact .inr hd

theorem mem_of_mem_ofEntries {entries : List (Text × α)} (h : entry ∈ ofEntries entries) :
    entry ∈ entries :=
  (mem_of_mem_foldl_insert h).resolve_right List.not_mem_nil

/-! ## Look-ups -/

theorem mem_of_get?_eq_some (h : d.get? key = some value) : (key, value) ∈ d := by
  induction d with
  | nil => cases h
  | cons first rest ih =>
    obtain ⟨k, a⟩ := first
    rw [get?] at h
    split_ifs at h with hkey
    · obtain rfl := Option.some.inj h
      exact hkey ▸ List.mem_cons_self
    · exact List.mem_cons_of_mem _ (ih h)

theorem get?_eq_find? (d : Dict α) (key : Text) :
    d.get? key = (d.find? (·.1 == key)).map Prod.snd := by
  induction d with
  | nil => rfl
  | cons first rest ih =>
    rw [get?, List.find?_cons, ih]
    by_cases hkey : first.1 = key
    · rw [if_pos hkey, beq_iff_eq.mpr hkey]
      rfl
    · rw [if_neg hkey, beq_eq_false_iff_ne.mpr hkey]

theorem get?_eq_none (h : ∀ entry ∈ d, entry.1 ≠ key) : d.get? key = none := by
  cases hget : d.get? key with
  | none => rfl
  | some value => exact absurd rfl (h _ (mem_of_get?_eq_some hget))

/-- A walk through a dictionary in order that changes another dictionary at each key it meets
leaves every other key alone, and changes each of its own but once. -/
theorem get?_foldl_insert {steps : Dict β} (hsteps : steps.Ascends) (change : Option α → β → α)
    (d : Dict α) (key : Text) :
    (steps.foldl (fun d step => d.insert step.1 (change (d.get? step.1) step.2)) d).get? key =
      match steps.get? key with
      | some b => some (change (d.get? key) b)
      | none => d.get? key := by
  induction steps generalizing d with
  | nil => rfl
  | cons first rest ih =>
    obtain ⟨k, b⟩ := first
    obtain ⟨hfirst, hrest⟩ := List.pairwise_cons.mp hsteps
    rw [List.foldl_cons, ih hrest, get?_insert, get?]
    by_cases hkey : k = key
    · subst hkey
      have hnone : get? rest k = none :=
        get?_eq_none fun later hlater => ne_of_gt (hfirst later hlater)
      rw [hnone, if_pos rfl, if_pos rfl]
    · rw [if_neg hkey, if_neg hkey]

end Dict

end LineGuard
