/-
# Mapping where results may be missing

Some functions have no result for some arguments: a reader of fields, or a computation that
must not leave the range of a machine word. Mapped over a list, such a function has a result
just where it has one for each element, and the result lists them in order.
-/

import Mathlib.Data.List.Basic

namespace LineGuard

variable {α β : Type} {f : α → Option β} {l : List α} {l' : List β}

theorem mapM_eq_some_iff : l.mapM f = some l' ↔ l.map f = l'.map some := by
  induction l generalizing l' with
  | nil =>
    rw [List.mapM_nil, List.map_nil, eq_comm (a := []), List.map_eq_nil_iff]
    exact Option.some_inj.trans eq_comm
  | cons a l ih =>
    rw [List.mapM_cons, List.map_cons, Option.bind_eq_bind, Option.bind_eq_some_iff]
    constructor
    · rintro ⟨b, hb, hrest⟩
      obtain ⟨rest, hl, hl'⟩ := Option.bind_eq_some_iff.mp hrest
      obtain rfl := Option.some.inj hl'
      rw [hb, ih.mp hl, List.map_cons]
    · intro h
      obtain ⟨b, rest, rfl, hb, hrest⟩ := List.map_eq_cons_iff.mp h.symm
      refine ⟨b, hb.symm, Option.bind_eq_some_iff.mpr ⟨rest, ih.mpr hrest.symm, rfl⟩⟩

theorem mapM_eq_none_iff : l.mapM f = none ↔ ∃ a ∈ l, f a = none := by
  induction l with
  | nil => simp
  | cons a l ih =>
    rw [List.mapM_cons, List.exists_mem_cons_iff, ← ih]
    cases f a with
    | none => simp
    | some b => cases l.mapM f <;> simp

theorem mapM_congr_of_forall {g : α → Option β} (h : ∀ a ∈ l, f a = g a) :
    l.mapM f = l.mapM g := by
  apply Option.ext
  intro l'
  rw [mapM_eq_some_iff, mapM_eq_some_iff, List.map_congr_left h]

theorem mapM_eq_some_map {g : α → β} (h : ∀ a ∈ l, f a = some (g a)) :
    l.mapM f = some (l.map g) := by
  rw [mapM_eq_some_iff, List.map_map]
  exact List.map_congr_left h

theorem mapM_map_of_forall {g : β → α} (h : ∀ b ∈ l', f (g b) = some b) :
    (l'.map g).mapM f = some l' := by
  rw [mapM_eq_some_iff, List.map_map]
  exact List.map_congr_left h

theorem exists_of_mem_of_mapM {b : β} (h : l.mapM f = some l') (hb : b ∈ l') :
    ∃ a ∈ l, f a = some b := by
  have hmem : some b ∈ l.map f := mapM_eq_some_iff.mp h ▸ List.mem_map_of_mem hb
  exact List.mem_map.mp hmem

/-- A function that completes another gives the same where there is a result. -/
theorem eq_map_of_mapM {g : α → β} (hg : ∀ a ∈ l, ∀ b, f a = some b → g a = b)
    (h : l.mapM f = some l') : l' = l.map g := by
  have hsome : ∀ a ∈ l, f a = some (g a) := by
    intro a ha
    cases hb : f a with
    | none => cases h.symm.trans (mapM_eq_none_iff.mpr ⟨a, ha, hb⟩)
    | some b => rw [hg a ha b hb]
  exact Option.some.inj (h.symm.trans (mapM_eq_some_map hsome))

end LineGuard
