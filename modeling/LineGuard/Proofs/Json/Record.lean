/-
# Reading the fields of a record

A reader takes from an object the members with the names it knows. Where these members
stand, and what stands between them, does not matter; only that a name does not occur
twice. So two objects in which the known members are the same, up to their order, are
the same to a reader.
-/

import LineGuard.Json.Reader
import LineGuard.Proofs.MapM
import Mathlib.Data.List.Perm.Basic

namespace LineGuard.Json

/-- An object whose members all have names with a text. -/
def objectOf (members : List (Text × Json)) : Json :=
  .object (members.map fun member => (some member.1, member.2))

/-- The members that a reader of some fields looks at. -/
def known (names : List Text) (members : List (Text × Json)) : List (Text × Json) :=
  members.filter (names.contains ·.1)

/-- Two ways of writing down one record: the same value, or objects in which the known
members are the same up to their order. -/
inductive SameRecord (names : List Text) : Json → Json → Prop where
  | refl (j : Json) : SameRecord names j j
  | object {members members' : List (Text × Json)}
      (known_perm : (known names members).Perm (known names members')) :
      SameRecord names (objectOf members) (objectOf members')

variable {names : List Text} {name : Text} {members members' : List (Text × Json)}

theorem nat?_nat {n : Nat} (h : n < Nat.pow 2 64) : (nat n).nat? = some n := if_pos h

theorem text?_text (t : Text) : (text t).text? = some t := rfl

theorem nullable?_text (t : Text) : (text t).nullable? text? = some (some t) := rfl

theorem constant?_text {α : Type} (ofName? : Text → Option α) (name : Text) :
    (text name).constant? ofName? = ofName? name := rfl

theorem members?_objectOf (members : List (Text × Json)) :
    (objectOf members).members? = some members :=
  mapM_map_of_forall fun _ _ => rfl

theorem fields?_objectOf (names : List Text) (members : List (Text × Json)) :
    (objectOf members).fields? names = names.mapM (field? members) := by
  have hfields : (objectOf members).fields? names =
      ((objectOf members).members?).bind fun members => names.mapM (field? members) := rfl
  rw [hfields, members?_objectOf, Option.bind_some]

/-- The value of a field does not depend on the order of the members that have its
name. -/
theorem field?_eq_of_perm
    (h : (members.filter (·.1 == name)).Perm (members'.filter (·.1 == name))) :
    field? members name = field? members' name := by
  rw [field?, field?]
  generalize members.filter (·.1 == name) = own at h ⊢
  generalize members'.filter (·.1 == name) = own' at h ⊢
  -- A name that occurs twice does so in any order.
  match own, own' with
  | [], own' => rw [h.nil_eq.symm]
  | [member], own' => rw [← List.singleton_perm.mp h]
  | _ :: _ :: _, [] => exact absurd h.length_eq (by simp)
  | _ :: _ :: _, [_] => exact absurd h.length_eq (by simp)
  | _ :: _ :: _, _ :: _ :: _ => rfl

/-- Another value in the place of a member is nothing to fields with other names. -/
theorem field?_replace_of_ne {before after : List (Text × Json)} {field : Text}
    (h : field ≠ name) {value value' : Json} :
    field? (before ++ (field, value) :: after) name =
      field? (before ++ (field, value') :: after) name := by
  have hne : (field == name) = false := beq_false_of_ne h
  simp [field?, hne]

/-- A member gives its name the value it has, or the name occurs elsewhere too. -/
theorem field?_replace (before after : List (Text × Json)) (name : Text) :
    (∀ value, field? (before ++ (name, value) :: after) name = none) ∨
      ∀ value, field? (before ++ (name, value) :: after) name = some (some value) := by
  simp only [field?, List.filter_append, List.filter_cons, beq_self_eq_true, if_true]
  generalize before.filter (·.1 == name) = front
  generalize after.filter (·.1 == name) = back
  match front, back with
  | [], [] => exact .inr fun _ => rfl
  | [], _ :: _ => exact .inl fun _ => rfl
  | [_], _ => exact .inl fun _ => rfl
  | _ :: _ :: _, _ => exact .inl fun _ => rfl

/-- Only the known members matter to a known field. -/
theorem filter_known (hname : name ∈ names) :
    (known names members).filter (·.1 == name) = members.filter (·.1 == name) := by
  rw [known, List.filter_filter]
  refine List.filter_congr fun member _ => ?_
  cases hown : member.1 == name with
  | false => rfl
  | true => simp [eq_of_beq hown, hname]

/-- One record has the same fields however it is written down. -/
theorem SameRecord.fields?_eq {j j' : Json} (h : SameRecord names j j') :
    j.fields? names = j'.fields? names := by
  cases h with
  | refl => rfl
  | object hknown =>
    rw [fields?_objectOf, fields?_objectOf]
    refine mapM_congr_of_forall fun name hname => field?_eq_of_perm ?_
    have hname' := hknown.filter (·.1 == name)
    rwa [filter_known hname, filter_known hname] at hname'

end LineGuard.Json
