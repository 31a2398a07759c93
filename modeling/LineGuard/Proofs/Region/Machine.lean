/-
# Regions counted in machine words

Only in one place do regions depend on a sum that need not be a word: the documentation of a
context tag is looked for from the line behind the start of its scope, and a scope may start on
the greatest line that a word can name. With checks the regions are not built then. Without
them the search begins at line zero and ends the frame of the tag somewhere it should not, but
the frame is never pushed: no document has the line on which it would be.

So all machines that build the regions of a document build the same, and these are the regions
that are built with numbers of any size.
-/

import LineGuard.Proofs.MapM
import LineGuard.Proofs.Region.Governing
import LineGuard.Proofs.Word
import Mathlib.Data.List.TakeWhile

namespace LineGuard

variable {machine : Machine} {d : Document} {tags : List Tag} {scopes : List Scope}
  {defaults : Defaults} {target : Target} {tag : Tag} {scope : Scope} {a : Activation}
  {regions : List Region}

/-- A context tag whose scope starts on the greatest line that a word can name, or behind it. -/
def Tag.StartsLast (tag : Tag) (scope : Scope) : Prop :=
  tag.permission.isContext = true ∧ Nat.pow 2 64 ≤ scope.startLine + 1

namespace Machine

/-! ## Activations -/

/-- The last line of the documentation behind a scope's start. -/
def contextEnd? (machine : Machine) (d : Document) (tags : List Tag) (scope : Scope) :
    Option Nat :=
  (machine.add? scope.startLine 1).map (Activation.contextEndFrom d tags scope)

/-- How a tag with a scope comes into force. -/
def ofTag? (machine : Machine) (d : Document) (tags : List Tag) (tag : Tag) (scope : Scope) :
    Option Activation :=
  let bound? :=
    if tag.permission.isContext then (machine.contextEnd? d tags scope).map some
    else some scope.endLine
  bound?.map fun bound =>
    { startLine := scope.startLine
      frame := ⟨tag.line, tag.permission, tag.permission.isContext, bound⟩ }

theorem ofTag?_eq_none_iff :
    machine.ofTag? d tags tag scope = none ↔ machine = .checked ∧ tag.StartsLast scope := by
  rw [ofTag?, Option.map_eq_none_iff, Tag.StartsLast]
  cases tag.permission.isContext with
  | false => simp
  | true =>
    rw [if_pos rfl, contextEnd?, Option.map_eq_none_iff, Option.map_eq_none_iff, add?_eq_none_iff,
      eq_self, true_and]

/-- Where the line behind the start is a word, it does not matter how lines are counted. -/
theorem ofTag?_eq_some (h : ¬ tag.StartsLast scope) :
    machine.ofTag? d tags tag scope = some (Activation.ofTag d tags tag scope) := by
  rw [ofTag?, contextEnd?, Activation.ofTag]
  cases hcontext : tag.permission.isContext with
  | false => rfl
  | true =>
    have hword : scope.startLine + 1 < Nat.pow 2 64 :=
      Nat.lt_of_not_le fun hlast => h ⟨hcontext, hlast⟩
    rw [machine.add?_eq_some hword]
    rfl

/-- However its documentation ends, a tag comes into force where its scope starts. -/
theorem startLine_of_ofTag? (h : machine.ofTag? d tags tag scope = some a) :
    a.startLine = scope.startLine ∧ a.frame.tagLine = tag.line := by
  obtain ⟨bound, -, rfl⟩ := Option.map_eq_some_iff.mp h
  exact ⟨rfl, rfl⟩

/-! ## Walking the lines -/

/-- The activations for a target in the order in which they take place. -/
def inOrder? (machine : Machine) (d : Document) (tags : List Tag) (scopes : List Scope)
    (target : Target) : Option (List Activation) :=
  let stated := (tags.zip scopes).filter fun (tag, _) => tag.target == target
  (stated.mapM fun (tag, scope) => machine.ofTag? d tags tag scope).map
    (List.mergeSort · Activation.noLaterThan)

/-- The regions of a document for a target. -/
def buildFor? (machine : Machine) (d : Document) (tags : List Tag) (scopes : List Scope)
    (defaults : Defaults) (target : Target) : Option (List Region) :=
  (machine.inOrder? d tags scopes target).map fun activations =>
    Region.ofRules target 0 <|
      Region.rulesFrom (defaults.get target) [] activations 0 d.lineCount

/-- The regions of a document for both targets. -/
def build? (machine : Machine) (d : Document) (tags : List Tag) (scopes : List Scope)
    (defaults : Defaults) : Option (List Region) :=
  (Target.all.mapM (machine.buildFor? d tags scopes defaults)).map fun built =>
    built.flatten.mergeSort Region.listedBefore

theorem build?_eq_none_iff :
    machine.build? d tags scopes defaults = none ↔
      machine = .checked ∧ ∃ p ∈ tags.zip scopes, p.1.StartsLast p.2 := by
  have hfor (target : Target) : machine.buildFor? d tags scopes defaults target = none ↔
      ∃ p ∈ tags.zip scopes, p.1.target = target ∧ machine = .checked ∧ p.1.StartsLast p.2 := by
    rw [buildFor?, Option.map_eq_none_iff, inOrder?, Option.map_eq_none_iff, mapM_eq_none_iff]
    simp only [List.mem_filter, beq_iff_eq, ofTag?_eq_none_iff, and_assoc]
  rw [build?, Option.map_eq_none_iff, mapM_eq_none_iff]
  constructor
  · rintro ⟨target, -, hnone⟩
    obtain ⟨p, hp, -, hmachine, hlast⟩ := (hfor target).mp hnone
    exact ⟨hmachine, p, hp, hlast⟩
  · rintro ⟨hmachine, p, hp, hlast⟩
    exact ⟨p.1.target, p.1.target.mem_all, (hfor _).mpr ⟨p, hp, rfl, hmachine, hlast⟩⟩

end Machine

/-! ## What is never pushed -/

namespace Region

/-- Activations matter only if they take place on one of the lines. -/
theorem rulesFrom_map_congr {α : Type} {f g : α → Activation} {pending : List α}
    (hstart : ∀ x, (f x).startLine = (g x).startLine) {line count : Nat}
    (hsame : ∀ x ∈ pending, (f x).startLine < line + count → f x = g x) (default : Permission)
    (stack : GuardStack) :
    rulesFrom default stack (pending.map f) line count =
      rulesFrom default stack (pending.map g) line count := by
  induction count generalizing pending line stack with
  | zero => rfl
  | succ count ih =>
    let starts (x : α) : Bool := (g x).startLine ≤ line
    have htakeF : (pending.map f).takeWhile (·.startLine ≤ line) =
        (pending.takeWhile starts).map f := by
      rw [List.takeWhile_map]
      simp only [Function.comp_def, hstart, starts]
    have htakeG : (pending.map g).takeWhile (·.startLine ≤ line) =
        (pending.takeWhile starts).map g := List.takeWhile_map
    have hstarted : (pending.takeWhile starts).map f = (pending.takeWhile starts).map g := by
      refine List.map_congr_left fun x hx => hsame x (List.takeWhile_subset _ hx) ?_
      have hstarts : starts x = true := List.mem_takeWhile_imp hx
      have hline : (g x).startLine ≤ line := of_decide_eq_true hstarts
      rw [hstart]
      omega
    rw [rulesFrom, rulesFrom, htakeF, htakeG, hstarted, ← List.map_drop, ← List.map_drop]
    refine congrArg (_ :: ·) (ih (fun x hx hlt => ?_) _)
    exact hsame x (List.mem_of_mem_drop hx) (by omega)

end Region

namespace Machine

/-- The activation of a tag. Where the machine has none it is taken as it should be. -/
def activation (machine : Machine) (d : Document) (tags : List Tag) (p : Tag × Scope) :
    Activation :=
  (machine.ofTag? d tags p.1 p.2).getD (Activation.ofTag d tags p.1 p.2)

theorem activation_of_ofTag? {p : Tag × Scope} (h : machine.ofTag? d tags p.1 p.2 = some a) :
    machine.activation d tags p = a := by
  rw [activation, h, Option.getD_some]

theorem startLine_activation (p : Tag × Scope) :
    (machine.activation d tags p).startLine = p.2.startLine ∧
      (machine.activation d tags p).frame.tagLine = p.1.line := by
  rw [activation]
  cases h : machine.ofTag? d tags p.1 p.2 with
  | none => exact ⟨rfl, rfl⟩
  | some a => exact startLine_of_ofTag? h

theorem activation_eq_ofTag {p : Tag × Scope} (h : p.2.startLine + 1 < Nat.pow 2 64) :
    machine.activation d tags p = Activation.ofTag d tags p.1 p.2 :=
  activation_of_ofTag? (ofTag?_eq_some fun hlast => Nat.not_lt_of_le hlast.2 h)

/-- What a machine builds is what is built with numbers of any size. -/
theorem eq_buildFor (hlines : d.lineCount < Nat.pow 2 64)
    (h : machine.buildFor? d tags scopes defaults target = some regions) :
    regions = Region.buildFor d tags scopes defaults target := by
  obtain ⟨activations, hactivations, rfl⟩ := Option.map_eq_some_iff.mp h
  obtain ⟨made, hmade, rfl⟩ := Option.map_eq_some_iff.mp hactivations
  rw [Region.buildFor, Tag.inOrder_activations]
  have hmap : made = ((tags.zip scopes).filter fun p => p.1.target == target).map
      (machine.activation d tags) :=
    eq_map_of_mapM (fun _ _ _ => activation_of_ofTag?) hmade
  rw [hmap, Tag.mergeSort_map_stated startLine_activation]
  refine congrArg _ (Region.rulesFrom_map_congr (fun p => (startLine_activation p).1)
    (fun p _ hlt => activation_eq_ofTag ?_) _ [])
  rw [(startLine_activation p).1] at hlt
  omega

theorem eq_build (hlines : d.lineCount < Nat.pow 2 64)
    (h : machine.build? d tags scopes defaults = some regions) :
    regions = Region.build d tags scopes defaults := by
  obtain ⟨built, hbuilt, rfl⟩ := Option.map_eq_some_iff.mp h
  have hmap := eq_map_of_mapM (fun target _ regions hregions => (eq_buildFor hlines hregions).symm)
    hbuilt
  rw [hmap, Region.build, List.flatMap_def]

end Machine

end LineGuard
