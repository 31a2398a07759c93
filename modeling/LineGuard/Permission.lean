/-
# Targets and permissions

Who a tag speaks to, and what it grants. The two targets are governed
independently of each other throughout the library; whatever is computed, it is
computed once for each.

`context` is not a degree of access. It marks documentation that the target
should read as background, and it is the one permission that ends by itself.
-/

import LineGuard.Problem

namespace LineGuard

/-- Whom a tag applies to. -/
inductive Target where
  | ai
  | human
deriving DecidableEq, Repr

namespace Target

/-- Both targets, in the order reports list them. -/
def all : List Target := [ai, human]

/-- The word for a target. -/
def name : Target → Text
  | ai => "ai".toList
  | human => "human".toList

/-- The position of a target in reports. -/
def rank : Target → Nat
  | ai => 0
  | human => 1

/-- The target with exactly this name. -/
def ofName? (word : Text) : Option Target := all.find? (·.name == word)

/-- Reads a target from a word, whatever its ASCII case and the blanks around
it. -/
def parse (word : Text) : Except Problem Target :=
  let word := Text.lower (Text.trim word)
  match ofName? word with
  | some target => .ok target
  | none => .error (.invalidTarget word)

theorem mem_all (target : Target) : target ∈ all := by cases target <;> decide

theorem rank_injective {first second : Target} (h : first.rank = second.rank) :
    first = second := by
  cases first <;> cases second <;> first | rfl | cases h

theorem ofName?_name (target : Target) : ofName? target.name = some target := by
  cases target <;> decide

end Target

/-- What a tag grants. -/
inductive Permission where
  /-- The lines may be read. -/
  | read
  /-- The lines may be read and changed. -/
  | write
  /-- The lines are off limits. -/
  | deny
  /-- The lines are background to be read. -/
  | context
deriving DecidableEq, Repr

namespace Permission

/-- All permissions. -/
def all : List Permission := [read, write, deny, context]

/-- The spelling of a permission in tags and documents. -/
def name : Permission → Text
  | read => "r".toList
  | write => "w".toList
  | deny => "n".toList
  | context => "context".toList

/-- Whether the permission marks background. -/
def isContext : Permission → Bool
  | context => true
  | _ => false

/-- The permission with exactly this spelling. -/
def ofName? (word : Text) : Option Permission := all.find? (·.name == word)

/-- Reads a permission from a word, whatever its ASCII case and the blanks
around it. -/
def parse (word : Text) : Except Problem Permission :=
  let word := Text.lower (Text.trim word)
  match ofName? word with
  | some permission => .ok permission
  | none => .error (.invalidPermission word)

theorem isContext_iff {permission : Permission} :
    permission.isContext = true ↔ permission = context := by
  cases permission <;> simp [isContext]

theorem ofName?_name (permission : Permission) : ofName? permission.name = some permission := by
  cases permission <;> decide

end Permission

/-- The permissions of lines that no tag governs. -/
structure Defaults where
  /-- What the `ai` target gets. -/
  ai : Permission
  /-- What the `human` target gets. -/
  human : Permission
deriving DecidableEq, Repr

namespace Defaults

/-- Unless configured otherwise, `ai` may read and `human` may write. -/
def standard : Defaults := ⟨.read, .write⟩

/-- The default of one target. -/
def get (defaults : Defaults) : Target → Permission
  | .ai => defaults.ai
  | .human => defaults.human

end Defaults

end LineGuard
