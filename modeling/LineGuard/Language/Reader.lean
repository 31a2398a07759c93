/-
# Reading a language table

A table is a JSON record of a version and the declared languages by id. A
declaration is a record, all of whose fields may be left out. Where a name
occurs twice in a map, the later entry counts.
-/

import LineGuard.Json.Reader
import LineGuard.Language.Table

namespace LineGuard

/-- A map from names to things. -/
def Json.dict? {α : Type} (value? : Json → Option α) (j : Json) : Option (Dict α) := do
  let entries ← (← j.members?).mapM fun (name, value) => (value? value).map (name, ·)
  return Dict.ofEntries entries

/-- A field that may be left out. -/
def Json.defaulted? {α : Type} (value? : Json → Option α) (default : α) :
    Option Json → Option α
  | none => some default
  | some j => value? j

namespace LanguageDeclaration

/-- Reads a declaration. -/
def ofJson? (j : Json) : Option LanguageDeclaration := do
  let lists := Json.dict? (Json.list? Json.text?)
  let fields ← j.fields? (["extends", "extensions", "scopes", "overrides"].map (·.toList))
  match fields with
  | [parent, extensions, scopes, overrides] =>
    return {
      parent := ← Json.defaulted? (Json.nullable? Json.text?) none parent
      extensions := ← Json.defaulted? (Json.list? Json.text?) [] extensions
      scopes := ← Json.defaulted? lists [] scopes
      overrides := ← Json.defaulted? lists [] overrides }
  | _ => none

end LanguageDeclaration

namespace LanguageTable

/-- The version and the declarations of a table. -/
def declarations? (j : Json) : Option (Text × Dict LanguageDeclaration) := do
  match ← j.fields? (["version", "languages"].map (·.toList)) with
  | [some version, some languages] =>
    return (← version.text?, ← Json.dict? LanguageDeclaration.ofJson? languages)
  | _ => none

/-- Reads a table from its JSON text. -/
def parse (t : Text) : Except Problem LanguageTable :=
  match (Json.parse? t).bind declarations? with
  | some (version, declared) => ofDeclarations version declared
  | none => .error .malformedJson

end LanguageTable

end LineGuard
