/-
# The language table

For each language the table lists its file extensions and, for each construct,
the kinds of syntax nodes that count as one. A declaration may name a parent
language: its own lists are then added to the inherited ones, and its overriding
lists take their place.

Inheritance is settled when the table is made. It follows the parents until one
is not declared, or has been met before on the way; a circle is cut there, so
every declaration means something.
-/

import LineGuard.Language.KindSet
import LineGuard.Tag.Basic
import LineGuard.Text.Dict
import LineGuard.Text.FileName

namespace LineGuard

/-- The kinds listed for each scope name. -/
abbrev ScopeKinds := Dict (List Text)

/-- A language as declared. -/
structure LanguageDeclaration where
  /-- The language whose lists are inherited. -/
  parent : Option Text
  /-- The file extensions, with or without their dots. -/
  extensions : List Text
  /-- Lists that are added to the inherited ones. -/
  scopes : ScopeKinds
  /-- Lists that replace the inherited ones. -/
  overrides : ScopeKinds
deriving DecidableEq, Repr

namespace LanguageDeclaration

/-- Adds the kinds that are not listed yet, in order. -/
def addKinds (listed kinds : List Text) : List Text :=
  kinds.foldl (fun listed kind => if listed.contains kind then listed else listed ++ [kind]) listed

/-- What a language lists, given what it inherits. -/
def extend (language : LanguageDeclaration) (inherited : ScopeKinds) : ScopeKinds :=
  let added := language.scopes.foldl
    (fun lists (scope, kinds) =>
      lists.insert scope (addKinds ((lists.get? scope).getD []) kinds)) inherited
  language.overrides.foldl (fun lists (scope, kinds) => lists.insert scope kinds) added

/-- What the language `id` lists when the languages `visited` have been met
before. Each step down meets a declared language that was not met before, so as
many steps as there are declarations are always enough. -/
def resolveWithin (declared : Dict LanguageDeclaration) :
    (steps : Nat) → (visited : List Text) → (id : Text) → ScopeKinds
  | 0, _, _ => []
  | steps + 1, visited, id =>
    if visited.contains id then []
    else
      match declared.get? id with
      | none => []
      | some language =>
        language.extend <|
          match language.parent with
          | some parent => resolveWithin declared steps (id :: visited) parent
          | none => []

/-- What the language `id` lists, inheritance included. -/
def resolve (declared : Dict LanguageDeclaration) (id : Text) : ScopeKinds :=
  resolveWithin declared (declared.length + 1) [] id

end LanguageDeclaration

/-- A language with its inheritance settled. -/
structure Language where
  id : Text
  /-- File extensions in lower case, without dots. -/
  extensions : List Text
  scopes : ScopeKinds
deriving DecidableEq, Repr

namespace Language

/-- The kinds listed for a scope name. -/
def kinds (language : Language) (scope : Text) : List Text :=
  (language.scopes.get? scope).getD []

/-- The kinds a modifier stands for: all kinds of the scope it names, or else
the one kind of its name. -/
def expand (language : Option Language) (name : Text) : List Text :=
  match language with
  | some language => if language.scopes.has name then language.kinds name else [name]
  | none => [name]

end Language

/-- The languages by id, in ascending order. -/
structure LanguageTable where
  version : Text
  languages : List Language
deriving DecidableEq, Repr

namespace LanguageTable

/-- The table of some declarations. There has to be at least one. -/
def ofDeclarations (version : Text) (declared : Dict LanguageDeclaration) :
    Except Problem LanguageTable :=
  if declared.isEmpty then .error (.languageTable "no languages defined".toList)
  else .ok {
    version
    languages := declared.map fun (id, language) =>
      { id
        extensions := language.extensions.map fun extension =>
          Text.lower (extension.dropWhile (· == '.'))
        scopes := LanguageDeclaration.resolve declared id } }

/-- The language with an id. -/
def language? (table : LanguageTable) (id : Text) : Option Language :=
  table.languages.find? (·.id == id)

/-- The first language that lists the extension of a path, compared in lower
case. -/
def detect? (table : LanguageTable) (path : Text) : Option Text :=
  (Text.extension? path).bind fun extension =>
    (table.languages.find? (·.extensions.contains (Text.lower extension))).map (·.id)

/-- The kinds that count as a construct in a language, with modifiers applied:
first all additions, then all removals. A language that is not in the table
contributes nothing. -/
def kindSet (table : LanguageTable) (language : Option Text)
    (keyword : Construct.Keyword) (added removed : List Text) : KindSet :=
  let language := language.bind table.language?
  let listed :=
    match language with
    | some language => language.kinds keyword.name
    | none => []
  ((KindSet.ofList listed).insertAll (added.flatMap (Language.expand language))).eraseAll
    (removed.flatMap (Language.expand language))

end LanguageTable

end LineGuard
