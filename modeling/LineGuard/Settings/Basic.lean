/-
# Settings

What a user can choose about an analysis: the permissions of lines that no tag
governs, how scopes are placed, the table of languages, and how strict comparisons
are. Settings hold the permissions as words; whether the words are permissions is
found out when the options of an analysis are made of them.
-/

import LineGuard.Analysis
import LineGuard.Settings.Value

namespace LineGuard

/-- What a user can choose. -/
structure Settings where
  /-- The word for the permission of the `ai` target. -/
  ai : Text
  /-- The word for the permission of the `human` target. -/
  human : Text
  scanWindow : Nat
  readsText : Bool
  /-- The path of a table of languages. Blank if the built-in one serves. -/
  languageTable : Text
  boundaryTolerance : Nat
deriving DecidableEq, Repr

namespace Settings

/-- The settings that hold unless something else is said, as a table. -/
def builtin : Value := .table [
  ("defaults".toList, .table [
    ("ai".toList, .text "r".toList),
    ("human".toList, .text "w".toList)]),
  ("scopes".toList, .table [
    ("heuristic_fallback".toList, .bool true),
    ("language_table".toList, .text []),
    ("scan_window".toList, .int 10)]),
  ("validation".toList, .table [
    ("boundary_tolerance".toList, .int 0)])]

/-- The settings that a table of sections holds. Everything has to be there, and has
to be what the setting is. -/
def ofValue? (v : Value) : Option Settings := do
  let sections ← v.fields? ["defaults".toList, "scopes".toList, "validation".toList]
  let [defaults, scopes, validation] := sections | none
  let [ai, human] ← defaults.fields? ["ai".toList, "human".toList] | none
  let [window, fallback, table] ← scopes.fields?
    ["scan_window".toList, "heuristic_fallback".toList, "language_table".toList] | none
  let [tolerance] ← validation.fields? ["boundary_tolerance".toList] | none
  return {
    ai := ← ai.toText?
    human := ← human.toText?
    scanWindow := ← window.toNat?
    readsText := ← fallback.toBool?
    languageTable := ← table.toText?
    boundaryTolerance := ← tolerance.toNat? }

/-- The path of the table of languages, if one is chosen. -/
def languageTablePath? (s : Settings) : Option Text :=
  let path := Text.trim s.languageTable
  if path.isEmpty then none else some path

/-- The permission that a word chooses for lines without a tag. Background is never
the default. -/
def defaultPermission (word : Text) : Except Problem Permission := do
  let permission ← Permission.parse word
  if permission.isContext then throw (.invalidPermission word) else return permission

/-- The options of an analysis under some settings. -/
def options (s : Settings) : Except Problem Options := do
  let ai ← defaultPermission s.ai
  let human ← defaultPermission s.human
  return {
    defaults := ⟨ai, human⟩
    scanWindow := s.scanWindow
    readsText := s.readsText
    boundaryTolerance := s.boundaryTolerance }

end Settings

end LineGuard
