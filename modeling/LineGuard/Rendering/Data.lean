/-
# Data to be written out

An analysis is written in two notations for the same data: JSON, and YAML. Both
know records, lists and scalars; where a value is one of several kinds that
carry data, JSON writes an object with the kind as its only name and YAML a tag.
-/

import LineGuard.Analysis
import LineGuard.Json.Basic

namespace LineGuard

/-- Data to be written out. -/
inductive Data where
  | null
  | bool (value : Bool)
  | nat (value : Nat)
  | text (value : Text)
  | list (items : List Data)
  | record (fields : List (Text × Data))
  /-- A kind of value that carries data. -/
  | tagged (kind : Text) (content : Data)

namespace Data

/-- A record with fields named in the program. -/
def fields (entries : List (String × Data)) : Data :=
  record (entries.map fun (name, value) => (name.toList, value))

/-- A number, or null. -/
def optionalNat : Option Nat → Data
  | some n => nat n
  | none => null

/-- A text, or null. -/
def optionalText : Option Text → Data
  | some t => text t
  | none => null

mutual

/-- Data as JSON. -/
def json : Data → Json
  | null => .null
  | bool value => .bool value
  | nat value => .nat value
  | text value => .text value
  | list items => .array (jsonItems items)
  | record fields => .object (jsonFields fields)
  | tagged kind content => .object [(some kind, content.json)]

/-- The items of a list as JSON. -/
def jsonItems : List Data → List Json
  | [] => []
  | item :: items => item.json :: jsonItems items

/-- The fields of a record as JSON. -/
def jsonFields : List (Text × Data) → List (Option Text × Json)
  | [] => []
  | (name, value) :: fields => (some name, value.json) :: jsonFields fields

end

/-! ## The data of an analysis -/

/-- The data of a reach. -/
def ofReach : Reach → Data
  | .unbounded => text "unbounded".toList
  | .lines count => tagged "line_count".toList (nat count)
  | .construct keyword added removed =>
    tagged "semantic".toList <| fields [
      ("kind", text keyword.name), ("add_kinds", list (added.map text)),
      ("remove_kinds", list (removed.map text))]

/-- The data of a tag. -/
def ofTag (tag : Tag) : Data :=
  fields [
    ("line", nat tag.line), ("column", nat tag.column), ("target", text tag.target.name),
    ("identifier", optionalText tag.identifier), ("permission", text tag.permission.name),
    ("scope", ofReach tag.reach)]

/-- The data of a scope. -/
def ofScope (scope : Scope) : Data :=
  fields [
    ("tag_line", nat scope.tagLine), ("start_line", nat scope.startLine),
    ("end_line", optionalNat scope.endLine), ("source", text scope.origin.name)]

/-- The data of a region. -/
def ofRegion (r : Region) : Data :=
  fields [
    ("start_line", nat r.startLine), ("end_line", nat r.endLine), ("target", text r.target.name),
    ("permission", text r.permission.name), ("source_tag_line", optionalNat r.sourceLine),
    ("is_context", bool r.isContext)]

/-- The data of a line's grants. -/
def ofGrants (grants : LineGrants) : Data :=
  fields [
    ("line", nat grants.line), ("ai", text grants.ai.permission.name),
    ("human", text grants.human.permission.name), ("is_context_ai", bool grants.ai.isContext),
    ("is_context_human", bool grants.human.isContext)]

/-- The data of a mixed line. -/
def ofMixedLine (mixed : MixedLine) : Data :=
  fields [
    ("line", nat mixed.line), ("target", text mixed.target.name),
    ("tag_lines", list (mixed.tagLines.map nat))]

/-- The data of a permission map. -/
def ofPermissions (map : PermissionMap) : Data :=
  fields [
    ("lines", list (map.lines.map ofGrants)),
    ("mixed", list (map.mixed.map ofMixedLine))]

/-- The data of an analysis. -/
def ofAnalysis (a : Analysis) : Data :=
  fields [
    ("line_count", nat a.lineCount), ("tags", list (a.tags.map ofTag)),
    ("scopes", list (a.scopes.map ofScope)), ("regions", list (a.regions.map ofRegion)),
    ("permissions", ofPermissions a.permissions)]

end Data

end LineGuard
