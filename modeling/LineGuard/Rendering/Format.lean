/-
# Report formats

An analysis can be written in four ways: two for people, a table of lines and a
list of regions, and two for programs, which hold everything that was found out.
-/

import LineGuard.Rendering.Table
import LineGuard.Rendering.Yaml

namespace LineGuard

/-- A way of writing an analysis. -/
inductive ReportFormat where
  | table
  | regions
  | json
  | yaml
deriving DecidableEq, Repr

namespace ReportFormat

/-- All formats. -/
def all : List ReportFormat := [table, regions, json, yaml]

/-- The name of a format. -/
def name : ReportFormat → Text
  | table => "table".toList
  | regions => "regions".toList
  | json => "json".toList
  | yaml => "yaml".toList

/-- The format with exactly this name. -/
def ofName? (word : Text) : Option ReportFormat := all.find? (·.name == word)

/-- Reads the name of a format. -/
def parse (word : Text) : Except Problem ReportFormat :=
  match ofName? word with
  | some format => .ok format
  | none => .error (.unknownFormat word)

end ReportFormat

/-- Writes the analysis of a document. -/
def Analysis.render (a : Analysis) (d : Document) : ReportFormat → Text
  | .table => Rendering.table d a.permissions
  | .regions => Rendering.regionList a.regions
  | .json => (Data.ofAnalysis a).json.pretty ++ ['\n']
  | .yaml => Yaml.document (Data.ofAnalysis a)

end LineGuard
