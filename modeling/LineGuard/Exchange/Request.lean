/-
# Requests

The JSON document in which a program tells the tagged regions it found in a file.
Lines are counted from one in these documents, and from zero everywhere else.

`Request.parse` reads what `Request.print` writes, and is lenient in the ways
such readers are: members that mean nothing here do not matter, and a missing
version is the usual one.
-/

import LineGuard.Analysis
import LineGuard.Comparison.Report
import LineGuard.Json.Reader

namespace LineGuard

namespace Exchange

/-- A region as a request lists it. Lines count from one. -/
structure Entry where
  /-- The position in the list, from zero. -/
  index : Nat
  target : Target
  identifier : Option Text
  permission : Permission
  /-- The reach of the tag as it is spelled. -/
  reach : Text
  declarationLine : Nat
  startLine : Nat
  endLine : Nat
deriving DecidableEq, Repr

/-- The regions found in a file. -/
structure Request where
  version : Text
  filePath : Text
  totalLines : Nat
  entries : List Entry
deriving DecidableEq, Repr

/-- The version of the documents written here. -/
def currentVersion : Text := "1.0".toList

namespace Entry

/-- The entry for a region with the tag line `declaration`. The tag itself is
looked for by line and target among the tags; of several the last counts. -/
def ofRegion (tags : List Tag) (index : Nat) (r : Region) (declaration : Nat) : Entry :=
  let tag := (tags.filter fun tag => tag.line == declaration && tag.target == r.target).getLast?
  { index
    target := r.target
    identifier := tag.bind (·.identifier)
    permission := r.permission
    reach := (tag.elim Reach.unbounded (·.reach)).text
    declarationLine := declaration + 1
    startLine := r.startLine + 1
    endLine := r.endLine + 1 }

/-- The region of an entry. A line number zero counts as one. -/
def region (e : Entry) : Region where
  startLine := e.startLine - 1
  endLine := e.endLine - 1
  target := e.target
  permission := e.permission
  sourceLine := some (e.declarationLine - 1)
  isContext := e.permission.isContext

/-- An entry as JSON. An identifier that is not there is left out. -/
def json (e : Entry) : Json :=
  .record <|
    [("index", .nat e.index), ("target", .text e.target.name)] ++
    (match e.identifier with
      | some identifier => [("identifier", .text identifier)]
      | none => []) ++
    [("permission", .text e.permission.name), ("scope", .text e.reach),
     ("declaration_line", .nat e.declarationLine), ("start_line", .nat e.startLine),
     ("end_line", .nat e.endLine)]

/-- The names of the fields of an entry. -/
def fieldNames : List Text :=
  ["index", "target", "identifier", "permission", "scope", "declaration_line", "start_line",
    "end_line"].map (·.toList)

/-- Reads an entry. -/
def ofJson? (j : Json) : Option Entry := do
  match ← j.fields? fieldNames with
  | [some index, some target, identifier, some permission, some reach, some declarationLine,
      some startLine, some endLine] =>
    return {
      index := ← index.nat?
      target := ← target.constant? Target.ofName?
      identifier := ← identifier.elim (some none) (Json.nullable? Json.text?)
      permission := ← permission.constant? Permission.ofName?
      reach := ← reach.text?
      declarationLine := ← declarationLine.nat?
      startLine := ← startLine.nat?
      endLine := ← endLine.nat? }
  | _ => none

end Entry

namespace Request

/-- The request for some regions; default regions are left out. -/
def ofRegions (filePath : Text) (totalLines : Nat) (tags : List Tag) (regions : List Region) :
    Request where
  version := currentVersion
  filePath
  totalLines
  entries :=
    (regions.filterMap fun r => r.sourceLine.map (r, ·)).zipIdx.map
      fun ((r, declaration), index) => Entry.ofRegion tags index r declaration

/-- The request for the regions of an analysis. -/
def ofAnalysis (filePath : Text) (a : Analysis) : Request :=
  ofRegions filePath a.lineCount a.tags a.regions

/-- The regions a request lists, in its order. -/
def regions (r : Request) : List Region := r.entries.map (·.region)

/-- A request as JSON. -/
def json (r : Request) : Json :=
  .record [
    ("version", .text r.version), ("file_path", .text r.filePath),
    ("total_lines", .nat r.totalLines), ("guard_regions", .array (r.entries.map (·.json)))]

/-- Writes a request. -/
def print (r : Request) : Text := r.json.pretty

/-- The names of the fields of a request. -/
def fieldNames : List Text :=
  ["version", "file_path", "total_lines", "guard_regions"].map (·.toList)

/-- Makes sense of the JSON of a request. -/
def ofJson? (j : Json) : Option Request := do
  match ← j.fields? fieldNames with
  | [version, some filePath, some totalLines, some entries] =>
    return {
      version := ← version.elim (some currentVersion) Json.text?
      filePath := ← filePath.text?
      totalLines := ← totalLines.nat?
      entries := ← entries.list? Entry.ofJson? }
  | _ => none

/-- Reads a request. -/
def parse (t : Text) : Except Problem Request :=
  match (Json.parse? t).bind ofJson? with
  | some request => .ok request
  | none => .error .malformedJson

end Request

end Exchange

/-- Compares an analysis with the regions of a request. -/
def Analysis.compareWith (a : Analysis) (options : Options) (request : Exchange.Request) : Report :=
  Report.compare options.boundaryTolerance a.regions request.regions

end LineGuard
