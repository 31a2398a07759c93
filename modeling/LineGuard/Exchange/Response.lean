/-
# Responses

The JSON document that answers a request: what the comparison comes to, every
discrepancy with the lines of both sides, and how many regions there were. Lines
are counted from one.
-/

import LineGuard.Comparison.Report
import LineGuard.Json.Basic

namespace LineGuard.Exchange

/-- The lines of one side of a discrepancy. -/
def rangeJson (r : Region) : Json :=
  .record [
    ("declaration_line", .optionalNat (r.sourceLine.map (· + 1))),
    ("start_line", .nat (r.startLine + 1)), ("end_line", .nat (r.endLine + 1))]

/-- A discrepancy as JSON. A side that is not there is left out. -/
def discrepancyJson (d : Discrepancy) : Json :=
  let side (name : String) (region : Option Region) : List (String × Json) :=
    (region.map fun r => (name, rangeJson r)).toList
  .record <|
    [("type", .text d.name), ("severity", .text d.severity.name),
     ("target", .text d.target.name), ("message", .text d.message)] ++
    side "engine" d.engine ++ side "external" d.external

/-- A report as JSON. -/
def responseJson (report : Report) : Json :=
  .record [
    ("status", .text report.verdict.name),
    ("discrepancies", .array (report.discrepancies.map discrepancyJson)),
    ("statistics", .record [
      ("engine_regions", .nat report.engineRegions),
      ("external_regions", .nat report.externalRegions), ("matched", .nat report.matched),
      ("errors", .nat report.errors), ("warnings", .nat report.warnings)])]

/-- Writes a report. -/
def printResponse (report : Report) : Text := (responseJson report).pretty

end LineGuard.Exchange
