/-
# Answering with machine words

A request may hold any machine words for lines, and an answer counts the lines of both sides
from one. The step back that a request's lines take when it is read, and which stops at zero,
leaves room for the step forward.

So an answer never meets a number that is not a word. Every line a request names is told in the
answer as the request has it, but for zero, which no line has and which is told as one.
-/

import LineGuard.Exchange.Response
import LineGuard.Proofs.Comparison.Checked
import LineGuard.Proofs.Exchange.Export

namespace LineGuard

/-! ## The numbers of a request -/

namespace Json

theorem lt_of_nat?_eq_some {j : Json} {n : Nat} (h : j.nat? = some n) : n < Nat.pow 2 64 := by
  unfold nat? at h
  split at h
  · split at h
    · next hlt => exact Option.some.inj h ▸ hlt
    · cases h
  · cases h

end Json

namespace Exchange

variable {j : Json} {e : Entry} {request : Request}

theorem Entry.fits_of_ofJson? (h : ofJson? j = some e) : e.Fits := by
  unfold ofJson? at h
  obtain ⟨fields, -, h⟩ := Option.bind_eq_some_iff.mp h
  split at h
  · simp only [Option.bind_eq_bind, Option.bind_eq_some_iff] at h
    obtain ⟨index, hindex, target, -, identifier, -, permission, -, reach, -, declarationLine,
      hdeclarationLine, startLine, hstartLine, endLine, hendLine, h⟩ := h
    obtain rfl := Option.some.inj h
    exact ⟨Json.lt_of_nat?_eq_some hindex, Json.lt_of_nat?_eq_some hdeclarationLine,
      Json.lt_of_nat?_eq_some hstartLine, Json.lt_of_nat?_eq_some hendLine⟩
  · cases h

theorem Request.fits_of_ofJson? (h : ofJson? j = some request) : request.Fits := by
  unfold ofJson? at h
  obtain ⟨fields, -, h⟩ := Option.bind_eq_some_iff.mp h
  split at h
  · simp only [Option.bind_eq_bind, Option.bind_eq_some_iff] at h
    obtain ⟨version, -, filePath, -, totalLines, htotal, entries, hentries, h⟩ := h
    obtain rfl := Option.some.inj h
    refine ⟨Json.lt_of_nat?_eq_some htotal, fun e he => ?_⟩
    unfold Json.list? at hentries
    split at hentries
    · obtain ⟨item, -, hitem⟩ := exists_of_mem_of_mapM hentries he
      exact Entry.fits_of_ofJson? hitem
    · cases hentries
  · cases h

/-- Whatever request can be read, its numbers are machine words. -/
theorem Request.fits_of_parse {t : Text} (h : parse t = .ok request) : request.Fits := by
  unfold parse at h
  split at h
  · next hsome =>
    obtain rfl := Except.ok.inj h
    obtain ⟨j, -, hj⟩ := Option.bind_eq_some_iff.mp hsome
    exact Request.fits_of_ofJson? hj
  · cases h

theorem Entry.Fits.region_fitsWords (h : e.Fits) : e.region.FitsWords := by
  have hdeclaration := h.declarationLine_lt
  have hstart := h.startLine_lt
  have hend := h.endLine_lt
  have hpositive : 1 < Nat.pow 2 64 := by decide
  refine ⟨?_, ?_, ?_⟩
  · change e.startLine - 1 + 1 < _
    omega
  · change e.endLine - 1 + 1 < _
    omega
  · intro line hline
    obtain rfl := Option.some.inj hline
    omega

/-- The lines of an entry as an answer tells them. -/
def Entry.echo (e : Entry) : Json :=
  .record [
    ("declaration_line", .nat (max 1 e.declarationLine)), ("start_line", .nat (max 1 e.startLine)),
    ("end_line", .nat (max 1 e.endLine))]

theorem Entry.rangeJson_region (e : Entry) : rangeJson e.region = e.echo := by
  have hback (n : Nat) : n - 1 + 1 = max 1 n := by omega
  simp only [rangeJson, region, echo, Option.map_some, Json.optionalNat, hback]

theorem fields?_external_discrepancyJson (d : Discrepancy) :
    (discrepancyJson d).fields? ["external".toList] = some [d.external.map rangeJson] := by
  cases d <;> rfl

end Exchange

/-! ## The numbers of an analysis -/

namespace Region

variable {d : Document} {scopes : List Scope} {defaults : Defaults} {r : Region}

theorem fitsWords_of_mem_build (hlines : d.lineCount < Nat.pow 2 63)
    (hr : r ∈ build d d.tags scopes defaults) : r.FitsWords := by
  have hdouble : Nat.pow 2 64 = 2 * Nat.pow 2 63 := rfl
  have hstart := lt_lineCount_of_contains hr (contains_startLine hr)
  have hend := lt_lineCount_of_contains hr (contains_endLine hr)
  refine ⟨by omega, by omega, fun line hline => ?_⟩
  obtain ⟨tag, htag, rfl, _⟩ := exists_tag_of_sourceLine hr hline
  have htagLine := Document.line_lt_lineCount_of_mem_tags htag
  omega

end Region

/-! ## The answer -/

namespace Checked

variable {d : Discrepancy} {tolerance : Nat} {engine external : List Region}

/-- The lines of one side of a discrepancy. -/
def rangeJson (r : Region) : Option Json := do
  let declaration ← r.sourceLine.mapM (Word.add? · 1)
  let first ← Word.add? r.startLine 1
  let last ← Word.add? r.endLine 1
  return .record [
    ("declaration_line", .optionalNat declaration), ("start_line", .nat first),
    ("end_line", .nat last)]

theorem rangeJson_eq {r : Region} (h : r.FitsWords) : rangeJson r = some (Exchange.rangeJson r) := by
  have hdeclaration : r.sourceLine.mapM (Word.add? · 1) = some (r.sourceLine.map (· + 1)) := by
    cases hsource : r.sourceLine with
    | none => rfl
    | some line =>
      have hline : Word.add? line 1 = some (line + 1) :=
        Word.add?_eq_some (h.sourceLine_lt line hsource)
      simp [hline]
  rw [rangeJson, hdeclaration, Word.add?_eq_some h.startLine_lt, Word.add?_eq_some h.endLine_lt]
  rfl

/-- A side of a discrepancy as a member; there is none for a side that is not there. -/
def side (name : String) : Option Region → Option (List (String × Json))
  | some r => do return [(name, ← rangeJson r)]
  | none => some []

theorem side_eq {name : String} {region : Option Region}
    (h : ∀ r, region = some r → r.FitsWords) : side name region =
      some (region.map fun r => (name, Exchange.rangeJson r)).toList := by
  cases region with
  | none => rfl
  | some r =>
    rw [side, rangeJson_eq (h r rfl)]
    rfl

/-- A discrepancy as JSON. -/
def discrepancyJson (d : Discrepancy) : Option Json := do
  let message ← message d
  let ours ← side "engine" d.engine
  let theirs ← side "external" d.external
  return .record <|
    [("type", .text d.name), ("severity", .text d.severity.name),
     ("target", .text d.target.name), ("message", .text message)] ++ ours ++ theirs

theorem discrepancyJson_eq (h : FitsSides d) :
    discrepancyJson d = some (Exchange.discrepancyJson d) := by
  rw [discrepancyJson, message_eq h, side_eq fun r hr => h r (.inl hr),
    side_eq fun r hr => h r (.inr hr)]
  rfl

/-- The answer to the comparison of some regions. The warnings are the discrepancies that are
no errors. -/
def responseJson (tolerance : Nat) (engine external : List Region) : Option Json := do
  let report ← compare tolerance engine external
  let warnings ← Word.sub? report.discrepancies.length report.errors
  let discrepancies ← report.discrepancies.mapM discrepancyJson
  let verdict := if 0 < report.errors then Verdict.fail else if 0 < warnings then .warn else .pass
  return .record [
    ("status", .text verdict.name), ("discrepancies", .array discrepancies),
    ("statistics", .record [
      ("engine_regions", .nat report.engineRegions),
      ("external_regions", .nat report.externalRegions), ("matched", .nat report.matched),
      ("errors", .nat report.errors), ("warnings", .nat warnings)])]

theorem responseJson_eq (tolerance : Nat) (hcount : engine.length < Nat.pow 2 64)
    (hengine : ∀ r ∈ engine, r.FitsWords) (hexternal : ∀ r ∈ external, r.FitsWords) :
    responseJson tolerance engine external =
      some (Exchange.responseJson (Report.compare tolerance engine external)) := by
  have haccount := Report.errors_add_warnings (Report.compare tolerance engine external)
  have hwarnings : Word.sub? (Report.compare tolerance engine external).discrepancies.length
      (Report.compare tolerance engine external).errors =
        some (Report.compare tolerance engine external).warnings := by
    rw [Word.sub?_eq_some (by omega)]
    congr 1
    omega
  have hdiscrepancies : ∀ d ∈ (Report.compare tolerance engine external).discrepancies,
      discrepancyJson d = some (Exchange.discrepancyJson d) := by
    intro d hd
    obtain ⟨hours, htheirs⟩ := Report.mem_of_mem_discrepancies hd
    refine discrepancyJson_eq fun r hr => ?_
    rcases hr with hr | hr
    · exact hengine r (hours r hr)
    · exact hexternal r (htheirs r hr)
  rw [responseJson, compare_eq tolerance hcount hengine, Option.bind_eq_bind, Option.bind_some,
    hwarnings, Option.bind_eq_bind, Option.bind_some, mapM_eq_some_map hdiscrepancies]
  simp [Exchange.responseJson, Report.verdict, Report.hasErrors]

end Checked

namespace Analysis

variable {Node : Type} [DecidableEq Node] {options : Options} {table : LanguageTable}
  {tree : Option (SyntaxTree Node)} {d : Document} {a : Analysis} {text : Text}
  {request : Exchange.Request}

theorem regions_eq_build (h : ofDocument options table tree d = .ok a) :
    a.regions = Region.build d d.tags (d.tags.map ((resolver options table tree).resolve d))
      options.defaults := by
  simp only [ofDocument, bind, Except.bind] at h
  split at h
  · cases h
  · obtain rfl := Except.ok.inj h
    rfl

/-- Whatever request is read and whatever the tolerance, the answer from the analysis of a
document is computed without leaving the range of a machine word. The lines it tells of the
other side are those of an entry of the request. -/
theorem checked_compareWith (hrequest : Exchange.Request.parse text = .ok request)
    (ha : ofDocument options table tree d = .ok a) (hlines : d.lineCount < Nat.pow 2 63)
    (chosen : Options) :
    Checked.responseJson chosen.boundaryTolerance a.regions request.regions =
      some (Exchange.responseJson (a.compareWith chosen request)) ∧
    ∀ discrepancy ∈ (a.compareWith chosen request).discrepancies, ∀ theirs,
      discrepancy.external = some theirs → ∃ e ∈ request.entries, theirs = e.region ∧
        (Exchange.discrepancyJson discrepancy).fields? ["external".toList] =
          some [some e.echo] := by
  have hregions := regions_eq_build ha
  constructor
  · refine Checked.responseJson_eq _ ?_ (fun r hr => ?_) fun r hr => ?_
    · have hdouble : Nat.pow 2 64 = 2 * Nat.pow 2 63 := rfl
      have hlength := Region.length_build_le d d.tags
        (d.tags.map ((resolver options table tree).resolve d)) options.defaults
      rw [hregions]
      omega
    · exact Region.fitsWords_of_mem_build hlines (hregions ▸ hr)
    · obtain ⟨e, he, rfl⟩ := List.mem_map.mp hr
      exact ((Exchange.Request.fits_of_parse hrequest).entries_fit e he).region_fitsWords
  · intro discrepancy hmem theirs htheirs
    obtain ⟨e, he, rfl⟩ :=
      List.mem_map.mp ((Report.mem_of_mem_discrepancies hmem).2 theirs htheirs)
    refine ⟨e, he, rfl, ?_⟩
    rw [Exchange.fields?_external_discrepancyJson, htheirs, Option.map_some,
      Exchange.Entry.rangeJson_region]

/-- A tag for two lines. -/
def edgeDocument : Document :=
  .ofText "# @guard:ai:n\nx = 1".toList (some "python".toList)

/-- A region from line zero to the greatest line there is, and one that starts there and ends
on line one. -/
def edgeRequest : Exchange.Request where
  version := Exchange.currentVersion
  filePath := "a.py".toList
  totalLines := 18446744073709551615
  entries :=
    [⟨0, .ai, none, .write, "none".toList, 0, 0, 18446744073709551615⟩,
      ⟨1, .human, none, .deny, "none".toList, 18446744073709551615, 18446744073709551615, 1⟩]

theorem regions_edgeDocument
    (h : ofText .standard LanguageTable.builtin edgeDocument = .ok a) :
    a.regions = [⟨0, 1, .ai, .deny, some 0, false⟩, ⟨0, 1, .human, .write, none, false⟩] := by
  -- The regions are in order before they are sorted.
  rw [regions_eq_build h, Region.build, List.mergeSort_of_pairwise (by decide +kernel)]
  decide +kernel

theorem checked_compareWith_edge :
    Exchange.Request.parse edgeRequest.print = .ok edgeRequest ∧
    edgeDocument.lineCount < Nat.pow 2 63 ∧
    ∃ a, ofText .standard LanguageTable.builtin edgeDocument = .ok a ∧
      Checked.responseJson 0 a.regions edgeRequest.regions =
        some (Exchange.responseJson (a.compareWith .standard edgeRequest)) ∧
      (∀ discrepancy ∈ (a.compareWith .standard edgeRequest).discrepancies, ∀ theirs,
        discrepancy.external = some theirs → ∃ e ∈ edgeRequest.entries, theirs = e.region ∧
          (Exchange.discrepancyJson discrepancy).fields? ["external".toList] =
            some [some e.echo]) ∧
      (a.compareWith .standard edgeRequest).discrepancies.map (·.external) =
        [some ⟨0, 18446744073709551614, .ai, .write, some 0, false⟩,
          some ⟨0, 18446744073709551614, .ai, .write, some 0, false⟩,
          some ⟨18446744073709551614, 0, .human, .deny, some 18446744073709551614, false⟩] := by
  have hfits : edgeRequest.Fits := by
    refine ⟨by decide, fun e he => ?_⟩
    simp only [edgeRequest, List.mem_cons, List.not_mem_nil, or_false] at he
    rcases he with rfl | rfl <;> exact ⟨by decide, by decide, by decide, by decide⟩
  have hparse := Exchange.Request.parse_print hfits
  have hlines : edgeDocument.lineCount < Nat.pow 2 63 := by decide +kernel
  obtain ⟨a, ha, _⟩ := exists_ofDocument_build .standard LanguageTable.builtin
    (none : Option (SyntaxTree Nat)) edgeDocument
  obtain ⟨hanswer, hechoes⟩ := checked_compareWith hparse ha hlines .standard
  refine ⟨hparse, hlines, a, ha, hanswer, hechoes, ?_⟩
  rw [compareWith, regions_edgeDocument ha]
  decide +kernel

end Analysis

end LineGuard
