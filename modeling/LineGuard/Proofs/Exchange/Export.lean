/-
# Telling what was found

A request made from an analysis loses nothing that a comparison looks at. Written and
read again it lists the tagged regions of the analysis as they are, each with the tag it
is owed to, and the analysis compared with its own request finds nothing to report.

Two facts about the regions of a document carry this. What a region states is stated by
one tag, so the entry found by line and target is the entry of that tag. And no two
regions of a target share a line, so each region can only be paired with itself, however
many of them are owed to one tag.
-/

import LineGuard.Language.Builtin
import LineGuard.Proofs.Analysis.Agreement
import LineGuard.Proofs.Comparison.Verdict
import LineGuard.Proofs.Exchange.RequestRoundTrip
import LineGuard.Proofs.Tag.Scan

namespace LineGuard

/-! ## The regions of a document -/

namespace Region

variable {d : Document} {tags : List Tag} {scopes : List Scope} {defaults : Defaults}
  {r : Region} {line : Nat}

/-- A region owed to a tag line states what a tag of its target on that line does. -/
theorem exists_tag_of_sourceLine (hr : r ∈ build d tags scopes defaults)
    (hsource : r.sourceLine = some line) :
    ∃ tag ∈ tags, tag.line = line ∧ tag.target = r.target ∧ tag.permission = r.permission ∧
      r.isContext = r.permission.isContext := by
  rcases rule_of_mem_buildFor (mem_build.mp hr) with hrule | ⟨tag, htag, htarget, hrule⟩
  · simp [Rule.ofRegion, Rule.ofDefault, hsource] at hrule
  · simp only [Rule.ofRegion, hsource, Rule.mk.injEq, Option.some.injEq] at hrule
    obtain ⟨hpermission, hline, hcontext⟩ := hrule
    exact ⟨tag, htag, hline.symm, htarget, hpermission.symm, hcontext.trans (hpermission ▸ rfl)⟩

theorem startLine_le_endLine_of_mem_build (hr : r ∈ build d tags scopes defaults) :
    r.startLine ≤ r.endLine :=
  (contains_iff.mp (contains_startLine hr)).2

variable (d tags scopes defaults)

/-- No region of a document can be paired with another. -/
theorem pairwise_fits_build :
    (build d tags scopes defaults).Pairwise fun r s => Pairing.fits r s = false := by
  refine (pairwise_strictlyBefore_build d tags scopes defaults).imp_of_mem
    fun {r s} hr hs hbefore => ?_
  rw [Bool.eq_false_iff, ne_eq, Pairing.fits_iff_exists_contains
    (startLine_le_endLine_of_mem_build hr) (startLine_le_endLine_of_mem_build hs)]
  rintro ⟨htarget, line, hrline, hsline⟩
  obtain rfl := eq_of_contains hr hs htarget.symm hrline hsline
  rcases hbefore with hlt | ⟨_, hrank⟩
  · exact Nat.lt_irrefl _ hlt
  · exact Nat.lt_irrefl _ hrank

theorem length_build_le : (build d tags scopes defaults).length ≤ 2 * d.lineCount := by
  have hai := (tiles_buildFor d tags scopes defaults .ai).add_length_le
  have hhuman := (tiles_buildFor d tags scopes defaults .human).add_length_le
  rw [(build_perm d tags scopes defaults).length_eq, List.length_append]
  omega

end Region

/-! ## The lines and tags of a document -/

theorem Text.length_lines_le (t : Text) : (lines t).length ≤ byteLength t := by
  fun_induction lines t with
  | case1 => exact Nat.le_refl _
  | case2 rest ih =>
    have := Char.utf8Size_pos '\n'
    rw [List.length_cons, byteLength_cons]
    omega
  | case3 rest ih =>
    have := Char.utf8Size_pos '\n'
    rw [List.length_cons, byteLength_cons, byteLength_cons]
    omega
  | case4 c rest _ _ hnone ih =>
    have := Char.utf8Size_pos c
    rw [List.length_singleton, byteLength_cons]
    omega
  | case5 c rest _ _ line more hsome ih =>
    rw [hsome] at ih
    rw [List.length_cons, byteLength_cons]
    exact Nat.le_trans ih (Nat.le_add_left _ _)

/-- A text has no more lines than bytes. -/
theorem Document.lineCount_le_byteLength (d : Document) :
    d.lineCount ≤ Text.byteLength d.source := by
  rw [lineCount, d.lines_eq, List.size_toArray]
  exact Text.length_lines_le d.source

/-- No other tag of a document stands on the line of a tag. -/
theorem Document.filter_tags_eq_singleton {d : Document} {tag : Tag} (h : tag ∈ d.tags) :
    d.tags.filter (fun other => other.line == tag.line && other.target == tag.target) = [tag] := by
  have hmem : tag ∈ d.tags.filter fun other =>
      other.line == tag.line && other.target == tag.target := by
    simp [h]
  have hsorted := d.pairwise_line_tags.filter fun other =>
    other.line == tag.line && other.target == tag.target
  have hsame (other : Tag) (hother : other ∈ d.tags.filter fun other =>
      other.line == tag.line && other.target == tag.target) : other.line = tag.line := by
    simp_all
  cases hfound : d.tags.filter fun other =>
      other.line == tag.line && other.target == tag.target with
  | nil => rw [hfound] at hmem; cases hmem
  | cons first rest =>
    rw [hfound] at hmem hsorted hsame
    cases rest with
    | nil => rw [List.mem_singleton.mp hmem]
    | cons second rest =>
      have hlt := (List.pairwise_cons.mp hsorted).1 second List.mem_cons_self
      rw [hsame first List.mem_cons_self,
        hsame second (List.mem_cons_of_mem _ List.mem_cons_self)] at hlt
      exact absurd hlt (Nat.lt_irrefl _)

/-! ## The request for a list of regions -/

namespace Exchange

theorem Entry.region_ofRegion {tags : List Tag} {index declaration : Nat} {r : Region}
    (hsource : r.sourceLine = some declaration) (hcontext : r.isContext = r.permission.isContext) :
    (ofRegion tags index r declaration).region = r := by
  simp [ofRegion, region, ← hsource, ← hcontext]

namespace Request

variable {path : Text} {totalLines : Nat} {tags : List Tag} {regions : List Region} {e : Entry}

/-- The regions with tag lines, together with these. -/
theorem mem_filterMap_sourceLine {r : Region} {declaration : Nat} :
    (r, declaration) ∈ regions.filterMap (fun r => r.sourceLine.map (r, ·)) ↔
      r ∈ regions ∧ r.sourceLine = some declaration := by
  rw [List.mem_filterMap]
  constructor
  · rintro ⟨r', hr, hsource⟩
    obtain ⟨line, hline, heq⟩ := Option.map_eq_some_iff.mp hsource
    obtain ⟨rfl, rfl⟩ := Prod.mk.inj heq
    exact ⟨hr, hline⟩
  · rintro ⟨hr, hsource⟩
    exact ⟨r, hr, by rw [hsource, Option.map_some]⟩

theorem exists_of_mem_entries (he : e ∈ (ofRegions path totalLines tags regions).entries) :
    ∃ r ∈ regions, ∃ declaration index, r.sourceLine = some declaration ∧
      index < regions.length ∧ e = Entry.ofRegion tags index r declaration := by
  obtain ⟨⟨⟨r, declaration⟩, index⟩, hnumbered, rfl⟩ := List.mem_map.mp he
  obtain ⟨hr, hsource⟩ := mem_filterMap_sourceLine.mp (List.fst_mem_of_mem_zipIdx hnumbered)
  have hindex := List.snd_lt_of_mem_zipIdx hnumbered
  have hlength := List.length_filterMap_le (fun r : Region => r.sourceLine.map (r, ·)) regions
  exact ⟨r, hr, declaration, index, hsource, by omega, rfl⟩

theorem map_index_entries : (ofRegions path totalLines tags regions).entries.map (·.index) =
    List.range (ofRegions path totalLines tags regions).entries.length := by
  simp only [ofRegions, List.map_map, List.length_map, List.length_zipIdx, List.range_eq_range']
  exact List.zipIdx_map_snd 0 _

/-- The regions a request lists are the tagged ones. -/
theorem regions_ofRegions
    (hcontext : ∀ r ∈ regions, r.isTagged = true → r.isContext = r.permission.isContext) :
    (ofRegions path totalLines tags regions).regions = regions.filter (·.isTagged) := by
  have hread : ∀ p ∈ (regions.filterMap fun r => r.sourceLine.map (r, ·)).zipIdx,
      (Entry.ofRegion tags p.2 p.1.1 p.1.2).region = p.1.1 := by
    rintro ⟨⟨r, declaration⟩, index⟩ hnumbered
    obtain ⟨hr, hsource⟩ := mem_filterMap_sourceLine.mp (List.fst_mem_of_mem_zipIdx hnumbered)
    exact Entry.region_ofRegion hsource (hcontext r hr (Option.isSome_of_eq_some hsource))
  have htagged : (regions.filterMap fun r => r.sourceLine.map (r, ·)).map (·.1) =
      regions.filter (·.isTagged) := by
    rw [List.map_filterMap, ← List.filterMap_eq_filter]
    refine List.filterMap_congr fun r _ => ?_
    cases hsource : r.sourceLine <;> simp [Option.guard, Region.isTagged, hsource]
  calc (ofRegions path totalLines tags regions).regions
      = (regions.filterMap fun r => r.sourceLine.map (r, ·)).zipIdx.map (·.1.1) := by
        rw [Request.regions, ofRegions, List.map_map]
        exact List.map_congr_left hread
    _ = (regions.filterMap fun r => r.sourceLine.map (r, ·)).map (·.1) := by
        rw [← List.zipIdx_map_fst 0 (regions.filterMap _), List.map_map]
        simp
    _ = regions.filter (·.isTagged) := htagged

/-- A request fits when its lines do and there are not too many regions. -/
theorem fits_ofRegions (htotal : totalLines < Nat.pow 2 64)
    (hlength : regions.length ≤ Nat.pow 2 64)
    (hlines : ∀ r ∈ regions, r.startLine < totalLines ∧ r.endLine < totalLines)
    (htags : ∀ r ∈ regions, ∀ line, r.sourceLine = some line → line < totalLines) :
    (ofRegions path totalLines tags regions).Fits := by
  refine ⟨htotal, fun e he => ?_⟩
  obtain ⟨r, hr, declaration, index, hsource, hindex, rfl⟩ := exists_of_mem_entries he
  have hdeclaration := htags r hr declaration hsource
  obtain ⟨hstart, hend⟩ := hlines r hr
  constructor <;> simp only [Entry.ofRegion] <;> omega

/-- A request tells what an analysis found. -/
structure Tells (r : Request) (a : Analysis) : Prop where
  /-- It lists the tagged regions as they are, in order. -/
  regions_eq : r.regions = a.regions.filter (·.isTagged)
  indexed : r.entries.map (·.index) = List.range r.entries.length
  /-- An entry repeats the one tag that stands on its declaration line for its target. -/
  declared : ∀ e ∈ r.entries, ∃ tag,
    a.tags.filter (fun tag => tag.line + 1 == e.declarationLine && tag.target == e.target) =
      [tag] ∧
    e.identifier = tag.identifier ∧ e.permission = tag.permission ∧ e.reach = tag.reach.text

end Request

end Exchange

/-! ## The request of an analysis -/

namespace Analysis

variable {Node : Type} [DecidableEq Node] (options : Options) (table : LanguageTable)
  (tree : Option (SyntaxTree Node)) (d : Document)

/-- An analysis succeeds, with the tags of the document and regions built from them. -/
theorem exists_ofDocument_build : ∃ a, ofDocument options table tree d = .ok a ∧
    a.lineCount = d.lineCount ∧ a.tags = d.tags ∧
    ∃ scopes, a.regions = Region.build d d.tags scopes options.defaults := by
  obtain ⟨map, hmap, _⟩ := PermissionMap.exists_ofRegions_build d d.tags
    (d.tags.map ((resolver options table tree).resolve d)) options.defaults
  refine ⟨⟨d.lineCount, d.tags, d.tags.map ((resolver options table tree).resolve d), _, map⟩, ?_,
    rfl, rfl, d.tags.map ((resolver options table tree).resolve d), rfl⟩
  simp only [ofDocument, hmap]
  rfl

variable {d} {a : Analysis} {scopes : List Scope} {defaults : Defaults}

theorem tells_ofAnalysis (htags : a.tags = d.tags)
    (hregions : a.regions = Region.build d d.tags scopes defaults) (path : Text) :
    (Exchange.Request.ofAnalysis path a).Tells a where
  regions_eq := by
    refine Exchange.Request.regions_ofRegions fun r hr htagged => ?_
    obtain ⟨line, hline⟩ := Option.isSome_iff_exists.mp htagged
    obtain ⟨_, _, _, _, _, hcontext⟩ := Region.exists_tag_of_sourceLine (hregions ▸ hr) hline
    exact hcontext
  indexed := Exchange.Request.map_index_entries
  declared e he := by
    obtain ⟨r, hr, declaration, index, hsource, _, rfl⟩ :=
      Exchange.Request.exists_of_mem_entries he
    obtain ⟨tag, htag, rfl, htarget, hpermission, _⟩ :=
      Region.exists_tag_of_sourceLine (hregions ▸ hr) hsource
    have hfound := Document.filter_tags_eq_singleton htag
    rw [← htags, htarget] at hfound
    refine ⟨tag, by simpa [Exchange.Entry.ofRegion] using hfound, ?_⟩
    simp [Exchange.Entry.ofRegion, hfound, hpermission]

theorem fits_ofAnalysis (hcount : a.lineCount = d.lineCount)
    (hregions : a.regions = Region.build d d.tags scopes defaults) (path : Text)
    (hlimit : Text.byteLength d.source < Nat.pow 2 63) :
    (Exchange.Request.ofAnalysis path a).Fits := by
  have hlength := Region.length_build_le d d.tags scopes defaults
  have hlines := d.lineCount_le_byteLength
  -- Each line is in one region of each target, so there may be twice as many regions as bytes.
  have hdouble : Nat.pow 2 64 = 2 * Nat.pow 2 63 := rfl
  refine Exchange.Request.fits_ofRegions (by omega) (by rw [hregions]; omega) ?_ ?_
  · intro r hr
    rw [hregions] at hr
    rw [hcount]
    exact ⟨Region.lt_lineCount_of_contains hr (Region.contains_startLine hr),
      Region.lt_lineCount_of_contains hr (Region.contains_endLine hr)⟩
  · intro r hr line hline
    obtain ⟨tag, htag, rfl, _⟩ := Region.exists_tag_of_sourceLine (hregions ▸ hr) hline
    rw [hcount]
    exact Document.line_lt_lineCount_of_mem_tags htag

/-- Regions of a document that are compared with themselves pass. -/
theorem verdict_compare_self (hregions : a.regions = Region.build d d.tags scopes defaults)
    (tolerance : Nat) :
    (Report.compare tolerance a.regions (a.regions.filter (·.isTagged))).verdict = .pass := by
  have hsame : (a.regions.filter (·.isTagged)).filter (·.isTagged) =
      a.regions.filter (·.isTagged) := by
    simp
  refine Report.pass_of_perm_stated (fun r hr => ?_) ?_ (by rw [hsame])
  · exact Region.startLine_le_endLine_of_mem_build (hregions ▸ (List.mem_filter.mp hr).1)
  · rw [hsame, hregions]
    exact (Region.pairwise_fits_build d d.tags scopes defaults).filter _

variable (d)

/-- Every document can be analysed, and the request made from the analysis is read back
as it was written, tells what was found, and is confirmed without a discrepancy under
any options. A request counts in machine words, which is enough for a text of as many
bytes as a machine can address. -/
theorem exists_ofDocument_confirmed (path : Text) :
    ∃ a, ofDocument options table tree d = .ok a ∧
      (Text.byteLength d.source < Nat.pow 2 63 →
        Exchange.Request.parse (Exchange.Request.ofAnalysis path a).print =
          .ok (Exchange.Request.ofAnalysis path a)) ∧
      (Exchange.Request.ofAnalysis path a).Tells a ∧
      ∀ chosen : Options,
        (a.compareWith chosen (Exchange.Request.ofAnalysis path a)).verdict = .pass ∧
        (a.compareWith chosen (Exchange.Request.ofAnalysis path a)).discrepancies = [] ∧
        (a.compareWith chosen (Exchange.Request.ofAnalysis path a)).matched =
          (a.regions.filter (·.isTagged)).length := by
  obtain ⟨a, hok, hcount, htags, scopes, hregions⟩ :=
    exists_ofDocument_build options table tree d
  have htells := tells_ofAnalysis htags hregions path
  refine ⟨a, hok, fun hlimit => ?_, htells, fun chosen => ?_⟩
  · exact Exchange.Request.parse_print (fits_ofAnalysis hcount hregions path hlimit)
  · have hpass := verdict_compare_self hregions chosen.boundaryTolerance
    rw [compareWith, htells.regions_eq]
    exact ⟨hpass, Report.verdict_eq_pass_iff.mp hpass, Report.matched_of_pass hpass⟩

/-- A tag of `ai` whose lines are split by another one, and a tag of `human`. -/
def splitDocument : Document :=
  .ofText "# @guard:ai[owner]:w\nx = 1\n# @guard:ai:n.1\ny = 2\n# @guard:human:n.2\nz = 3\n".toList
    (some "python".toList)

theorem exists_ofDocument_confirmed_split :
    Text.byteLength splitDocument.source < Nat.pow 2 63 ∧
      ∃ a, ofText .standard LanguageTable.builtin splitDocument = .ok a ∧
        Exchange.Request.parse (Exchange.Request.ofAnalysis "a\"b.py".toList a).print =
          .ok (Exchange.Request.ofAnalysis "a\"b.py".toList a) ∧
        (Exchange.Request.ofAnalysis "a\"b.py".toList a).Tells a ∧
        (a.compareWith .standard (Exchange.Request.ofAnalysis "a\"b.py".toList a)).verdict =
          .pass := by
  have hlimit : Text.byteLength splitDocument.source < Nat.pow 2 63 := by decide +kernel
  obtain ⟨a, hok, hparse, htells, hpass⟩ := exists_ofDocument_confirmed .standard
    LanguageTable.builtin (none : Option (SyntaxTree Nat)) splitDocument "a\"b.py".toList
  exact ⟨hlimit, a, hok, hparse hlimit, htells, (hpass .standard).1⟩

end Analysis

end LineGuard
