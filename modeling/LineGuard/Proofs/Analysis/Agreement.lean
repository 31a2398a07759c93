/-
# Regions and permissions agree

An analysis computes the regions of a document with a stack and then folds them
into permissions with a sweep that knows nothing of the stack. The two meet
without friction: the regions are always listed by their starts, so the sweep
never refuses them; no two regions of a target share a line, so no line is mixed;
and what the sweep grants on a line is what the one region holding it states.
Nothing is asked of the syntax tree that places the scopes.

That there always is an analysis is meant of lines that are counted without an upper limit,
or in words that wrap around. Both give the same analysis. With checks in place of wrapping
around there is none for some answers of a tree, those that put the body of a background tag
on the greatest line that a word can name; wherever there is one, it is the same again.
-/

import LineGuard.Analysis
import LineGuard.Proofs.PermissionMap.Sweep
import LineGuard.Proofs.Region.Machine
import LineGuard.Proofs.Scope.Bounds

namespace LineGuard

variable (d : Document) (tags : List Tag) (scopes : List Scope) (defaults : Defaults)

namespace Region

theorem pairwise_startLine_build :
    (build d tags scopes defaults).Pairwise (·.startLine ≤ ·.startLine) :=
  (pairwise_strictlyBefore_build d tags scopes defaults).imp fun h =>
    h.elim Nat.le_of_lt fun hsame => Nat.le_of_eq hsame.1

/-- Scopes are given to tags one by one. -/
theorem mem_zip_map {tags : List Tag} {place : Tag → Scope} {p : Tag × Scope} :
    p ∈ tags.zip (tags.map place) ↔ p.1 ∈ tags ∧ p.2 = place p.1 := by
  rw [← List.map_prod_left_eq_zip, List.mem_map]
  constructor
  · rintro ⟨tag, htag, rfl⟩
    exact ⟨htag, rfl⟩
  · rintro ⟨htag, hplace⟩
    exact ⟨p.1, htag, by rw [← hplace]⟩

end Region

namespace PermissionMap

variable {d}

/-- One region of a target holds a line, wherever it stands in the list. -/
theorem exists_holders_build (target : Target) {line : Nat} (hline : line < d.lineCount) :
    ∃ r place, (Region.build d tags scopes defaults).filter
        (fun r => r.target == target && r.contains line) = [r] ∧
      holders (Region.build d tags scopes defaults) target line = [(r, place)] := by
  obtain ⟨r, hr⟩ := (Region.tiles_buildFor d tags scopes defaults target).exists_filter_contains
    (Nat.zero_le line) hline
  have hfilter := (Region.filter_contains_build d tags scopes defaults target line).trans hr
  have hholders := map_fst_holders.trans hfilter
  obtain ⟨⟨s, place⟩, hplaced, rfl⟩ := List.map_eq_singleton_iff.mp hholders
  exact ⟨s, place, hfilter, hplaced⟩

variable (d)

/-- Folding the regions of a document gives one entry for each line, mixes nothing,
and grants what the regions state. -/
theorem exists_ofRegions_build :
    ∃ map, ofRegions d.lineCount (Region.build d tags scopes defaults) defaults = .ok map ∧
      map.lines.map (·.line) = List.range d.lineCount ∧ map.mixed = [] ∧
      ∀ target line, line < d.lineCount → ∃ r grants,
        (Region.build d tags scopes defaults).filter
          (fun r => r.target == target && r.contains line) = [r] ∧
        map.lines[line]? = some grants ∧ grants.get target = ⟨r.permission, r.isContext⟩ := by
  refine ⟨_, ofRegions_eq d.lineCount defaults
    (Region.pairwise_startLine_build d tags scopes defaults), ?_, ?_, ?_⟩
  · rw [List.map_map]
    exact List.map_id _
  · refine List.flatMap_eq_nil_iff.mpr fun line hline => ?_
    have hunmixed (target : Target) :
        mixture? line target (holders (Region.build d tags scopes defaults) target line) =
          none := by
      obtain ⟨r, place, _, hholders⟩ := exists_holders_build tags scopes defaults target
        (List.mem_range.mp hline)
      -- A single region cannot bring two tag lines together.
      have hlength := List.length_filterMap_le (·.1.sourceLine) [((r, place) : PlacedRegion)]
      rw [hholders]
      exact if_neg (Nat.not_lt.mpr hlength)
    rw [hunmixed, hunmixed]
    rfl
  · intro target line hline
    obtain ⟨r, place, hfilter, hholders⟩ := exists_holders_build tags scopes defaults target hline
    refine ⟨r, grantsAt (Region.build d tags scopes defaults) defaults line, hfilter, ?_, ?_⟩
    · rw [List.getElem?_map, List.getElem?_range hline]
      rfl
    · rw [get_grantsAt, hholders]
      rfl

end PermissionMap

/-! ## Analyses in machine words -/

namespace Machine

variable {machine : Machine} {Node : Type} [DecidableEq Node] {options : Options}
  {table : LanguageTable} {tree : Option (SyntaxTree Node)} {d : Document}
  {answer : Except Problem Analysis}

/-- Analyses a document, counting lines in machine words. -/
def analyze? (machine : Machine) (options : Options) (table : LanguageTable)
    (tree : Option (SyntaxTree Node)) (d : Document) : Option (Except Problem Analysis) :=
  let tags := d.tags
  let scopes := tags.map ((Analysis.resolver options table tree).resolve d)
  (machine.build? d tags scopes options.defaults).map fun regions => do
    let permissions ← PermissionMap.ofRegions d.lineCount regions options.defaults
    return { lineCount := d.lineCount, tags, scopes, regions, permissions }

theorem eq_ofDocument_of_analyze? (hlines : d.lineCount < Nat.pow 2 64)
    (h : machine.analyze? options table tree d = some answer) :
    answer = Analysis.ofDocument options table tree d := by
  obtain ⟨regions, hregions, rfl⟩ := Option.map_eq_some_iff.mp h
  rw [eq_build hlines hregions]
  rfl

/-- An analysis breaks off at a tag for background whose body is put too far away, and only
a tree can do so. -/
theorem analyze?_eq_none_iff (hlines : d.lineCount < Nat.pow 2 64) :
    machine.analyze? options table tree d = none ↔ machine = .checked ∧
      ∃ tag ∈ d.tags, tag.NamesBody ∧
        ((Analysis.resolver options table tree).resolve d tag).origin = .syntaxTree ∧
        tag.StartsLast ((Analysis.resolver options table tree).resolve d tag) := by
  rw [analyze?, Option.map_eq_none_iff, build?_eq_none_iff]
  refine and_congr_right fun _ => ⟨?_, ?_⟩
  · rintro ⟨p, hzip, hlast⟩
    obtain ⟨htag, hscope⟩ := Region.mem_zip_map.mp hzip
    rw [hscope] at hlast
    have hplaced := Resolver.startLine_lt_or_placedByTree
      (r := Analysis.resolver options table tree) (Document.line_lt_lineCount_of_mem_tags htag)
    rcases hplaced with hlt | ⟨hbody, horigin⟩
    · -- A line of the document is followed by one that a word can name.
      exact absurd hlast.2 (Nat.not_le_of_lt (Nat.lt_of_le_of_lt hlt hlines))
    · exact ⟨p.1, htag, hbody, horigin, hlast⟩
  · rintro ⟨tag, htag, -, -, hlast⟩
    exact ⟨(tag, _), Region.mem_zip_map.mpr ⟨htag, rfl⟩, hlast⟩

end Machine

/-- An analysis always succeeds, whatever the syntax tree answers, and its
permissions are those of its regions.

The same analysis is made in machine words that wrap around. Where sums are checked instead,
it is made unless the tree puts the body of a background tag on the greatest line there is. -/
theorem Analysis.exists_ofDocument_eq_ok {Node : Type} [DecidableEq Node] (options : Options)
    (table : LanguageTable) (tree : Option (SyntaxTree Node)) (d : Document) :
    ∃ a, ofDocument options table tree d = .ok a ∧
      (d.lineCount < Nat.pow 2 64 →
        Machine.wrapping.analyze? options table tree d = some (.ok a) ∧
        (∀ answer, Machine.checked.analyze? options table tree d = some answer →
          answer = .ok a) ∧
        (Machine.checked.analyze? options table tree d = none ↔
          ∃ tag ∈ d.tags, tag.NamesBody ∧
            ((resolver options table tree).resolve d tag).origin = .syntaxTree ∧
            tag.StartsLast ((resolver options table tree).resolve d tag))) ∧
      a.permissions.lines.map (·.line) = List.range d.lineCount ∧ a.permissions.mixed = [] ∧
      ∀ target line, line < d.lineCount → ∃ r grants,
        a.regions.filter (fun r => r.target == target && r.contains line) = [r] ∧
        a.permissions.lines[line]? = some grants ∧
        grants.get target = ⟨r.permission, r.isContext⟩ := by
  obtain ⟨map, hmap, hlines, hmixed, hgrants⟩ := PermissionMap.exists_ofRegions_build d d.tags
    (d.tags.map ((resolver options table tree).resolve d)) options.defaults
  have hok : ofDocument options table tree d = .ok
      { lineCount := d.lineCount
        tags := d.tags
        scopes := d.tags.map ((resolver options table tree).resolve d)
        regions := Region.build d d.tags (d.tags.map ((resolver options table tree).resolve d))
          options.defaults
        permissions := map } := by
    simp only [ofDocument, hmap]
    rfl
  refine ⟨_, hok, fun hwords => ⟨?_, fun answer hanswer => ?_, ?_⟩, hlines, hmixed, hgrants⟩
  · cases hwrapping : Machine.wrapping.analyze? options table tree d with
    | none =>
      have hchecked := ((Machine.analyze?_eq_none_iff hwords).mp hwrapping).1
      cases hchecked
    | some answer => rw [Machine.eq_ofDocument_of_analyze? hwords hwrapping, hok]
  · rw [Machine.eq_ofDocument_of_analyze? hwords hanswer, hok]
  · rw [Machine.analyze?_eq_none_iff hwords, eq_self, true_and]

/-! ### A body too far away -/

/-- A document with one tag, for the background in a body. -/
def bodyAsBackground : Document :=
  .ofText "# @guard:ai:context.body\nx = 1".toList (some "python".toList)

def bodyAsBackgroundTag : Tag := ⟨0, 0, .ai, none, .context, .construct .body [] []⟩

/-- A tree that knows one block only, on the greatest line that a word can name. -/
def farBlock : SyntaxTree Unit where
  nodeAt _ _ := .ok (some ())
  ancestors _ := [()]
  kind _ := "block".toList
  extent _ := ⟨18446744073709551615, 0, 18446744073709551615, 1⟩

theorem Analysis.exists_ofDocument_farBlock :
    bodyAsBackground.lineCount < Nat.pow 2 64 ∧
      ∃ a, ofDocument .standard .builtin (some farBlock) bodyAsBackground = .ok a ∧
        Machine.wrapping.analyze? .standard .builtin (some farBlock) bodyAsBackground =
          some (.ok a) ∧
        Machine.checked.analyze? .standard .builtin (some farBlock) bodyAsBackground = none ∧
        a.permissions.lines.map (·.line) = [0, 1] ∧ a.permissions.mixed = [] := by
  have hlines : bodyAsBackground.lineCount = 2 := by decide +kernel
  have hwords : bodyAsBackground.lineCount < Nat.pow 2 64 := by rw [hlines]; decide
  have hmem : bodyAsBackgroundTag ∈ bodyAsBackground.tags := by decide +kernel
  have hscope : (resolver .standard .builtin (some farBlock)).resolve bodyAsBackground
      bodyAsBackgroundTag =
        ⟨0, 18446744073709551615, some 18446744073709551615, .syntaxTree⟩ := by decide +kernel
  obtain ⟨a, hok, hmachine, hcount, hmixed, -⟩ :=
    exists_ofDocument_eq_ok .standard .builtin (some farBlock) bodyAsBackground
  obtain ⟨hwrapping, -, hchecked⟩ := hmachine hwords
  refine ⟨hwords, a, hok, hwrapping, ?_, ?_, hmixed⟩
  · refine hchecked.mpr ⟨bodyAsBackgroundTag, hmem, ⟨[], [], rfl⟩, ?_, rfl, ?_⟩
    · rw [hscope]
    · rw [hscope]
  · rw [hcount, hlines]
    rfl

end LineGuard
