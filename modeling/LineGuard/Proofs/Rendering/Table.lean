/-
# Reading the table back

The columns of the table have fixed widths, but nothing keeps their contents within them: a
line number may take more than four digits, and what stands in the last column is a line of
the source with whatever blanks it has. So the table is not read by position. Between any two
columns there is at least one blank whatever their contents, and no number and no cell has a
blank in it, so the words of a row are its cells and then the words of the source.

A cell shows the letter of a grant in a spelling of its own, in which context permission has
more than one letter. It is shown in one letter all the same when a grant is context exactly
if its permission is, and the grants of a map are so when the regions and the defaults are.
-/

import LineGuard.Proofs.PermissionMap.Folding
import LineGuard.Proofs.Text.LineEnding
import LineGuard.Proofs.Text.Word
import LineGuard.Rendering.Table

namespace LineGuard

/-! ## Grants -/

/-- A grant that is background exactly if its permission says so. -/
def Grant.IsCoherent (g : Grant) : Prop := g.isContext = true ↔ g.permission = .context

namespace PermissionMap

variable {regions : List Region} {default : Permission} {target : Target} {line : Nat}

theorem Settles.isCoherent {g : Grant} (h : Settles regions default target line g)
    (hregions : ∀ r ∈ regions, r.isContext = true ↔ r.permission = .context)
    (hdefault : default ≠ .context) : g.IsCoherent := by
  cases h with
  | region holds highest => exact hregions _ (List.mem_of_getElem? holds.listed)
  | default unheld => exact iff_of_false Bool.false_ne_true hdefault

end PermissionMap

theorem Document.notMem_feed_line (d : Document) (number : Nat) : '\n' ∉ d.line number := by
  rw [line, d.lines_eq, List.getElem?_toArray]
  cases hline : (Text.lines d.source)[number]? with
  | none => exact List.not_mem_nil
  | some line => exact Text.notMem_feed_of_mem_lines (List.mem_of_getElem? hline)

namespace Rendering

/-! ## Cells -/

/-- What a cell shows of a line for a target: the letter of the line, with a star behind it
if the line is reported as mixed. -/
inductive Shows (map : PermissionMap) (target : Target) (line : Nat) : Text → Prop
  | plain {letter : Char} (hletter : (map.letters target)[line]? = some letter)
      (hpure : ∀ entry ∈ map.mixed, ¬ (entry.line = line ∧ entry.target = target)) :
      Shows map target line [letter]
  | mixed {letter : Char} {entry : MixedLine} (hletter : (map.letters target)[line]? = some letter)
      (hentry : entry ∈ map.mixed) (hline : entry.line = line) (htarget : entry.target = target) :
      Shows map target line [letter, '*']

theorem cell_eq {g : Grant} (hg : g.IsCoherent) (isMixed : Bool) :
    cell g isMixed = g.letter :: if isMixed then ['*'] else [] := by
  obtain ⟨permission, isContext⟩ := g
  rw [Grant.IsCoherent] at hg
  cases isContext with
  | true => rfl
  | false =>
    cases permission with
    | context => cases hg.mpr rfl
    | read => rfl
    | write => rfl
    | deny => rfl

theorem shows_cell {map : PermissionMap} {target : Target} {line : Nat} {grants : LineGrants}
    (hgrants : map.lines[line]? = some grants) (hcoherent : (grants.get target).IsCoherent) :
    Shows map target line (cell (grants.get target) (map.isMixed line target)) := by
  have hletter : (map.letters target)[line]? = some (grants.get target).letter := by
    rw [PermissionMap.letters, List.getElem?_map, hgrants]
    rfl
  rw [cell_eq hcoherent]
  cases hmixed : map.isMixed line target with
  | false =>
    refine .plain hletter fun entry hentry hsame => ?_
    have hother := List.any_eq_false.mp hmixed entry hentry
    rw [hsame.1, hsame.2] at hother
    simp at hother
  | true =>
    obtain ⟨entry, hentry, hsame⟩ := List.any_eq_true.mp hmixed
    rw [Bool.and_eq_true, beq_iff_eq, beq_iff_eq] at hsame
    exact .mixed hletter hentry hsame.1 hsame.2

theorem isWord_cell {g : Grant} (hg : g.IsCoherent) (isMixed : Bool) :
    Text.IsWord (cell g isMixed) := by
  have hletter : Text.isBlank g.letter = false := by
    rw [Grant.letter]
    split
    · rfl
    · cases g.permission <;> rfl
  rw [cell_eq hg]
  refine ⟨List.cons_ne_nil _ _, List.forall_mem_cons.mpr ⟨hletter, ?_⟩⟩
  cases isMixed with
  | false => exact fun _ h => nomatch h
  | true => exact List.forall_mem_singleton.mpr rfl

/-! ## Rows -/

/-- A row without the line feed that ends it. -/
def rowText (line ai human source : Text) : Text :=
  Text.trimEnd
    (Text.padLeft 4 line ++ "  ".toList ++ Text.padRight 3 ai ++ ' ' ::
      Text.padRight 6 human ++ ' ' :: source)

/-- A text that is all of a line, and has nothing to trim at its end. -/
structure IsRow (row : Text) : Prop where
  feedless : '\n' ∉ row
  trimmed : ∀ c, row.getLast? = some c → Text.isBlank c = false

variable {line ai human source : Text}

theorem words_rowText (hline : Text.IsWord line) (hai : Text.IsWord ai)
    (hhuman : Text.IsWord human) :
    Text.words (rowText line ai human source) = line :: ai :: human :: Text.words source := by
  have hblank : Text.isBlank ' ' = true := rfl
  have hgap : Text.words (Text.padLeft 4 line ++ "  ".toList ++ Text.padRight 3 ai) =
      [line, ai] := by
    rw [show Text.padLeft 4 line ++ "  ".toList ++ Text.padRight 3 ai =
        Text.padLeft 4 line ++ ' ' :: ([] ++ ' ' :: Text.padRight 3 ai) by simp,
      Text.words_append_cons hblank, Text.words_append_cons hblank, Text.words_padLeft,
      Text.words_padRight, hline.words_eq, hai.words_eq]
    rfl
  rw [rowText, Text.words_trimEnd, List.append_assoc _ (' ' :: _), List.cons_append,
    Text.words_append_cons hblank, Text.words_append_cons hblank, hgap, Text.words_padRight,
    hhuman.words_eq]
  rfl

theorem isRow_rowText (hline : Text.IsWord line) (hai : Text.IsWord ai)
    (hhuman : Text.IsWord human) (hsource : '\n' ∉ source) :
    IsRow (rowText line ai human source) where
  feedless h := by
    have hblank : Text.isBlank '\n' = true := rfl
    have hmem := (Text.trimEnd_isPrefix _).subset h
    simp [Text.padLeft, Text.padRight, hline.notMem hblank, hai.notMem hblank,
      hhuman.notMem hblank, hsource] at hmem
  trimmed := Text.not_isBlank_of_getLast?_trimEnd _

/-! ## The table -/

/-- The row of the column names, without its line feed. -/
def headerText : Text := rowText "line".toList "ai".toList "human".toList "source".toList

/-- The row of a line, without its line feed. -/
def lineText (d : Document) (map : PermissionMap) (grants : LineGrants) : Text :=
  rowText (Text.numeral (grants.line + 1)) (cell grants.ai (map.isMixed grants.line .ai))
    (cell grants.human (map.isMixed grants.line .human)) (d.line grants.line)

theorem table_eq_unlines (d : Document) (map : PermissionMap) :
    table d map = Text.unlines (headerText :: map.lines.map (lineText d map)) := by
  rw [table, Text.unlines, List.flatMap_cons, List.flatMap_map]
  rfl

/-- The rows of a table from which everything that it shows can be read. -/
structure ReadsBack (d : Document) (map : PermissionMap) (rows : List Text) : Prop where
  table_eq : table d map = Text.unlines rows
  /-- There is a row for the column names and one for each line. -/
  length_eq : rows.length = d.lineCount + 1
  isRow : ∀ row ∈ rows, IsRow row
  header : ∃ row, rows[0]? = some row ∧
    Text.words row = ["line".toList, "ai".toList, "human".toList, "source".toList]
  words_row : ∀ line < d.lineCount, ∃ row ai human, rows[line + 1]? = some row ∧
    Shows map .ai line ai ∧ Shows map .human line human ∧
      Text.words row = Text.numeral (line + 1) :: ai :: human :: Text.words (d.line line)

/-- A map with one entry for each line, in order, has a table that reads back if all that it
grants is coherent. -/
theorem readsBack_of_isCoherent {d : Document} {map : PermissionMap}
    (hnumbered : map.lines.map (·.line) = List.range d.lineCount)
    (hcoherent : ∀ grants ∈ map.lines, ∀ target, (grants.get target).IsCoherent) :
    ReadsBack d map (headerText :: map.lines.map (lineText d map)) := by
  have hcount : map.lines.length = d.lineCount := by
    simpa using congrArg List.length hnumbered
  have hword {grants : LineGrants} (hgrants : grants ∈ map.lines) (target : Target) :
      Text.IsWord (cell (grants.get target) (map.isMixed grants.line target)) :=
    isWord_cell (hcoherent grants hgrants target) _
  constructor
  case table_eq => exact table_eq_unlines d map
  case length_eq => rw [List.length_cons, List.length_map, hcount]
  case isRow =>
    refine List.forall_mem_cons.mpr ⟨?_, List.forall_mem_map.mpr fun grants hgrants => ?_⟩
    · exact ⟨by decide +kernel, Text.not_isBlank_of_getLast?_trimEnd _⟩
    · exact isRow_rowText (Text.isWord_numeral _) (hword hgrants .ai) (hword hgrants .human)
        (d.notMem_feed_line _)
  case header => exact ⟨headerText, rfl, by decide +kernel⟩
  case words_row =>
    intro line hline
    have hlisted := List.getElem?_eq_getElem (hcount ▸ hline)
    generalize map.lines[line] = grants at hlisted
    have hgrants := List.mem_of_getElem? hlisted
    have hnumber : grants.line = line := by
      have hat := congrArg (·[line]?) hnumbered
      simpa [hlisted, List.getElem?_range hline] using hat
    subst hnumber
    refine ⟨lineText d map grants, _, _, ?_, shows_cell hlisted (hcoherent grants hgrants .ai),
      shows_cell hlisted (hcoherent grants hgrants .human), ?_⟩
    · rw [List.getElem?_cons_succ, List.getElem?_map, hlisted]
      rfl
    · exact words_rowText (Text.isWord_numeral _) (hword hgrants .ai) (hword hgrants .human)

/-- Regions in order, which are background exactly if their permission says so, make a map
whose table reads back. -/
theorem exists_readsBack (d : Document) (regions : List Region) (defaults : Defaults)
    (hsorted : regions.Pairwise (·.startLine ≤ ·.startLine))
    (hregions : ∀ r ∈ regions, r.isContext = true ↔ r.permission = .context)
    (hdefaults : ∀ target, defaults.get target ≠ .context) :
    ∃ map, PermissionMap.ofRegions d.lineCount regions defaults = .ok map ∧
      ∃ rows, ReadsBack d map rows := by
  obtain ⟨map, hmap, hfolds⟩ := PermissionMap.exists_folds d.lineCount defaults hsorted
  refine ⟨map, hmap, _, readsBack_of_isCoherent hfolds.numbered fun grants hgrants target => ?_⟩
  exact (hfolds.settled grants hgrants target).isCoherent hregions (hdefaults target)

/-- A text with a blank line and blanks of several kinds, a carriage return among them. -/
def blankLines : Document :=
  .ofText "let a = 1;\n\u3000\n\tb \rc\u00a0d \nlast".toList none

/-- Two tags that meet on a line, and background for the other target. -/
def crossingRegions : List Region :=
  [⟨0, 2, .ai, .write, some 0, false⟩, ⟨1, 1, .human, .context, some 1, true⟩,
    ⟨2, 9, .ai, .deny, some 2, false⟩]

theorem exists_readsBack_crossingRegions :
    (crossingRegions.Pairwise (·.startLine ≤ ·.startLine) ∧
        (∀ r ∈ crossingRegions, r.isContext = true ↔ r.permission = .context) ∧
        ∀ target, Defaults.standard.get target ≠ .context) ∧
      ∃ map, PermissionMap.ofRegions blankLines.lineCount crossingRegions .standard = .ok map ∧
        (∃ rows, ReadsBack blankLines map rows) ∧
        table blankLines map =
          ("line  ai  human  source\n   1  w   w      let a = 1;\n   2  w   c\n" ++
            "   3  n*  w      \tb \rc\u00a0d\n   4  n   w      last\n").toList := by
  have hsorted : crossingRegions.Pairwise (·.startLine ≤ ·.startLine) := by decide
  have hregions : ∀ r ∈ crossingRegions, r.isContext = true ↔ r.permission = .context := by decide
  have hdefaults : ∀ target, Defaults.standard.get target ≠ .context := by
    intro target
    cases target <;> decide
  obtain ⟨map, hmap, hrows⟩ :=
    exists_readsBack blankLines crossingRegions .standard hsorted hregions hdefaults
  refine ⟨⟨hsorted, hregions, hdefaults⟩, map, hmap, hrows, ?_⟩
  have hfolded : PermissionMap.ofRegions blankLines.lineCount crossingRegions .standard =
      .ok (PermissionMap.ofSorted 4 crossingRegions .standard) := by decide +kernel
  obtain rfl := Except.ok.inj (hmap.symm.trans hfolded)
  decide +kernel

end Rendering

end LineGuard
