/-
# Permissions line by line

Regions are folded into what each target may do on each line. Regions of one
target may overlap when they do not come from the tags of one document; then the
one declared last governs, by the line of its tag and, for equal lines, by its
place in the list. A line on which two tagged regions of a target meet is called
mixed and reported, which changes nothing about who wins.

The regions have to be listed by start line, because lines and regions are walked
together: a region becomes active at its start and stays so until its end.
-/

import LineGuard.Document
import LineGuard.Region.Basic

namespace LineGuard

/-- What a target may do on a line. -/
structure Grant where
  permission : Permission
  /-- Whether the line is background to be read. -/
  isContext : Bool
deriving DecidableEq, Repr

namespace Grant

/-- What a region grants. -/
def ofRegion (r : Region) : Grant := ⟨r.permission, r.isContext⟩

/-- A permission in one letter. -/
def permissionLetter : Permission → Char
  | .read => 'r'
  | .write => 'w'
  | .deny => 'n'
  | .context => 'c'

/-- A grant in one letter. -/
def letter (g : Grant) : Char := if g.isContext then 'c' else permissionLetter g.permission

end Grant

/-- What both targets may do on a line. -/
structure LineGrants where
  line : Nat
  ai : Grant
  human : Grant
deriving DecidableEq, Repr

/-- What one target may do on a line. -/
def LineGrants.get (grants : LineGrants) : Target → Grant
  | .ai => grants.ai
  | .human => grants.human

/-- A line on which several tagged regions of a target meet. -/
structure MixedLine where
  line : Nat
  target : Target
  /-- The lines of their tags, in the order of the regions. -/
  tagLines : List Nat
deriving DecidableEq, Repr

/-- What both targets may do on every line of a document. -/
structure PermissionMap where
  /-- One entry for each line, in order. -/
  lines : List LineGrants
  /-- The mixed lines by line and, on one line, by target. -/
  mixed : List MixedLine
deriving DecidableEq, Repr

/-- A region with its place in a list. -/
abbrev PlacedRegion := Region × Nat

namespace PermissionMap

/-! ## Active regions -/

/-- The active regions on each of `count` lines from a line on, given those
before it and the regions still to come. -/
def activeFrom : (active pending : List PlacedRegion) → (line count : Nat) →
    List (List PlacedRegion)
  | _, _, _, 0 => []
  | active, pending, line, count + 1 =>
    let started := pending.takeWhile (·.1.startLine ≤ line)
    let active := (active ++ started).filter (line ≤ ·.1.endLine)
    active :: activeFrom active (pending.drop started.length) (line + 1) count

/-- The active regions of a target on each line. -/
def active (regions : List Region) (target : Target) (count : Nat) : List (List PlacedRegion) :=
  activeFrom [] (regions.zipIdx.filter (·.1.target == target)) 0 count

/-! ## Who governs -/

/-- Whether one region governs rather than another: a tag rather than no tag, a
later tag line rather than an earlier one, and of equals the one listed later. -/
def prevails (a b : PlacedRegion) : Bool :=
  match a.1.sourceLine, b.1.sourceLine with
  | some _, none => true
  | none, some _ => false
  | some m, some n => n < m || (m == n && b.2 < a.2)
  | none, none => b.2 < a.2

/-- The governing one of some regions. -/
def governing? : List PlacedRegion → Option PlacedRegion
  | [] => none
  | a :: rest =>
    match governing? rest with
    | some b => if prevails b a then some b else some a
    | none => some a

/-- What active regions of a target grant. -/
def grant (default : Permission) (active : List PlacedRegion) : Grant :=
  match governing? active with
  | some winner => .ofRegion winner.1
  | none => ⟨default, false⟩

/-- The mixture of active regions of a target on a line, if there is one. -/
def mixture? (line : Nat) (target : Target) (active : List PlacedRegion) : Option MixedLine :=
  let tagLines := active.filterMap (·.1.sourceLine)
  if 1 < tagLines.length then some ⟨line, target, tagLines⟩ else none

/-! ## The map -/

/-- The first region that starts before the one in front of it, regions being
numbered onwards from `index`. -/
def disorder? : (index : Nat) → List Region → Option Problem
  | index, a :: b :: rest =>
    if b.startLine < a.startLine then
      some (.unsortedRegions (index + 1) a.startLine b.startLine)
    else disorder? (index + 1) (b :: rest)
  | _, _ => none

/-- Folds regions that are listed by start line into a map of so many lines. -/
def ofSorted (lineCount : Nat) (regions : List Region) (defaults : Defaults) : PermissionMap :=
  let ai := active regions .ai lineCount
  let human := active regions .human lineCount
  { lines := (ai.zip human).zipIdx.map fun ((ai, human), line) =>
      ⟨line, grant defaults.ai ai, grant defaults.human human⟩
    mixed := ((ai.zip human).zipIdx.flatMap fun ((ai, human), line) =>
      (mixture? line .ai ai).toList ++ (mixture? line .human human).toList) }

/-- Folds regions into a map of so many lines. Regions that are not listed by
start line are refused. -/
def ofRegions (lineCount : Nat) (regions : List Region) (defaults : Defaults) :
    Except Problem PermissionMap :=
  match disorder? 0 regions with
  | some problem => .error problem
  | none => .ok (ofSorted lineCount regions defaults)

/-- What a target may do, in one letter for each line. -/
def letters (map : PermissionMap) (target : Target) : Text :=
  map.lines.map fun grants => (grants.get target).letter

/-- Whether a line is mixed for a target. -/
def isMixed (map : PermissionMap) (line : Nat) (target : Target) : Bool :=
  map.mixed.any fun entry => entry.line == line && entry.target == target

end PermissionMap

end LineGuard
