/-
# Discrepancies

What two programs can disagree about: a region that only one of them has, and
for a pair of regions the permission, the first line and the last line. Only the
last of these is a mere warning. When already the first lines differ, the last
lines are not compared.
-/

import LineGuard.Region.Basic

namespace LineGuard

/-- How serious a discrepancy is. -/
inductive Severity where
  | warning
  | error
deriving DecidableEq, Repr

/-- The word for a severity. -/
def Severity.name : Severity → Text
  | warning => "warning".toList
  | error => "error".toList

/-- A disagreement between our regions and those of another program. -/
inductive Discrepancy where
  /-- The other program lacks a region of ours. -/
  | missingInExternal (ours : Region)
  /-- We lack a region of the other program. -/
  | missingInEngine (theirs : Region)
  | permissionMismatch (ours theirs : Region)
  | startMismatch (ours theirs : Region)
  | endMismatch (ours theirs : Region)
deriving DecidableEq, Repr

namespace Discrepancy

/-- The word for the kind of a discrepancy. -/
def name : Discrepancy → Text
  | missingInExternal _ => "missing_in_external".toList
  | missingInEngine _ => "missing_in_engine".toList
  | permissionMismatch .. => "permission_mismatch".toList
  | startMismatch .. | endMismatch .. => "boundary_mismatch".toList

def severity : Discrepancy → Severity
  | endMismatch .. => .warning
  | _ => .error

/-- Our region, if there is one. -/
def engine : Discrepancy → Option Region
  | missingInEngine _ => none
  | missingInExternal ours | permissionMismatch ours _ | startMismatch ours _
  | endMismatch ours _ => some ours

/-- The region of the other program, if there is one. -/
def external : Discrepancy → Option Region
  | missingInExternal _ => none
  | missingInEngine theirs | permissionMismatch _ theirs | startMismatch _ theirs
  | endMismatch _ theirs => some theirs

/-- The target both regions speak of. -/
def target : Discrepancy → Target
  | missingInExternal r | missingInEngine r | permissionMismatch r _ | startMismatch r _
  | endMismatch r _ => r.target

/-- A region in words, lines counted from one. -/
def describe (r : Region) : Text :=
  r.target.name ++ ':' :: r.permission.name ++ " region at lines ".toList ++
    Text.numeral (r.startLine + 1) ++ '-' :: Text.numeral (r.endLine + 1)

/-- The wording of a discrepancy. -/
def message : Discrepancy → Text
  | missingInExternal ours => describe ours ++ " has no counterpart in the external parser".toList
  | missingInEngine theirs =>
    describe theirs ++ " from the external parser has no counterpart in the engine".toList
  | permissionMismatch ours theirs =>
    describe ours ++ " is '".toList ++ ours.permission.name ++
      "' in the engine but '".toList ++ theirs.permission.name ++
      "' in the external parser".toList
  | startMismatch ours theirs =>
    describe ours ++ " starts on line ".toList ++ Text.numeral (theirs.startLine + 1) ++
      " in the external parser".toList
  | endMismatch ours theirs =>
    describe ours ++ " ends on line ".toList ++ Text.numeral (theirs.endLine + 1) ++
      " in the external parser".toList

/-- Whether two line numbers are further apart than is tolerated. -/
def differ (tolerance m n : Nat) : Bool := tolerance < max m n - min m n

/-- How a pair of regions disagrees about lines. -/
def ofBounds? (tolerance : Nat) (ours theirs : Region) : Option Discrepancy :=
  if differ tolerance ours.startLine theirs.startLine then some (.startMismatch ours theirs)
  else if differ tolerance ours.endLine theirs.endLine then some (.endMismatch ours theirs)
  else none

/-- How a pair of regions disagrees. -/
def ofPair (tolerance : Nat) (ours theirs : Region) : List Discrepancy :=
  (if ours.permission = theirs.permission then [] else [.permissionMismatch ours theirs]) ++
    (ofBounds? tolerance ours theirs).toList

/-- More tolerance finds no more differences. -/
theorem differ_mono {t t' m n : Nat} (h : t ≤ t') (hd : differ t' m n = true) :
    differ t m n = true := by
  simp only [differ, decide_eq_true_eq] at *
  omega

end Discrepancy

end LineGuard
