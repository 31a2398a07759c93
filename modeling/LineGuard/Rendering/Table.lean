/-
# Tables of lines and of regions

Two texts to be read by people. The table has a row for every line of the
document with the permissions of both targets next to the source; the other text
has a row for every region. Lines are counted from one.
-/

import LineGuard.Analysis

namespace LineGuard.Rendering

/-- A row of the table: columns of fixed width, and no blanks at its end. -/
def row (line ai human source : Text) : Text :=
  Text.trimEnd
    (Text.padLeft 4 line ++ "  ".toList ++ Text.padRight 3 ai ++ ' ' ::
      Text.padRight 6 human ++ ' ' :: source) ++ ['\n']

/-- What the table shows of a grant; a star marks a mixed line. -/
def cell (grant : Grant) (isMixed : Bool) : Text :=
  (if grant.isContext then ['c'] else grant.permission.name) ++ if isMixed then ['*'] else []

/-- The row of a line. -/
def lineRow (d : Document) (map : PermissionMap) (grants : LineGrants) : Text :=
  row (Text.numeral (grants.line + 1)) (cell grants.ai (map.isMixed grants.line .ai))
    (cell grants.human (map.isMixed grants.line .human)) (d.line grants.line)

/-- The table of a document's lines. -/
def table (d : Document) (map : PermissionMap) : Text :=
  row "line".toList "ai".toList "human".toList "source".toList ++
    map.lines.flatMap (lineRow d map)

/-- The row of a region. -/
def regionRow (r : Region) : Text :=
  r.target.name ++ ':' :: r.permission.name ++ " lines ".toList ++
    Text.numeral (r.startLine + 1) ++ '-' :: Text.numeral (r.endLine + 1) ++ " (".toList ++
    (match r.sourceLine with
      | some line => "tag on line ".toList ++ Text.numeral (line + 1)
      | none => "default".toList) ++ ")\n".toList

/-- The list of regions. -/
def regionList (regions : List Region) : Text := regions.flatMap regionRow

end LineGuard.Rendering
