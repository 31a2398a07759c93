/-
# Writing YAML

Data is written in block style: one field or item a line, the fields of a record
inside another two columns deeper, and the items of a list behind dashes at the
column of the name they belong to. Lists without items are written as brackets.
-/

import LineGuard.Rendering.Data
import LineGuard.Rendering.YamlText

namespace LineGuard.Yaml

/-- Spaces up to a column. -/
def spaces (indent : Nat) : Text := List.replicate indent ' '

mutual

/-- Writes what belongs to a name at a column, from behind the colon to the end
of the line. -/
def value (indent : Nat) : Data → Text
  | .null => " null\n".toList
  | .bool b => if b then " true\n".toList else " false\n".toList
  | .nat n => ' ' :: Text.numeral n ++ ['\n']
  | .text t => ' ' :: scalar indent t ++ ['\n']
  | .list [] => " []\n".toList
  | .list (first :: rest) => '\n' :: items indent (first :: rest)
  | .record [] => [' ', '{', '}', '\n']
  | .record (first :: rest) => '\n' :: fields (indent + 2) (first :: rest)
  | .tagged kind content => ' ' :: '!' :: kind ++ value indent content

/-- Writes the items of a list with their dashes at a column. -/
def items (indent : Nat) : List Data → Text
  | [] => []
  | first :: rest => spaces indent ++ '-' :: item indent first ++ items indent rest

/-- Writes an item, from behind its dash. What an item holds starts on the line
of the dash. -/
def item (indent : Nat) : Data → Text
  | .record ((name, first) :: rest) =>
    ' ' :: name ++ ':' :: value (indent + 2) first ++ fields (indent + 2) rest
  | .list (first :: rest) =>
    " -".toList ++ item (indent + 2) first ++ items (indent + 2) rest
  | .record [] => [' ', '{', '}', '\n']
  | .list [] => " []\n".toList
  | .null => " null\n".toList
  | .bool b => if b then " true\n".toList else " false\n".toList
  | .nat n => ' ' :: Text.numeral n ++ ['\n']
  | .text t => ' ' :: scalar indent t ++ ['\n']
  | .tagged kind content => ' ' :: '!' :: kind ++ value indent content

/-- Writes the fields of a record at a column. -/
def fields (indent : Nat) : List (Text × Data) → Text
  | [] => []
  | (name, first) :: rest =>
    spaces indent ++ name ++ ':' :: value indent first ++ fields indent rest

end

/-- Writes a document. -/
def document : Data → Text
  | .record (first :: rest) => fields 0 (first :: rest)
  | .list (first :: rest) => items 0 (first :: rest)
  | data => (value 0 data).drop 1

end LineGuard.Yaml
