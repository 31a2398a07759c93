/-
# What can be wrong with an input

Text of a document is never wrong: a tag that does not follow the grammar is
ordinary content, and a scope that cannot be placed stays open. What is left
are words that name nothing, regions handed over in the wrong order, documents
that cannot be read, and syntax trees that do not answer. Each has one cause
here and one wording.
-/

import LineGuard.Text.Basic

namespace LineGuard

/-- Why a request to the library is refused. -/
inductive Problem where
  /-- A region starts before the one in front of it. -/
  | unsortedRegions (index previous current : Nat)
  /-- A word that is no permission. -/
  | invalidPermission (word : Text)
  /-- A word that is no target. -/
  | invalidTarget (word : Text)
  /-- A word that is no report format. -/
  | unknownFormat (word : Text)
  /-- A language table that cannot be used. -/
  | languageTable (reason : Text)
  /-- A document that is not the JSON it has to be. -/
  | malformedJson
  /-- A file that is missing, is not a file, or is not text. -/
  | unreadableFile
  /-- Sources of settings that cannot be read, or say what no setting can be. -/
  | unusableSettings
deriving DecidableEq, Repr

/-- The wording of a problem. -/
def Problem.message : Problem → Text
  | unsortedRegions index previous current =>
    "regions must be sorted by start line: region ".toList ++ Text.numeral index ++
      " starts at ".toList ++ Text.numeral current ++
      ", after a region starting at ".toList ++ Text.numeral previous
  | invalidPermission word =>
    "invalid permission '".toList ++ word ++ "' (expected r, w, n or context)".toList
  | invalidTarget word =>
    "invalid target '".toList ++ word ++ "' (expected ai or human)".toList
  | unknownFormat word => "unknown output format '".toList ++ word ++ "'".toList
  | languageTable reason => "invalid language scope table: ".toList ++ reason
  | malformedJson => "malformed JSON document".toList
  | unreadableFile => "the file cannot be read as text".toList
  | unusableSettings => "the settings cannot be used".toList

/-- Why a syntax tree gives no answer. A tree that cannot answer never stops an
analysis; it only leaves the scope in question to the next way of placing it. -/
inductive TreeFault where
  /-- There is no grammar for the language. -/
  | unavailable (language : Text)
  /-- The query took too long. -/
  | timeout
  /-- The query was refused. -/
  | query (reason : Text)
deriving DecidableEq, Repr

/-- The wording of a tree's failure. -/
def TreeFault.message : TreeFault → Text
  | unavailable language =>
    "no syntax tree available for language '".toList ++ language ++ "'".toList
  | timeout => "syntax tree query timed out".toList
  | query reason => "syntax tree query failed: ".toList ++ reason

end LineGuard
