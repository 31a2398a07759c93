/-
# Commands by name

The word that names a command decides which parameters may be given behind it and
how many words are given by their place. The word `help` names none of these
commands: it asks for help about one.
-/

import LineGuard.CommandLine.Parameter

namespace LineGuard.CommandLine

/-- The name of a command, without what it is about. -/
inductive Verb where
  | scan
  | exportRegions
  | validate
  | languages
deriving DecidableEq, Repr

namespace Verb

/-- All commands. -/
def all : List Verb := [scan, exportRegions, validate, languages]

/-- The word for a command. -/
def name : Verb → Text
  | scan => "scan".toList
  | exportRegions => "export".toList
  | validate => "validate".toList
  | languages => "languages".toList

/-- The command with a name. -/
def ofName? (word : Text) : Option Verb := all.find? (·.name == word)

/-- The parameters of a command. -/
def parameters : Verb → List Parameter
  | scan => [.settings, .format, .language]
  | exportRegions => [.settings, .language]
  | validate => [.settings, .external, .language]
  | languages => [.settings]

/-- How many words behind a command are given by their place: the path of the
document, if the command is about one. -/
def operandCount : Verb → Nat
  | scan | exportRegions | validate => 1
  | languages => 0

end Verb

/-- What help can be asked for. -/
inductive Topic where
  /-- The tool as a whole. -/
  | tool
  /-- A command. -/
  | command (verb : Verb)
  /-- Help itself. -/
  | help
deriving DecidableEq, Repr

namespace Topic

/-- The word that asks for help. -/
def helpWord : Text := "help".toList

/-- What the words behind the word `help` ask about, if there is such a thing. -/
def ofWords? : List Text → Option Topic
  | [] => some tool
  | [word] => if word = helpWord then some help else (Verb.ofName? word).map command
  | _ => none

end Topic

end LineGuard.CommandLine
