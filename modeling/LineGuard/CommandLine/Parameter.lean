/-
# Parameters of the command line

A parameter gives a value by name. It is spelled with a long name behind two hyphens,
the value in the next word or behind an equals sign, or with a short name behind one
hyphen, where the value may also follow at once. A word of a single hyphen is a
value; two hyphens alone end the parameters.
-/

import LineGuard.Text.Basic

namespace LineGuard.CommandLine

/-- What can be given by name. -/
inductive Parameter where
  /-- A file with settings. -/
  | settings
  /-- The format of a report. -/
  | format
  /-- The language of the document. -/
  | language
  /-- A file with the regions that another tool has found. -/
  | external
deriving DecidableEq, Repr

namespace Parameter

/-- The long name of a parameter. -/
def longName : Parameter → Text
  | settings => "config".toList
  | format => "format".toList
  | language => "language".toList
  | external => "external".toList

/-- The short name of a parameter. -/
def shortName : Parameter → Char
  | settings => 'c'
  | format => 'f'
  | language => 'l'
  | external => 'e'

end Parameter

/-- What a word means at a place where no value is awaited. -/
inductive Word where
  /-- The end of the parameters. -/
  | separator
  /-- A word that is given by its place. -/
  | operand
  /-- A parameter with its value. -/
  | complete (parameter : Parameter) (value : Text)
  /-- A parameter whose value is the next word. -/
  | awaiting (parameter : Parameter)
  /-- A request for help. -/
  | help
  /-- A request for the version. -/
  | version
  /-- The name of no parameter that there is here. -/
  | unknown
deriving DecidableEq, Repr

namespace Word

/-- What a long name means. Help and version take no value. -/
def ofLong (known : List Parameter) (hasVersion : Bool) (t : Text) : Word :=
  let name := t.takeWhile (· != '=')
  match known.find? (·.longName == name), t.dropWhile (· != '=') with
  | some parameter, _ :: value => complete parameter value
  | some parameter, [] => awaiting parameter
  | none, [] =>
    if name = "help".toList then help
    else if name = "version".toList ∧ hasVersion then version
    else unknown
  | none, _ :: _ => unknown

/-- What a short name means, and what follows it in the word. -/
def ofShort (known : List Parameter) (hasVersion : Bool) (name : Char) (rest : Text) : Word :=
  match known.find? (·.shortName == name), rest with
  | some parameter, [] => awaiting parameter
  | some parameter, '=' :: value => complete parameter value
  | some parameter, value => complete parameter value
  | none, _ =>
    if name = 'h' then help
    else if name = 'V' ∧ hasVersion then version
    else unknown

/-- What a word means. -/
def ofText (known : List Parameter) (hasVersion : Bool) : Text → Word
  | ['-', '-'] => separator
  | '-' :: '-' :: rest => ofLong known hasVersion rest
  | '-' :: name :: rest => ofShort known hasVersion name rest
  | _ => operand

example : ofText [.format] false "--format=".toList = complete .format [] ∧
    ofText [.format] false "-fjson".toList = complete .format "json".toList ∧
    ofText [.format] false ['-'] = operand ∧ ofText [] false "-f".toList = unknown := by decide

end Word

/-- Whether a word begins like a parameter, so that it is no value. -/
def isDashed : Text → Bool
  | '-' :: _ :: _ => true
  | _ => false

end LineGuard.CommandLine
