/-
# Arguments of the command line

A command line names a command, with parameters in front of it and behind it. Each
parameter may be given once in front and once behind; of a file with settings in both
places the one behind counts. What a command needs has to be there, and nothing may
be left over.

Words are looked at in their order, and the first that is wrong or asks for help
decides. A value that is a word of its own is looked at only when the next parameter
is named or the words end, so what is wrong with the last value in front of a command
is found behind everything that the command is given.
-/

import LineGuard.CommandLine.Verb
import LineGuard.Rendering.Format

namespace LineGuard.CommandLine

/-- What is to be done. -/
inductive Command where
  /-- Report the permissions of a document. -/
  | scan (path : Text) (format : ReportFormat)
  /-- Write the regions of a document for another tool. -/
  | exportRegions (path : Text)
  /-- Compare the regions of a document with those another tool has found. -/
  | validate (path external : Text)
  /-- List the languages. -/
  | languages
deriving DecidableEq, Repr

/-- A command and what is chosen for it. -/
structure Request where
  command : Command
  /-- The language of the document, if it is given. -/
  language : Option Text
  /-- The file with settings, if there is one. -/
  settings : Option Text
deriving DecidableEq, Repr

/-- Why arguments are no request. -/
inductive Refusal where
  /-- They ask for help. -/
  | help (topic : Topic)
  /-- They ask for the version. -/
  | version
  /-- They do not fit any command. -/
  | misuse
deriving DecidableEq, Repr

/-! ## Words in their places -/

/-- A parameter that has been named and not been looked at yet. -/
inductive Pending where
  | nothing
  /-- The next word is its value. -/
  | awaiting (parameter : Parameter)
  | holding (parameter : Parameter) (value : Text)
deriving DecidableEq, Repr

/-- What has been given at one place. -/
structure Given where
  parameters : List (Parameter × Text)
  operands : List Text
deriving DecidableEq, Repr

namespace Given

/-- Nothing. -/
def nothing : Given := ⟨[], []⟩

/-- The value of a parameter. -/
def get? (given : Given) (parameter : Parameter) : Option Text :=
  (given.parameters.find? (·.1 == parameter)).map (·.2)

/-- Whether a parameter can have a value. A format has to be one. -/
def admits (parameter : Parameter) (value : Text) : Bool :=
  parameter != .format || (ReportFormat.ofName? value).isSome

/-- Adds a parameter, which must not have been given before. -/
def add (given : Given) (parameter : Parameter) (value : Text) : Except Refusal Given :=
  if (given.get? parameter).isSome || !admits parameter value then .error .misuse
  else .ok { given with parameters := given.parameters ++ [(parameter, value)] }

/-- Looks at the parameter that has been named. -/
def settle (given : Given) : Pending → Except Refusal Given
  | .nothing => .ok given
  | .awaiting _ => .error .misuse
  | .holding parameter value => given.add parameter value

end Given

/-- Reads the words behind a command. -/
def readBehind (verb : Verb) : Pending → Given → List Text → Except Refusal Given
  | pending, given, [] => given.settle pending
  | .awaiting parameter, given, word :: rest =>
    if isDashed word then .error .misuse else readBehind verb (.holding parameter word) given rest
  | pending, given, word :: rest => do
    let given ← given.settle pending
    match Word.ofText verb.parameters false word with
    | .separator => return { given with operands := given.operands ++ rest }
    | .operand =>
      if given.operands.length < verb.operandCount then
        readBehind verb .nothing { given with operands := given.operands ++ [word] } rest
      else throw .misuse
    | .complete parameter value => readBehind verb .nothing (← given.add parameter value) rest
    | .awaiting parameter => readBehind verb (.awaiting parameter) given rest
    | .help => throw (.help (.command verb))
    | .version | .unknown => throw .misuse

/-- The words up to the name of a command, and those behind it. -/
structure Front where
  given : Given
  pending : Pending
  name : Text
  rest : List Text

/-- Reads the words up to the name of a command. -/
def readFront : Pending → Given → List Text → Except Refusal Front
  | _, _, [] => .error .misuse
  | .awaiting parameter, given, word :: rest =>
    if isDashed word then .error .misuse else readFront (.holding parameter word) given rest
  | pending, given, word :: rest =>
    match Word.ofText [.settings] true word with
    | .operand => .ok ⟨given, pending, word, rest⟩
    | .complete parameter value => do
      readFront .nothing (← (← given.settle pending).add parameter value) rest
    | .awaiting parameter => do readFront (.awaiting parameter) (← given.settle pending) rest
    | .help => do let _ ← given.settle pending; throw (.help .tool)
    | .version => do let _ ← given.settle pending; throw .version
    | .separator | .unknown => .error .misuse

/-! ## Requests -/

/-- The command that is given. Reports are tables unless something else is said. -/
def Verb.command? (verb : Verb) (given : Given) : Option Command :=
  match verb, given.operands with
  | scan, [path] =>
    (ReportFormat.ofName? ((given.get? .format).getD ReportFormat.table.name)).map (.scan path)
  | exportRegions, [path] => some (.exportRegions path)
  | validate, [path] => (given.get? .external).map (.validate path)
  | languages, [] => some .languages
  | _, _ => none

/-- What the words behind the word `help` come to: help about something that exists. -/
def refusalOfHelp (words : List Text) : Refusal :=
  match Topic.ofWords? words with
  | some topic => .help topic
  | none => .misuse

/-- The request that arguments are. -/
def Request.ofArguments (arguments : List Text) : Except Refusal Request := do
  let front ← readFront .nothing .nothing arguments
  if front.name = Topic.helpWord then throw (refusalOfHelp front.rest)
  match Verb.ofName? front.name with
  | none => throw .misuse
  | some verb =>
    let behind ← readBehind verb .nothing .nothing front.rest
    match verb.command? behind with
    | none => throw .misuse
    | some command =>
      let given ← front.given.settle front.pending
      return {
        command
        language := behind.get? .language
        settings := (behind.get? .settings).or (given.get? .settings) }

example : (Request.ofArguments ["-c".toList, "a".toList, "languages".toList, "-cb".toList]) =
    .ok ⟨.languages, none, some ['b']⟩ := rfl

example : Request.ofArguments ["scan".toList, "--".toList, "-x".toList] =
    .ok ⟨.scan "-x".toList .table, none, none⟩ := rfl

example : Request.ofArguments ["validate".toList, "x".toList] = .error .misuse := rfl

example : Request.ofArguments ["-V".toList, "x".toList] = .error .version := rfl

example : Request.ofArguments ["scan".toList, "-fx".toList, "-h".toList] = .error .misuse ∧
    Request.ofArguments ["scan".toList, "-h".toList, "-fx".toList] =
      .error (.help (.command .scan)) := ⟨rfl, rfl⟩

example : Request.ofArguments ["-ca".toList, "-c".toList, "b".toList, "scan".toList] =
      .error .misuse ∧
    Request.ofArguments ["-ca".toList, "-c".toList, "b".toList, "help".toList] =
      .error (.help .tool) := ⟨rfl, rfl⟩

end LineGuard.CommandLine
