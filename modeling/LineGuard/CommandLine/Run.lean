/-
# Running a command

A run reads files and comes to an outcome: an exit code, what is printed, and at most
one complaint. How a file is read is a parameter, so that nothing here depends on
where files are kept.

Settings are read first and the table of languages second; only then is the document
looked at. The first thing that is wrong ends the run.
-/

import LineGuard.CommandLine.Arguments
import LineGuard.CommandLine.Help
import LineGuard.Exchange.Request
import LineGuard.Exchange.Response
import LineGuard.Language.Builtin
import LineGuard.Language.Reader
import LineGuard.Settings.Load
import LineGuard.Text.FileName
import LineGuard.Text.Utf8

namespace LineGuard.CommandLine

/-- What a run comes to. -/
structure Outcome where
  exitCode : Nat
  output : Text
  complaint : Option Text
deriving DecidableEq, Repr

/-- Why a request cannot be carried out. -/
inductive Failure where
  /-- The settings cannot be used. -/
  | settings (problem : Problem)
  /-- A permission or a table of languages that is chosen does not exist. -/
  | choice (problem : Problem)
  /-- A document cannot be read. -/
  | unreadable (problem : Problem)
  /-- What another tool has found cannot be made sense of. -/
  | malformed (path : Text) (problem : Problem)
deriving DecidableEq, Repr

/-- The wording of a failure. -/
def Failure.message : Failure → Text
  | settings problem => "Error loading configuration: ".toList ++ problem.message
  | choice problem => "Error: ".toList ++ problem.message
  | unreadable problem => "Error reading file: ".toList ++ problem.message
  | malformed path problem => "Error parsing ".toList ++ path ++ ": ".toList ++ problem.message

namespace Outcome

/-- The name of the tool and its version. -/
def version : Text := "guardtag 0.1.0\n".toList

/-- The outcome of a run that printed something. -/
def printed (output : Text) : Outcome := ⟨0, output, none⟩

/-- The outcome of a run that failed. -/
def ofFailure (failure : Failure) : Outcome := ⟨1, [], some failure.message⟩

/-- The outcome of arguments that are no request. -/
def ofRefusal : Refusal → Outcome
  | .help topic => printed topic.page.text
  | .version => printed version
  | .misuse => ⟨2, [], none⟩

end Outcome

/-! ## Reading files -/

section Files

variable {m : Type → Type} [Monad m]

/-- Reads a file of text. -/
def readText (read : Text → m (Option (List UInt8))) (failure : Problem → Failure)
    (path : Text) : ExceptT Failure m Text := do
  match (← read path).bind Text.Utf8.decode? with
  | some t => return t
  | none => throw (failure .unreadableFile)

/-- The contents of a file with settings, if they are text. The extension `toml` may
be left out. -/
def readSettings (read : Text → m (Option (List UInt8))) (path : Text) :
    ExceptT Failure m (Option Text) := do
  match ← read path, Text.withExtension? "toml".toList path with
  | some bytes, _ => return Text.Utf8.decode? bytes
  | none, some path => return (← read path).bind Text.Utf8.decode?
  | none, none => return none

/-- The settings of a run: those of the file, then those of the environment. -/
def loadSettings (read : Text → m (Option (List UInt8))) (env : Settings.Environment)
    (file : Option Text) : ExceptT Failure m Settings := do
  let environment := Settings.Layer.environment env
  let layers ← match file with
    | some path => do pure [.file (← readSettings read path) false, environment]
    | none => pure [environment]
  match Settings.load layers with
  | .ok settings => return settings
  | .error problem => throw (.settings problem)

/-- The table of languages that is chosen. -/
def loadTable (read : Text → m (Option (List UInt8))) (settings : Settings) :
    ExceptT Failure m LanguageTable := do
  match settings.languageTablePath? with
  | none => return LanguageTable.builtin
  | some path =>
    match LanguageTable.parse (← readText read .choice path) with
    | .ok table => return table
    | .error problem => throw (.choice problem)

/-! ## Commands -/

/-- What the commands have in common. -/
structure Session where
  options : Options
  table : LanguageTable
  /-- The language of the document, if it is given. -/
  language : Option Text

/-- Reads and analyses a document. Its language is told by the file name, unless it
is given. -/
def Session.analyze (s : Session) (read : Text → m (Option (List UInt8))) (path : Text) :
    ExceptT Failure m (Document × Analysis) := do
  let source ← readText read .unreadable path
  let d := Document.ofText source (s.language.or (s.table.detect? path))
  match Analysis.ofText s.options s.table d with
  | .ok a => return (d, a)
  | .error problem => throw (.choice problem)

/-- The list of languages: their ids, file extensions and scopes. -/
def listLanguages (table : LanguageTable) : Text :=
  "Language scope table ".toList ++ table.version ++ ":\n\n".toList ++
    Text.unlines (table.languages.flatMap fun language =>
      let extensions := language.extensions.map ('.' :: ·)
      ["  ".toList ++ language.id,
       "    extensions: ".toList ++ Text.join [' '] extensions,
       "    scopes: ".toList ++ Text.join [' '] (language.scopes.map (·.1))])

/-- Carries out a command. -/
def Session.run (s : Session) (read : Text → m (Option (List UInt8))) :
    Command → ExceptT Failure m Outcome
  | .scan path format => do
    let (d, a) ← s.analyze read path
    return .printed (a.render d format)
  | .exportRegions path => do
    let (_, a) ← s.analyze read path
    return .printed ((Exchange.Request.ofAnalysis path a).print ++ ['\n'])
  | .validate path external => do
    let (_, a) ← s.analyze read path
    match Exchange.Request.parse (← readText read .unreadable external) with
    | .error problem => throw (.malformed external problem)
    | .ok request =>
      let report := a.compareWith s.options request
      return ⟨if report.hasErrors then 1 else 0, Exchange.printResponse report ++ ['\n'], none⟩
  | .languages => return .printed (listLanguages s.table)

/-- Carries out a request. -/
def Request.run (request : Request) (read : Text → m (Option (List UInt8)))
    (env : Settings.Environment) : ExceptT Failure m Outcome := do
  let settings ← loadSettings read env request.settings
  match settings.options with
  | .error problem => throw (.choice problem)
  | .ok options =>
    let table ← loadTable read settings
    Session.run { options, table, language := request.language } read request.command

/-- Runs the tool on some arguments, with a way to read files and the variables of
the environment. -/
def run (read : Text → m (Option (List UInt8))) (env : Settings.Environment)
    (arguments : List Text) : m Outcome := do
  match Request.ofArguments arguments with
  | .error refusal => return .ofRefusal refusal
  | .ok request =>
    match ← (request.run read env).run with
    | .ok outcome => return outcome
    | .error failure => return .ofFailure failure

end Files

end LineGuard.CommandLine
