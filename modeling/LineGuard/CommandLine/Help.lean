/-
# Help

A page of help says what a thing is for, how it is used, and in one list per kind
what may be given. The entries of a list stand in two columns, the second of which
begins two blanks behind the longest entry of the first.
-/

import LineGuard.CommandLine.Verb

namespace LineGuard.CommandLine

/-- A list of a page: its heading, and its entries with what is said about each. -/
structure HelpList where
  heading : Text
  entries : List (Text × Text)

/-- A page of help. -/
structure HelpPage where
  about : Text
  usage : Text
  lists : List HelpList

/-- A list in its written form. -/
def HelpList.text (list : HelpList) : Text :=
  let width := list.entries.foldl (fun width entry => max width entry.1.length) 0
  '\n' :: list.heading ++ ":\n".toList ++ Text.unlines (list.entries.map fun (entry, about) =>
    "  ".toList ++ Text.padRight width entry ++ "  ".toList ++ about)

/-- A page in its written form. -/
def HelpPage.text (page : HelpPage) : Text :=
  page.about ++ "\n\nUsage: ".toList ++ page.usage ++ ['\n'] ++ page.lists.flatMap HelpList.text

namespace Parameter

/-- What a parameter is for. -/
def about : Parameter → Text
  | settings => "TOML file layered over the built-in configuration".toList
  | format =>
    "Output format [default: table] [possible values: table, regions, json, yaml]".toList
  | language => "Language id (default: detected from the file extension)".toList
  | external => "Validation request JSON produced by the other parser".toList

/-- How a parameter is spelled in a list. -/
def spelling (parameter : Parameter) : Text :=
  ['-', parameter.shortName] ++ ", --".toList ++ parameter.longName ++ " <".toList ++
    parameter.longName ++ ['>']

end Parameter

namespace HelpList

/-- The list of some parameters. Help may be asked for everywhere. -/
def ofParameters (parameters : List Parameter) (more : List (Text × Text)) : HelpList :=
  ⟨"Options".toList, parameters.map (fun parameter => (parameter.spelling, parameter.about)) ++
    ("-h, --help".toList, "Print help".toList) :: more⟩

/-- The list of the path. -/
def path : HelpList :=
  ⟨"Arguments".toList, [("<path>".toList, "Path to the source file".toList)]⟩

end HelpList

/-- What a command is for. -/
def Verb.about : Verb → Text
  | scan => "Show the permissions of every line".toList
  | exportRegions => "Print the tagged regions as a validation request".toList
  | validate => "Compare the tagged regions with another parser's".toList
  | languages => "List languages known to the scope table".toList

namespace Topic

/-- What help itself is for. -/
def aboutHelp : Text := "Print this message or the help of the given subcommand(s)".toList

/-- The page about a command. -/
def pageOf (verb : Verb) : HelpPage where
  about := verb.about
  usage := "guardtag ".toList ++ verb.name ++ " [OPTIONS]".toList ++
    (if verb.parameters.contains .external then " --external <external>".toList else []) ++
    if verb.operandCount = 0 then [] else " <path>".toList
  lists := (if verb.operandCount = 0 then [] else [.path]) ++ [.ofParameters verb.parameters []]

/-- The page about something. -/
def page : Topic → HelpPage
  | tool => {
    about := "Compute AI/human line permissions from guard tags".toList
    usage := "guardtag [OPTIONS] <COMMAND>".toList
    lists := [
      ⟨"Commands".toList, Verb.all.map (fun verb => (verb.name, verb.about)) ++
        [(helpWord, aboutHelp)]⟩,
      .ofParameters [.settings] [("-V, --version".toList, "Print version".toList)]] }
  | command verb => pageOf verb
  | help => {
    about := aboutHelp
    usage := "guardtag help [COMMAND]...".toList
    lists := [⟨"Arguments".toList,
      [("[COMMAND]...".toList, "Print help for the subcommand(s)".toList)]⟩] }

end Topic

end LineGuard.CommandLine
