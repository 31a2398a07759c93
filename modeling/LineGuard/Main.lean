/-
# The tool

The edge of the program: arguments, environment and files go in, text and an exit
code come out. Everything is decided by `LineGuard.CommandLine.run`.
-/

import LineGuard.CommandLine.Run

namespace LineGuard

/-- Reads a file, if there is one. -/
def readBytes (path : Text) : IO (Option (List UInt8)) := do
  try
    let bytes ← IO.FS.readBinFile (String.ofList path)
    return some bytes.toList
  catch _ => return none

/-- The variables among the entries of an environment, which end in null characters.
An entry without an equals sign is none. -/
def variablesOf (entries : Text) : Settings.Environment :=
  (Text.splitAt (· == '\x00') entries).filterMap fun entry =>
    match entry.dropWhile (· != '=') with
    | _ :: value => some (entry.takeWhile (· != '='), value)
    | [] => none

/-- The variables of the environment. -/
def readEnvironment : IO Settings.Environment := do
  match ← readBytes "/proc/self/environ".toList with
  | some bytes => return variablesOf (Text.Utf8.decodeLenient bytes)
  | none => return []

end LineGuard

/-- Runs the tool. -/
def main (arguments : List String) : IO UInt32 := do
  let env ← LineGuard.readEnvironment
  let outcome ← LineGuard.CommandLine.run LineGuard.readBytes env
    (arguments.map (·.toList))
  (← IO.getStdout).putStr (String.ofList outcome.output)
  (← IO.getStdout).flush
  match outcome.complaint with
  | some complaint => (← IO.getStderr).putStrLn (String.ofList complaint)
  | none => pure ()
  return outcome.exitCode.toUInt32
