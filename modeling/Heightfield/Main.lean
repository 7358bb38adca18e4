import Heightfield.Console.Run
/-!
# The command

Reads the settings from the environment and the arguments from the command line, asks for a
formula where none is given, and prints what a run gives.  What is printed is decided
elsewhere.
-/

namespace Heightfield

namespace Console

/-- The settings that the environment gives. -/
def readSettings : IO Settings := do
  let found ← Settings.names.mapM fun name => do return (name, ← IO.getEnv name)
  return .ofLookup fun name => (found.lookup name).join

/-- Answers the requests on the input until it ends. -/
partial def serveLines (settings : Settings) (input output : IO.FS.Stream) : IO Unit := do
  let line ← input.getLine
  if line.isEmpty then return
  if let some answer := Service.answerLine? settings line.toList then
    output.putStr (answer.line ++ "\n")
    output.flush
  serveLines settings input output

/-- The answer to the question for a formula; none at the end of the input. -/
def ask (mode : Mode) (input output : IO.FS.Stream) : IO (Option String) := do
  output.putStr (question mode ++ "[" ++ hint mode ++ "] ")
  output.flush
  let line ← input.getLine
  if line.isEmpty then return none
  let answer := (line.splitOn "\n").headD ""
  return some (if answer.isEmpty then hint mode else answer)

/-- Runs the command, and gives the code with which it ends. -/
def command (args : List String) : IO Nat := do
  let settings ← readSettings
  let input ← IO.getStdin
  let output ← IO.getStdout
  match Arguments.ofStrings settings args with
  | .error .help =>
    output.putStr usage
    return Stop.help.code
  | .error .misuse =>
    (← IO.getStderr).putStr usage
    return Stop.misuse.code
  | .ok args =>
    if args.serve then
      serveLines settings input output
      return 0
    let answer ← if args.given?.isSome then pure none else ask args.mode input output
    match run settings args answer [] with
    | .error e =>
      (← IO.getStderr).putStrLn e.message
      return 1
    | .ok outcome =>
      outcome.screen.forM output.putStrLn
      outcome.values.forM fun j => output.putStrLn j.line
      return outcome.code

end Console

end Heightfield

def main (args : List String) : IO UInt32 := do
  return (← Heightfield.Console.command args).toUInt32
