/-
# UiFormat.Main -- the command line program

Formats files in place, or prints or checks them.  Everything is decided by
`UiFormat.Cli`; this module reads and writes on its behalf.
-/
import UiFormat.Cli.Workspace

namespace UiFormat.Cli

set_option autoImplicit false

/-- The failure that an error of the machine stands for. -/
def FileFailure.ofError : IO.Error → FileFailure
  | .noFileOrDirectory _ _ _ => .missing
  | .inappropriateType _ code _ => if code = 21 then .isADirectory else .notADirectory
  | .permissionDenied _ code details => { code := code.toNat, description := details.toList }
  | .otherError code details => { code := code.toNat, description := details.toList }
  | e => { code := 5, description := e.toString.toList }

/-- Everything that is left on a stream. -/
partial def readAllLines (stream : IO.FS.Stream) (read : String) : IO String := do
  let line ← stream.getLine
  if line.isEmpty then return read else readAllLines stream (read ++ line)

/-- The machine as a host. -/
def machine : Host IO where
  readInput := do return (← readAllLines (← IO.getStdin) "").toList
  readFile path := do
    try return .ok (← IO.FS.readFile (String.ofList path)).toList
    catch e => return .error (.ofError e)
  writeFile path text := do
    try return .ok (← IO.FS.writeFile (String.ofList path) (String.ofList text))
    catch e => return .error (.ofError e)
  print text := do (← IO.getStdout).putStr (String.ofList text)
  report text := do (← IO.getStderr).putStr (String.ofList text)

end UiFormat.Cli

open UiFormat.Cli

/-- Runs the program and gives its exit code. -/
def main (args : List String) : IO UInt32 := do
  let environment : Environment := {
    logLevel := (← IO.getEnv "ARKFMT_LOG_LEVEL").map String.toList
    semicolonThreshold := (← IO.getEnv "ARKFMT_SEMICOLON_THRESHOLD").map String.toList }
  match Invocation.ofArguments (args.map String.toList) with
  | .ok i =>
      match ← i.run machine environment with
      | .ok code => return UInt32.ofNat code
      | .error fault =>
          machine.report (programName ++ ": error: ".toList ++ fault.message ++ ['\n'])
          return 1
  | .error .help =>
      machine.print helpText
      return 0
  | .error (.misuse m) =>
      machine.report (programName ++ ": error: ".toList ++ m.message ++ ['\n'])
      return 2
