import PageLog.Command.Basic

/-!
# The program

Looks up what the command line mentions, runs the command and prints what it comes to.
-/

namespace PageLog

/-- What is stored under a path. -/
def storedAt (path : String) : IO (Option Stored) := do
  try
    return some (.file (← IO.FS.readBinFile path).toList)
  catch
    | .inappropriateType .. => return some .directory
    | _ => return none

/-- The file with settings that counts if none is named. -/
def standardSettingsPath : IO (Option String) := do
  let base ←
    match ← IO.getEnv "XDG_CONFIG_HOME" with
    | some dir => if dir.startsWith "/" then pure (some dir) else pure none
    | none => pure none
  let base ←
    match base with
    | some dir => pure (some dir)
    | none => pure ((← IO.getEnv "HOME").map (· ++ "/.config"))
  return base.map (· ++ "/kindle/kindle.toml")

/-- The paths that a request looks at. -/
def pathsOf (standard : Option String) : Option Request → List String
  | some (.run _ (.inspect log _)) => [log]
  | some (.run _ (.replay log named _)) => log :: (named <|> standard).toList
  | _ => []

/-- Runs the program. -/
def runProgram (args : List String) : IO UInt32 := do
  let ambient ← IO.getEnv "KINDLE_CONFIG"
  let standard ← standardSettingsPath
  let paths := pathsOf standard (Request.ofArguments? ambient args)
  let found ← paths.mapM fun path => return (path, ← storedAt path)
  let outcome := runArguments ⟨fun path => (found.lookup path).join, ambient, standard⟩ args
  IO.print outcome.output
  if let some complaint := outcome.complaint then IO.eprintln complaint
  return UInt32.ofNat outcome.code

end PageLog

def main (args : List String) : IO UInt32 := PageLog.runProgram args
