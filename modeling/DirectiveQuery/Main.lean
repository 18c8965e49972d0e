import DirectiveQuery.Command.Run

/-
  The program: reads the files that its command line names, runs the command, and writes what
  the report says.
-/
namespace DirectiveQuery

/-- The error of the operating system. -/
def FileError.ofSystem : IO.Error → FileError
  | .noFileOrDirectory .. => .notFound
  | .permissionDenied .. => .permissionDenied
  | .inappropriateType _ code _ => if code = 21 then .isADirectory else .notADirectory
  | .invalidArgument _ code _ => if code = 36 then .nameTooLong else .nullInName
  | _ => .notFound

/-- The content of a file. -/
def readFile (path : String) : IO (Except FileError String) := do
  try return .ok (← IO.FS.readFile path)
  catch e => return .error (FileError.ofSystem e)

/-- Writes the content of a file. -/
def writeFile (path content : String) : IO (Except FileError Unit) := do
  try return .ok (← IO.FS.writeFile path content)
  catch e => return .error (FileError.ofSystem e)

/-- The variables that matter, as the process has them. -/
def processEnvironment : IO Environment := do
  let names := [rejectDuplicatesVariable, strictIntegersVariable, LogRule.settingName]
  let entries ← names.filterMapM fun name => do
    return (← IO.getEnv name).map fun value => (name, value)
  return ⟨entries⟩

/-- Runs a command; the result is the exit code. -/
def Command.perform (command : Command) (verbose : Bool) : IO UInt32 := do
  let env ← processEnvironment
  let contents ← command.inputs.mapM fun path => do return (path, ← readFile path)
  let read : FileReader := fun path =>
    ((contents.find? fun entry => entry.1 == path).map (·.2)).getD (.error .notFound)
  let r := command.report read env
  for line in r.lines (LogRule.forCommand verbose (env.get? LogRule.settingName)) do
    IO.eprintln line
  let failed : Option Failure ← match r.result with
    | .error f => pure (some f)
    | .ok (.printed text) => do
      IO.println text
      pure none
    | .ok (.saved path content) => do
      match ← writeFile path content with
      | .error e => pure (some (.file e))
      | .ok _ => pure none
  match failed with
  | some f =>
    IO.eprintln (Report.failureLine f)
    return 1
  | none => return 0

/-- Runs a command line; the result is the exit code. -/
def performArguments (arguments : List String) : IO UInt32 := do
  match Request.ofArguments? arguments with
  | none =>
    IO.eprintln usage
    return 2
  | some .version =>
    IO.print versionLine
    return 0
  | some (.run command verbose) => command.perform verbose

end DirectiveQuery

/-- The program. -/
def main (arguments : List String) : IO UInt32 := DirectiveQuery.performArguments arguments
