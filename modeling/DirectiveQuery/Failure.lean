import DirectiveQuery.CompileError
import DirectiveQuery.Environment
import DirectiveQuery.Files

/-
  Why a command fails.
-/
namespace DirectiveQuery

/-- The causes for which a command fails. -/
inductive Failure where
  | file (error : FileError)
  /-- An environment file that cannot be read. -/
  | environmentFile (path : String) (error : FileError)
  | environment (error : EnvironmentError)
  /-- An options file without options. -/
  | invalidOptions
  | unparsable (error : SyntaxError)
  | compile (error : CompileError)
  /-- A query that was to be checked does not compile. -/
  | checkFailed
deriving DecidableEq, Repr

namespace Failure

/-- The words about a failed setting. -/
def settingMessage? : Failure → Option String
  | environmentFile path e => some ("Failed to read env file " ++ path ++ ": " ++ e.display)
  | environment e => some e.message
  | _ => none

/-- The failure with its data, for diagnostics. What is wrong with an options file is not told. -/
def debug (f : Failure) : String :=
  match f with
  | file e => "Io(" ++ e.debug ++ ")"
  | invalidOptions => "OptionsDeserialize(...)"
  | unparsable e => "Syntax(" ++ e.debug ++ ")"
  | compile e => "Compile(" ++ e.debug ++ ")"
  | checkFailed => "CheckFailed"
  | environmentFile .. | environment _ =>
    "Config(" ++ Text.quoted (f.settingMessage?.getD "") ++ ")"

end Failure

end DirectiveQuery
