import DirectiveQuery.Failure
import DirectiveQuery.Options.Reading

/-
  Options from several layers. The options file is overridden by the variables of the
  environment, which an environment file may set, and those by the flags of the command line.
  Each option is decided by its own layers alone; a flag can only make it stricter.
-/
namespace DirectiveQuery

/-- Where the options of a command come from. -/
structure OptionArguments where
  /-- The path of an options file. -/
  optionsFile : Option String := none
  /-- The path of an environment file. -/
  environmentFile : Option String := none
  rejectDuplicates : Bool := false
  strictIntegers : Bool := false
deriving DecidableEq, Repr

/-- The variable that decides about repeated directives. -/
def rejectDuplicatesVariable : String := "DIRQ_REJECT_DUPLICATES"

/-- The variable that decides how counts are read. -/
def strictIntegersVariable : String := "DIRQ_STRICT_INTEGERS"

/-- How a command sees the contents of files. -/
abbrev FileReader := String → Except FileError String

namespace OptionArguments

/-- The environment with the environment file loaded into it. -/
def environment (a : OptionArguments) (read : FileReader) (env : Environment) :
    Except Failure Environment :=
  match a.environmentFile with
  | none => .ok env
  | some path =>
    match read path with
    | .error e => .error (.environmentFile path e)
    | .ok content =>
      match env.load content with
      | (loaded, none) => .ok loaded
      | (_, some e) => .error (.environment e)

/-- The options of the options file. -/
def fileOptions (a : OptionArguments) (read : FileReader) : Except Failure CompileOptions :=
  match a.optionsFile with
  | none => .ok {}
  | some path =>
    match read path with
    | .error e => .error (.file e)
    | .ok content =>
      match CompileOptions.ofText? content with
      | some options => .ok options
      | none => .error .invalidOptions

/-- An option by its layers: the flag, the switch of its variable, the options file. -/
def layered {α : Type} (flag : Bool) (switch : Option Bool) (on off fromFile : α) : α :=
  if flag then on
  else
    match switch with
    | some true => on
    | some false => off
    | none => fromFile

/-- The options from all layers. -/
def resolve (a : OptionArguments) (read : FileReader) (env : Environment) :
    Except Failure CompileOptions := do
  let env ← a.environment read env
  let fromFile ← a.fileOptions read
  let reject ← (env.switch rejectDuplicatesVariable).mapError Failure.environment
  let strict ← (env.switch strictIntegersVariable).mapError Failure.environment
  return {
    duplicates := layered a.rejectDuplicates reject .reject .overwrite fromFile.duplicates
    integers := layered a.strictIntegers strict .strict .lenient fromFile.integers }

end OptionArguments

end DirectiveQuery
