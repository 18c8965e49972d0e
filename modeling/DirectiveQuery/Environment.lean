import DirectiveQuery.Text.Blank
import DirectiveQuery.Text.Line

/-
  Environments: variables with their values, and files that assign them. An environment file is
  read line by line, and each assignment takes effect at once; reading stops at the first line
  that is neither blank, a comment nor an assignment, and the lines before it stay in effect.
-/
namespace DirectiveQuery

/-- Variables with their values. The first entry of a variable counts. -/
structure Environment where
  entries : List (String × String) := []
deriving DecidableEq, Repr

/-- Why a setting cannot be had from an environment. -/
inductive EnvironmentError where
  /-- A line that is no assignment, with its number. -/
  | malformedLine (number : Nat)
  /-- An assignment to no name, with the number of its line. -/
  | emptyKey (number : Nat)
  /-- A switch with a value that is neither on nor off. -/
  | invalidSwitch (key : String) (value : String)
deriving DecidableEq, Repr

/-- The error as shown to readers. -/
def EnvironmentError.message : EnvironmentError → String
  | malformedLine n =>
    "Invalid env file: malformed line " ++ toString n ++ " (expected KEY=VALUE)"
  | emptyKey n => "Invalid env file: empty key at line " ++ toString n
  | invalidSwitch key value =>
    "Invalid value for " ++ key ++ ": '" ++ value ++ "' (expected true or false)"

/-! ## Lines of an environment file -/

/-- What a line of an environment file is. -/
inductive EnvironmentLine where
  /-- A blank line or a comment. -/
  | nothing
  | assignment (key : String) (value : String)
  | noAssignment
  | noKey
deriving DecidableEq, Repr

namespace EnvironmentLine

/-- A value without the blanks around it, and then without the quotes around it, if a quote of
the same kind stands at both its ends. -/
def unquoted (value : List Char) : List Char :=
  match Text.trim value with
  | [] => []
  | first :: rest =>
    if (first = '"' || first = '\x27') && rest.getLast? = some first then rest.dropLast
    else first :: rest

/-- The word before an assignment that does not matter. -/
def exportMark : List Char := "export ".toList

/-- A trimmed line without the word `export` before it. -/
def withoutExport (line : List Char) : List Char := (Text.dropStart? exportMark line).getD line

/-- Reads a line. A comment starts with `#`; an assignment has a name, an equals sign and a
value, with blanks around each of them. -/
def ofText (line : List Char) : EnvironmentLine :=
  match Text.trim line with
  | [] => nothing
  | '#' :: _ => nothing
  | trimmed =>
    match Text.cutAt '=' (withoutExport trimmed) with
    | none => noAssignment
    | some (before, after) =>
      match Text.trim before with
      | [] => noKey
      | key => assignment (String.ofList key) (String.ofList (unquoted after))

end EnvironmentLine

namespace Environment

/-- The value of a variable. -/
def get? (env : Environment) (key : String) : Option String :=
  (env.entries.find? fun entry => entry.1 == key).map (·.2)

/-- The environment with a variable set. -/
def set (env : Environment) (key value : String) : Environment := ⟨(key, value) :: env.entries⟩

/-- The environment after some lines, the first of which has the given number, and the error
that stopped the reading, if one did. -/
def loadLines (env : Environment) (number : Nat) :
    List (List Char) → Environment × Option EnvironmentError
  | [] => (env, none)
  | line :: lines =>
    match EnvironmentLine.ofText line with
    | .nothing => env.loadLines (number + 1) lines
    | .assignment key value => (env.set key value).loadLines (number + 1) lines
    | .noAssignment => (env, some (.malformedLine number))
    | .noKey => (env, some (.emptyKey number))

/-- The environment after the content of a file, and the error that stopped the reading, if one
did. -/
def load (env : Environment) (content : String) : Environment × Option EnvironmentError :=
  env.loadLines 1 (Text.lines content.toList)

/-- The words that turn a switch on. -/
def onWords : List String := ["1", "true", "yes", "on"]

/-- The words that turn a switch off. -/
def offWords : List String := ["0", "false", "no", "off"]

/-- A switch: on, off, or undecided where the variable is missing or blank. ASCII letters of
either case will do. -/
def switch (env : Environment) (key : String) : Except EnvironmentError (Option Bool) :=
  match env.get? key with
  | none => .ok none
  | some raw =>
    let word := String.ofList ((Text.trim raw.toList).map Char.toLower)
    if word.isEmpty then .ok none
    else if onWords.contains word then .ok (some true)
    else if offWords.contains word then .ok (some false)
    else .error (.invalidSwitch key word)

theorem get?_set (env : Environment) (key value other : String) :
    (env.set key value).get? other = if key = other then some value else env.get? other := by
  by_cases h : key = other <;> simp [get?, set, h]

end Environment

end DirectiveQuery
