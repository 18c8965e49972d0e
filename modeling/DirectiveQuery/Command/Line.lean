import DirectiveQuery.Options.Layers

/-
  Command lines. An option is written with two dashes and its name, or with one dash and its
  letter; letters may be written together. A value follows its option as the next argument or
  after an equals sign, and behind a letter directly too. No option may be given twice at one
  level, and a next argument that looks like an option is no value.
-/
namespace DirectiveQuery

/-- Where a query text comes from. -/
inductive QuerySource where
  | text (query : String)
  | file (path : String)
deriving DecidableEq, Repr

/-- What can be done with a query. -/
inductive Command where
  /-- Writes the descriptor, to a file if one is named. -/
  | compile (source : QuerySource) (options : OptionArguments) (pretty : Bool)
    (destination : Option String)
  /-- Writes the expression tree. -/
  | tree (source : QuerySource)
  /-- Tells whether the query compiles. -/
  | check (source : QuerySource) (options : OptionArguments)
deriving DecidableEq, Repr

/-- What a command line asks for. -/
inductive Request where
  | version
  | run (command : Command) (verbose : Bool)
deriving DecidableEq, Repr

/-! ## Options -/

/-- The options of the command line. -/
inductive Flag where
  | verbose
  | version
  | query
  | file
  | optionsFile
  | environmentFile
  | rejectDuplicates
  | strictIntegers
  | pretty
  | destination
deriving DecidableEq, Repr

namespace Flag

/-- The name after two dashes. -/
def name : Flag → String
  | verbose => "verbose"
  | version => "version"
  | query => "query"
  | file => "file"
  | optionsFile => "options"
  | environmentFile => "env-file"
  | rejectDuplicates => "reject-duplicates"
  | strictIntegers => "strict-integers"
  | pretty => "pretty"
  | destination => "output"

/-- The letter after one dash, if there is one. -/
def letter? : Flag → Option Char
  | verbose => some 'v'
  | version => some 'V'
  | query => some 'q'
  | file => some 'f'
  | _ => none

/-- The option has a value. -/
def hasValue : Flag → Bool
  | query | file | optionsFile | environmentFile | destination => true
  | _ => false

/-- The options before the name of a command. -/
def general : List Flag := [verbose, version]

/-- The options about the query text. -/
def ofSource : List Flag := [verbose, query, file]

/-- The options about the options of compiling. -/
def ofOptions : List Flag := [optionsFile, environmentFile, rejectDuplicates, strictIntegers]

/-- The options after the name of a command, if there is such a command. -/
def ofCommand? : String → Option (List Flag)
  | "compile" => some (ofSource ++ ofOptions ++ [pretty, destination])
  | "ast" => some ofSource
  | "check" => some (ofSource ++ ofOptions)
  | _ => none

end Flag

/-- An option as given, with its value; an option without a value has the empty one. -/
structure GivenFlag where
  flag : Flag
  value : String
deriving DecidableEq, Repr

namespace GivenFlag

/-- The argument looks like an option, so it is no value of the option before it. -/
def looksLikeFlag (argument : String) : Bool :=
  match argument.toList with
  | '-' :: _ :: _ => true
  | _ => false

/-- The value of the option `flag` when none is attached to it, and the arguments after it. -/
def detachedValue? (flag : Flag) : List String → Option (GivenFlag × List String)
  | value :: rest => if looksLikeFlag value then none else some (⟨flag, value⟩, rest)
  | [] => none

/-- Reads an option by its name, which a value may follow after an equals sign. -/
def ofName? (allowed : List Flag) (text : List Char) (rest : List String) :
    Option (GivenFlag × List String) := do
  let (name, attached) := match Text.cutAt '=' text with
    | some (name, value) => (name, some (String.ofList value))
    | none => (text, none)
  let flag ← allowed.find? fun f => f.name == String.ofList name
  match flag.hasValue, attached with
  | true, some value => return (⟨flag, value⟩, rest)
  | true, none => detachedValue? flag rest
  | false, none => return (⟨flag, ""⟩, rest)
  | false, some _ => none

/-- Reads options by their letters. What follows the letter of an option with a value is that
value. Nothing is read after a question for the version. -/
def ofLetters? (allowed : List Flag) :
    List Char → List String → Option (List GivenFlag × List String)
  | [], rest => some ([], rest)
  | c :: cs, rest => do
    let flag ← allowed.find? fun f => f.letter? == some c
    if flag.hasValue then
      match cs with
      | [] => (detachedValue? flag rest).map fun (given, rest) => ([given], rest)
      | '=' :: value => return ([⟨flag, String.ofList value⟩], rest)
      | value => return ([⟨flag, String.ofList value⟩], rest)
    else if flag = .version then return ([⟨flag, ""⟩], rest)
    else
      let (others, rest) ← ofLetters? allowed cs rest
      return (⟨flag, ""⟩ :: others, rest)

/-- Some of the options ask for the version. -/
def asksVersion (given : List GivenFlag) : Bool := given.any fun g => g.flag == .version

/-- Reads options up to the first argument that is none, or to a question for the version. The
first argument bounds how many arguments are read. -/
def readAll? (allowed : List Flag) : Nat → List String → Option (List GivenFlag × List String)
  | 0, rest => some ([], rest)
  | _ + 1, [] => some ([], [])
  | count + 1, argument :: rest => do
    let (given, rest) ← match argument.toList with
      | ['-', '-'] => return ([], argument :: rest)
      | '-' :: '-' :: text => (ofName? allowed text rest).map fun (g, rest) => ([g], rest)
      | '-' :: c :: cs => ofLetters? allowed (c :: cs) rest
      | _ => return ([], argument :: rest)
    if asksVersion given then return (given, rest)
    let (others, rest) ← readAll? allowed count rest
    return (given ++ others, rest)

/-- No option is given twice. -/
def allDistinct : List GivenFlag → Bool
  | [] => true
  | g :: gs => gs.all (fun h => h.flag != g.flag) && allDistinct gs

/-- The value of an option that is given. -/
def valueOf? (given : List GivenFlag) (flag : Flag) : Option String :=
  (given.find? fun g => g.flag == flag).map GivenFlag.value

/-- The option is given. -/
def has (given : List GivenFlag) (flag : Flag) : Bool := given.any fun g => g.flag == flag

end GivenFlag

/-! ## Commands -/

/-- The query text that the options tell of. There is exactly one such option. -/
def QuerySource.ofFlags? (given : List GivenFlag) : Option QuerySource :=
  match GivenFlag.valueOf? given .query, GivenFlag.valueOf? given .file with
  | some query, none => some (.text query)
  | none, some path => some (.file path)
  | _, _ => none

/-- The sources of options that the options tell of. -/
def OptionArguments.ofFlags (given : List GivenFlag) : OptionArguments where
  optionsFile := GivenFlag.valueOf? given .optionsFile
  environmentFile := GivenFlag.valueOf? given .environmentFile
  rejectDuplicates := GivenFlag.has given .rejectDuplicates
  strictIntegers := GivenFlag.has given .strictIntegers

/-- The command with a name and its options. -/
def Command.ofFlags? (name : String) (given : List GivenFlag) : Option Command := do
  let source ← QuerySource.ofFlags? given
  match name with
  | "compile" =>
    return .compile source (.ofFlags given) (GivenFlag.has given .pretty)
      (GivenFlag.valueOf? given .destination)
  | "ast" => return .tree source
  | "check" => return .check source (.ofFlags given)
  | _ => none

/-- What a command line asks for, if it is one. -/
def Request.ofArguments? (arguments : List String) : Option Request := do
  let (general, rest) ← GivenFlag.readAll? Flag.general arguments.length arguments
  if !GivenFlag.allDistinct general then none
  if GivenFlag.asksVersion general then return .version
  let name :: rest := rest | none
  let allowed ← Flag.ofCommand? name
  let (given, rest) ← GivenFlag.readAll? allowed rest.length rest
  if !GivenFlag.allDistinct given then none
  if !(rest.isEmpty || rest == ["--"]) then none
  let command ← Command.ofFlags? name given
  return .run command (GivenFlag.has general .verbose || GivenFlag.has given .verbose)

end DirectiveQuery
