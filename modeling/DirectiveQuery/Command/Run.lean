import DirectiveQuery.Command.Line
import DirectiveQuery.Command.LogRule
import DirectiveQuery.Expression.Wire

/-
  Running commands. A command looks at its options first, then at the query text, and then at
  what it is for; it stops at the first failure. What it has to say is a report, and the report
  says where the output goes; nothing else is written.
-/
namespace DirectiveQuery

/-- What a command puts out: a text for the reader, or the content of a file. -/
inductive Output where
  | printed (text : String)
  | saved (path : String) (content : String)
deriving DecidableEq, Repr

/-- What a command has to say. -/
structure Report where
  /-- The log lines, shown or not. -/
  log : List LogLine
  /-- What is told about the failure besides the failure itself. -/
  told : List String := []
  result : Except Failure Output

namespace QuerySource

/-- The query text. -/
def load (source : QuerySource) (read : FileReader) : Except Failure String :=
  match source with
  | text query => .ok query
  | file path => (read path).mapError .file

/-- The log lines when the query text is loaded. -/
def log : QuerySource → List LogLine
  | text _ => []
  | file path => [.ofQueryFile path]

end QuerySource

namespace Command

/-- What is told about a query that does not compile. -/
def description : CompileError → String
  | .unparsable e => e.formatted
  | e => e.message

/-- Where a text goes. -/
def output (destination : Option String) (text : String) : Output :=
  match destination with
  | some path => .saved path text
  | none => .printed text

/-- The report on a query text for which `act` says what becomes of it. -/
def onQuery (source : QuerySource) (read : FileReader) (log : List LogLine)
    (act : (log : List LogLine) → (query : String) → Report) : Report :=
  match source.load read with
  | .error f => { log := log ++ source.log, result := .error f }
  | .ok query => act (log ++ source.log) query

/-- The report on a query text, after the options have been resolved. -/
def withOptions (source : QuerySource) (arguments : OptionArguments) (read : FileReader)
    (env : Environment)
    (act : CompileOptions → (log : List LogLine) → (query : String) → Report) : Report :=
  match arguments.resolve read env with
  | .error f => { log := [], result := .error f }
  | .ok options => onQuery source read [.ofOptions options] (act options)

/-- The log lines when a query text is compiled. -/
def compileLog (options : CompileOptions) (query : String) : List LogLine :=
  (CompileEvent.ofQuery options query).map .ofEvent

/-- The report of a command. -/
def report (read : FileReader) (env : Environment) : Command → Report
  | compile source arguments pretty destination =>
    withOptions source arguments read env fun options log query =>
      { log := log ++ compileLog options query
        result :=
          match Compiler.ofQuery query >>= fun c => (c.withOptions options).intoDescriptor.result with
          | .error e => .error (.compile e)
          | .ok d =>
            .ok (output destination (if pretty then d.toJson.indented else d.toJson.compact)) }
  | tree source =>
    onQuery source read [] fun log query =>
      let parsed := Expression.parse query
      { log := log ++ (CompileEvent.ofParse parsed).map .ofEvent
        result := match parsed with
          | .error e => .error (.unparsable e)
          | .ok e => .ok (.printed e.toJson.indented) }
  | check source arguments =>
    withOptions source arguments read env fun options log query =>
      let log := log ++ compileLog options query
      match Compiler.ofQuery query >>= fun c => (c.withOptions options).descriptor.result with
      | .ok _ => { log := log, result := .ok (.printed "OK") }
      | .error e =>
        { log := log ++ [.ofRejection e], told := [description e], result := .error .checkFailed }

/-- The files that a command may read. -/
def inputs : Command → List String
  | compile source arguments _ _ | check source arguments =>
    ofOption arguments.environmentFile ++ ofOption arguments.optionsFile ++ ofSource source
  | tree source => ofSource source
where
  /-- The path that may be given. -/
  ofOption : Option String → List String
    | some path => [path]
    | none => []
  /-- The path of a query file. -/
  ofSource : QuerySource → List String
    | .file path => [path]
    | .text _ => []

end Command

namespace Report

/-- The lines of a report for the reader, without the failure itself. -/
def lines (r : Report) (rules : List LogRule) : List String :=
  (r.log.filter (LogRule.shows rules)).map LogLine.display ++ r.told

/-- The last line about a failure. -/
def failureLine (f : Failure) : String := "Error: " ++ f.debug

end Report

/-- How a command line ended. -/
structure Outcome where
  exitCode : Nat
  stdout : String := ""
  /-- The lines for the reader that are no output. -/
  stderr : List String := []
  /-- The files afterwards. -/
  files : Files

/-- The line about a command line that is none. -/
def usage : String :=
  "usage: dirq [-v] (compile | ast | check) (-q QUERY | -f FILE) [OPTIONS]"

/-- The program and its version. -/
def versionLine : String := "dirq 0.1.0\n"

/-- The outcome of a command. -/
def Command.run (files : Files) (env : Environment) (rules : List LogRule) (c : Command) :
    Outcome :=
  let r := c.report files.read env
  let lines := r.lines rules
  match r.result with
  | .error f => ⟨1, "", lines ++ [Report.failureLine f], files⟩
  | .ok (.printed text) => ⟨0, text ++ "\n", lines, files⟩
  | .ok (.saved path content) =>
    match files.write path content with
    | .error e => ⟨1, "", lines ++ [Report.failureLine (.file e)], files⟩
    | .ok files =>
      match Device.at? (Location.ofName path) with
      | some .output => ⟨0, content, lines, files⟩
      | some .errors => ⟨0, "", lines ++ [content], files⟩
      | _ => ⟨0, "", lines, files⟩

/-- The outcome of a command line. -/
def runArguments (files : Files) (env : Environment) (arguments : List String) : Outcome :=
  match Request.ofArguments? arguments with
  | none => ⟨2, "", [usage], files⟩
  | some .version => ⟨0, versionLine, [], files⟩
  | some (.run command verbose) =>
    command.run files env (LogRule.forCommand verbose (env.get? LogRule.settingName))

end DirectiveQuery
