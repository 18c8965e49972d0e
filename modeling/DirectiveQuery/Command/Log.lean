import DirectiveQuery.Compile.Event

/-
  Log lines. A line has a level, the name of its place, a message, and fields with their values
  after it. The message is written so that a terminal does not obey it; values stand as they
  are.
-/
namespace DirectiveQuery

/-- How severe a log line is. -/
inductive Level where
  | error
  | warn
  | info
  | debug
  | trace
deriving DecidableEq, Repr

namespace Level

/-- All levels, the most severe first. -/
def all : List Level := [error, warn, info, debug, trace]

/-- The name in log lines. -/
def name : Level → String
  | error => "ERROR"
  | warn => "WARN"
  | info => "INFO"
  | debug => "DEBUG"
  | trace => "TRACE"

/-- The number of levels that are shown along with this one. -/
def rank : Level → Nat
  | error => 1
  | warn => 2
  | info => 3
  | debug => 4
  | trace => 5

end Level

/-- A log line. -/
structure LogLine where
  level : Level
  /-- The place in the program that it comes from. -/
  place : String
  message : String
  /-- The names of the fields with their values as shown. -/
  fields : List (String × String) := []
deriving DecidableEq, Repr

namespace LogLine

/-- What stands for one character of a message. Controls that a terminal could obey are shown by
their code points; tabs and line endings are left as they are. -/
def guardedChar (c : Char) : List Char :=
  let n := c.toNat
  if n = 0x07 || n = 0x08 || n = 0x0C || n = 0x1B || n = 0x7F then
    ['\\', 'x', (n / 16).digitChar, (n % 16).digitChar]
  else if 0x80 ≤ n && n ≤ 0x9F then
    ['\\', 'u', '\x7b', (n / 16).digitChar, (n % 16).digitChar, '\x7d']
  else [c]

/-- A message that a terminal does not obey. -/
def guarded (message : String) : String := String.ofList (message.toList.flatMap guardedChar)

/-- The line as written. -/
def display (l : LogLine) : String :=
  l.level.name ++ " " ++ l.place ++ ": " ++ guarded l.message
    ++ String.join (l.fields.map fun (name, value) => " " ++ name ++ "=" ++ value)

/-- The names of all fields; the message is one of them. -/
def fieldNames (l : LogLine) : List String := "message" :: l.fields.map (·.1)

/-- The words for a part that may be missing. -/
def debugOption : Option Nat → String
  | some n => "Some(" ++ toString n ++ ")"
  | none => "None"

/-- The line about something that happens while a query is compiled. -/
def ofEvent : CompileEvent → LogLine
  | .treeBuilt shape stop =>
    ⟨.trace, "dirq_syntax::builder", "Built expression tree",
      [("shape", Text.quoted shape), ("end", toString stop)]⟩
  | .repeated d n =>
    ⟨.warn, "dirq_compiler::directive",
      "Directive repeated, later occurrence overwrites the earlier one",
      [("directive", d.name), ("offset", toString n)]⟩
  | .compiling i =>
    ⟨.debug, "dirq_compiler::directive", "Compiling directive",
      [("directive", i.directive.name), ("arguments", toString i.arguments.length),
        ("offset", toString i.offset)]⟩
  | .filterCompiled f fields =>
    ⟨.debug, "dirq_compiler::filter", "Compiled where clause",
      [("filter", f.display), ("fields", Text.quotedList fields)]⟩
  | .compiled d =>
    ⟨.debug, "dirq_compiler::compiler", "Compiled query descriptor",
      [("select", toString d.select.isSome), ("filter", toString d.filter.isSome),
        ("order", toString d.order.isSome), ("extend", toString d.extend.isSome),
        ("limit", debugOption d.limit), ("offset", debugOption d.offset)]⟩

/-- The line about the options of a command. -/
def ofOptions (options : CompileOptions) : LogLine :=
  ⟨.debug, "dirq::config", "Resolved compile options", [("options", options.debug)]⟩

/-- The line before a query file is read. -/
def ofQueryFile (path : String) : LogLine := ⟨.info, "dirq", "Reading query from " ++ path, []⟩

/-- The line about a query that was checked in vain. -/
def ofRejection (e : CompileError) : LogLine :=
  ⟨.debug, "dirq", "Query rejected", [("error", e.debug)]⟩

end LogLine

end DirectiveQuery
