import DirectiveQuery.Grammar.Parser
import DirectiveQuery.Text.Position
import DirectiveQuery.Text.Quoted

/-
  Syntax errors: what was expected, and where. The place is the furthest one at which the
  grammar tried a rule in vain, with the line of the text that holds it.
-/
namespace DirectiveQuery

/-- A failure to read a query. -/
structure SyntaxError where
  message : String
  /-- The line, from one. -/
  line : Nat
  /-- The column, from one, in characters. -/
  column : Nat
  /-- The characters before the place. -/
  offset : Nat
  /-- The line of the text that holds the place, as far as it can be shown. -/
  snippet : String
deriving DecidableEq, Repr

namespace SyntaxError

/-- The error on one line. -/
def display (e : SyntaxError) : String :=
  "Syntax error at line " ++ toString e.line ++ ", column " ++ toString e.column ++ " (offset "
    ++ toString e.offset ++ "): " ++ e.message

/-- The error over several lines, with a caret under the place. Without a snippet there is
nothing to point at, and the error takes one line. -/
def formatted (e : SyntaxError) : String :=
  if e.snippet.isEmpty then e.display
  else
    "Syntax error at line " ++ toString e.line ++ ", column " ++ toString e.column ++ ":\n"
      ++ e.snippet ++ "\n" ++ String.ofList (List.replicate (e.column - 1) ' ') ++ "^\n"
      ++ e.message

/-- The error as a record with its fields named, for diagnostics. -/
def debug (e : SyntaxError) : String :=
  "SyntaxError \x7b message: " ++ Text.quoted e.message ++ ", line: " ++ toString e.line
    ++ ", column: " ++ toString e.column ++ ", offset: " ++ toString e.offset
    ++ ", source_snippet: " ++ Text.quoted e.snippet ++ " \x7d"

/-! ## From the furthest failures -/

/-- The characters of the line that holds position `n`, through its line feed. -/
def lineAround (text : List Char) (n : Nat) : List Char :=
  let before := ((text.take n).reverse.takeWhile (· != '\n')).reverse
  let after := text.drop n
  before ++ after.takeWhile (· != '\n') ++ (after.dropWhile (· != '\n')).take 1

/-- The visible sign for a carriage return or a line feed. -/
def visible (c : Char) : Char :=
  if c = '\r' then '\u240d' else if c = '\n' then '\u240a' else c

/-- The line that holds position `n`, as it is shown. Line endings are left out, unless the
position is on one: then they are shown by signs. -/
def snippetAt (text : List Char) (n : Nat) : List Char :=
  let line := lineAround text n
  let isEnding := fun c : Char => c == '\r' || c == '\n'
  if (text[n]?).any isEnding then line.map visible else line.filter fun c => !isEnding c

/-- What a set of rules is called in a message. -/
def expectation (rules : List Rule) : String :=
  match Rule.inOrder rules with
  | [] => "unknown parsing error"
  | expected => "expected " ++ enumerated (expected.map Rule.name)

/-- The error for the furthest failures in a text. -/
def ofMisses (text : List Char) (misses : Misses) : SyntaxError :=
  let (place, rules) := match misses with
    | .nothing => (Cursor.start text, [])
    | .tried place rules => (place, rules)
  let offset := (Text.Positions.ofText text).character place.byte
  { message := "parsing error: " ++ expectation rules
    line := place.line
    column := place.column
    offset := offset
    snippet := String.ofList (snippetAt text offset) }

end SyntaxError

end DirectiveQuery
