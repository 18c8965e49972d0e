import DirectiveQuery.Binary64.Reading
import DirectiveQuery.Expression.Basic
import DirectiveQuery.Json.Basic

/-
  Expression trees as JSON. A node is an object with its kind and its span; a kind is an object
  with one member, named for the shape. Reading is liberal in the way data formats are: members
  in any order, further members in a record, a record as an array of its values. It refuses what
  lacks a part, has an unknown name or holds a value of the wrong kind.
-/
namespace DirectiveQuery

/-- A span as JSON. -/
def Span.toJson (s : Span) : Json :=
  .object [("start", .integer s.start), ("end", .integer s.stop), ("line", .integer s.line),
    ("column", .integer s.column)]

/-- A position: an integer from 0 to 2^64 - 1. -/
def positionOfJson? : Json → Option Nat
  | .integer (.ofNat n) => if n < Nat.pow 2 64 then some n else none
  | _ => none

/-- Reads a span. -/
def Span.ofJson? (value : Json) : Option Span := do
  let parts ← value.record? ["start", "end", "line", "column"]
  match ← parts.mapM positionOfJson? with
  | [start, stop, line, column] => return ⟨start, stop, line, column⟩
  | _ => none

/-- An object with one member, which tells its kind. -/
def Json.tagged (name : String) (value : Json) : Json := .object [(name, value)]

/-- Reads the name of a case without parts: a string, or an object whose one member is null. -/
def Json.caseName? : Json → Option String
  | .string name => some name
  | value =>
    match value.singleMember? with
    | some (name, .null) => some name
    | _ => none

namespace Literal

/-- A literal as JSON. -/
def toJson : Literal → Json
  | string text => .tagged "String" (.string text)
  | number value => .tagged "Number" (.ofBinary64 value)
  | boolean value => .tagged "Boolean" (.boolean value)
  | null => .string "Null"

/-- Reads a literal. Any JSON number is a number, an integer by rounding to the nearest. -/
def ofJson? (value : Json) : Option Literal :=
  match value.singleMember? with
  | some ("String", .string text) => some (string text)
  | some ("Number", .number negative x) => some (number (.finite negative x))
  | some ("Number", .integer n) => some (number (Binary64.ofDecimal (n < 0) n.natAbs 0))
  | some ("Boolean", .boolean b) => some (boolean b)
  | _ => if value.caseName? = some "Null" then some null else none

end Literal

namespace Expression

/-- A node of a kind. -/
def node (s : Span) (kind : Json) : Json := .object [("kind", kind), ("span", s.toJson)]

mutual

/-- A tree as JSON. -/
def toJson : Expression → Json
  | identifier name s => node s (.tagged "Identifier" (.string name))
  | literal value s => node s (.tagged "Literal" value.toJson)
  | unary mark argument s =>
    node s (.tagged "Unary"
      (.object [("operator", .string mark.treeName), ("argument", toJson argument)]))
  | binary left operator right s =>
    node s (.tagged "Binary"
      (.object [("left", toJson left), ("operator", .string operator.treeName),
        ("right", toJson right)]))
  | logical left operator right s =>
    node s (.tagged "Logical"
      (.object [("left", toJson left), ("operator", .string operator.treeName),
        ("right", toJson right)]))
  | array elements s => node s (.tagged "Array" (.array (toJsonAll elements)))
  | call callee arguments s =>
    node s (.tagged "Call"
      (.object [("callee", toJson callee), ("arguments", .array (toJsonAll arguments))]))
  | sequence elements s => node s (.tagged "Sequence" (.array (toJsonAll elements)))

/-- Trees as JSON. -/
def toJsonAll : List Expression → List Json
  | [] => []
  | e :: es => toJson e :: toJsonAll es

end

/-- Reads a node with the reader of the nodes inside it. -/
def nodeOfJson? (inner : Json → Option Expression) (value : Json) : Option Expression := do
  let [kind, spanValue] ← value.record? ["kind", "span"] | none
  let s ← Span.ofJson? spanValue
  match ← kind.singleMember? with
  | ("Identifier", .string name) => return identifier name s
  | ("Literal", parts) => return literal (← Literal.ofJson? parts) s
  | ("Unary", parts) =>
    let [mark, argument] ← parts.fields? ["operator", "argument"] | none
    return unary (← mark.caseName?.bind Mark.ofTreeName?) (← inner argument) s
  | ("Binary", parts) =>
    let [left, operator, right] ← parts.fields? ["left", "operator", "right"] | none
    return binary (← inner left) (← operator.caseName?.bind Comparison.ofTreeName?)
      (← inner right) s
  | ("Logical", parts) =>
    let [left, operator, right] ← parts.fields? ["left", "operator", "right"] | none
    return logical (← inner left) (← operator.caseName?.bind Connective.ofTreeName?)
      (← inner right) s
  | ("Array", .array elements) => return array (← elements.mapM inner) s
  | ("Call", parts) =>
    let [callee, arguments] ← parts.fields? ["callee", "arguments"] | none
    let .array arguments := arguments | none
    return call (← inner callee) (← arguments.mapM inner) s
  | ("Sequence", .array elements) => return sequence (← elements.mapM inner) s
  | _ => none

/-- Reads a tree whose JSON is nested no deeper than the first argument. -/
def ofJsonWithin? : Nat → Json → Option Expression
  | 0 => fun _ => none
  | depth + 1 => nodeOfJson? (ofJsonWithin? depth)

/-- Reads a tree. -/
def ofJson? (value : Json) : Option Expression := ofJsonWithin? value.depth value

end Expression

end DirectiveQuery
