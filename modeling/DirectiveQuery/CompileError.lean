import DirectiveQuery.Directive
import DirectiveQuery.Expression.Operator
import DirectiveQuery.SyntaxError

/-
  Why a query does not compile. Every cause but two knows the position of the node it is about.
-/
namespace DirectiveQuery

/-- What the right-hand side of a comparison should have been. -/
inductive Expected where
  | scalar
  | array
  | value
deriving DecidableEq, Repr

/-- What was expected, in messages. -/
def Expected.display : Expected → String
  | scalar => "a scalar value"
  | array => "an array"
  | value => "a literal, a signed number or an array"

/-- The causes for which a query does not compile. -/
inductive CompileError where
  /-- There is nothing but blanks. -/
  | emptyQuery
  /-- The text is no expression. -/
  | unparsable (error : SyntaxError)
  /-- Something other than a call of a name stands at the top level. -/
  | malformedQuery (offset : Nat)
  | unknownDirective (name : String) (offset : Nat)
  | duplicateDirective (directive : Directive) (offset : Nat)
  /-- An argument of `select` or `extend` names no field. -/
  | invalidFieldArgument (directive : Directive) (index : Nat) (offset : Nat)
  | invalidOrderArgument (index : Nat) (offset : Nat)
  | invalidArrayElement (index : Nat) (offset : Nat)
  | invalidIntegerArgument (directive : Directive) (offset : Nat)
  /-- The left-hand side of a comparison names no field. -/
  | invalidComparisonField (offset : Nat)
  /-- An operator that builds no condition stands where a condition should. -/
  | unknownOperator (token : String) (offset : Nat)
  | typeMismatch (expected : Expected) (offset : Nat)
  | arityMismatch (directive : Directive) (found : Nat)
  /-- Something that is no condition stands where one should. -/
  | unknownExpression (offset : Nat)
deriving DecidableEq, Repr

namespace CompileError

/-- The position that the error is about. -/
def offset? : CompileError → Option Nat
  | emptyQuery | arityMismatch .. => none
  | unparsable e => some e.offset
  | malformedQuery n | unknownDirective _ n | duplicateDirective _ n | invalidFieldArgument _ _ n
  | invalidOrderArgument _ n | invalidArrayElement _ n | invalidIntegerArgument _ n
  | invalidComparisonField n | unknownOperator _ n | typeMismatch _ n | unknownExpression n =>
    some n

/-- The words for a position in a message. -/
def atOffset (n : Nat) : String := " at offset " ++ toString n

/-- The error as shown to readers. -/
def message : CompileError → String
  | emptyQuery => "Query is empty"
  | unparsable e => e.display
  | malformedQuery n =>
    "Malformed query" ++ atOffset n
      ++ ": expected a directive call or a sequence of directive calls"
  | unknownDirective name n => "Unknown directive '" ++ name ++ "'" ++ atOffset n
  | duplicateDirective d n =>
    "Directive '" ++ d.name ++ "' appears more than once (offset " ++ toString n ++ ")"
  | invalidFieldArgument d i n =>
    "Invalid argument " ++ toString i ++ " to " ++ d.name ++ atOffset n
      ++ ": expected an identifier or a string"
  | invalidOrderArgument i n =>
    "Invalid argument " ++ toString i ++ " to order" ++ atOffset n
      ++ ": expected a field, optionally prefixed with '+' or '-'"
  | invalidArrayElement i n =>
    "Invalid array element " ++ toString i ++ atOffset n ++ ": expected a literal"
  | invalidIntegerArgument d n =>
    "Invalid argument to " ++ d.name ++ atOffset n ++ ": expected a non-negative integer"
  | invalidComparisonField n =>
    "Invalid comparison" ++ atOffset n ++ ": left-hand side must be an identifier or a string"
  | unknownOperator token n => "Unknown operator '" ++ token ++ "'" ++ atOffset n
  | typeMismatch expected n => "Type mismatch" ++ atOffset n ++ ": expected " ++ expected.display
  | arityMismatch d found =>
    d.name ++ " expects " ++ d.arity.display ++ " argument(s), found " ++ toString found
  | unknownExpression n => "Unsupported expression" ++ atOffset n

/-- The name of the cause. -/
def name : CompileError → String
  | emptyQuery => "EmptyQuery"
  | unparsable _ => "Syntax"
  | malformedQuery _ => "MalformedQuery"
  | unknownDirective .. => "UnknownDirective"
  | duplicateDirective .. => "DuplicateDirective"
  | invalidFieldArgument .. => "InvalidFieldArgument"
  | invalidOrderArgument .. => "InvalidOrderArgument"
  | invalidArrayElement .. => "InvalidArrayElement"
  | invalidIntegerArgument .. => "InvalidIntegerArgument"
  | invalidComparisonField _ => "InvalidComparisonField"
  | unknownOperator .. => "UnknownOperator"
  | typeMismatch .. => "TypeMismatch"
  | arityMismatch .. => "ArityMismatch"
  | unknownExpression _ => "UnknownExpression"

/-- A named record with its fields, for diagnostics. -/
def debugRecord (name : String) (fields : List (String × String)) : String :=
  name ++ " \x7b "
    ++ String.intercalate ", " (fields.map fun (field, value) => field ++ ": " ++ value)
    ++ " \x7d"

/-- The fields of the error, for diagnostics. -/
def debugFields : CompileError → List (String × String)
  | emptyQuery | unparsable _ => []
  | malformedQuery n | invalidComparisonField n | unknownExpression n =>
    [("offset", toString n)]
  | unknownDirective name n => [("name", Text.quoted name), ("offset", toString n)]
  | duplicateDirective d n => [("name", Text.quoted d.name), ("offset", toString n)]
  | invalidFieldArgument d i n =>
    [("directive", d.debug), ("index", toString i), ("offset", toString n)]
  | invalidOrderArgument i n | invalidArrayElement i n =>
    [("index", toString i), ("offset", toString n)]
  | invalidIntegerArgument d n => [("directive", d.debug), ("offset", toString n)]
  | unknownOperator token n => [("operator", Text.quoted token), ("offset", toString n)]
  | typeMismatch expected n =>
    [("expected", Text.quoted expected.display), ("offset", toString n)]
  | arityMismatch d found =>
    [("directive", d.debug), ("expected", Text.quoted d.arity.display),
      ("found", toString found)]

/-- The error with its data, for diagnostics. -/
def debug (e : CompileError) : String :=
  match e with
  | emptyQuery => e.name
  | unparsable s => e.name ++ "(" ++ s.debug ++ ")"
  | _ => debugRecord e.name e.debugFields

end CompileError

end DirectiveQuery
