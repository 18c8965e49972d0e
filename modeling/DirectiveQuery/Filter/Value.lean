import DirectiveQuery.Expression.Basic
import DirectiveQuery.Json.Basic

/-
  Values that a field is compared with. A number that is a whole number of 64 bits is kept as an
  integer, every other number as it is.
-/
namespace DirectiveQuery

/-- A value that a field is compared with. -/
inductive Value where
  | integer (value : Int)
  | float (value : Binary64)
  | string (text : String)
  | boolean (value : Bool)
  | null
deriving DecidableEq, Repr

namespace Value

/-- The integers of 64 bits with a sign. -/
def isWord (n : Int) : Bool := -(Nat.pow 2 63 : Int) ≤ n && n < Nat.pow 2 63

/-- The value of a number. -/
def ofNumber (x : Binary64) : Value :=
  match x.toInt? with
  | some n => if isWord n then integer n else float x
  | none => float x

/-- The value of a literal. -/
def ofLiteral : Literal → Value
  | .string text => string text
  | .number x => ofNumber x
  | .boolean b => boolean b
  | .null => null

/-- The value of a literal, or of a number literal with one sign before it. -/
def ofExpression? : Expression → Option Value
  | .literal value _ => some (ofLiteral value)
  | .unary mark (.literal (.number x) _) _ =>
    if mark.isSign then some (ofNumber (if mark = .minus then x.negate else x)) else none
  | _ => none

/-- The value as shown to readers. Strings stand in quotes as they are. -/
def display : Value → String
  | integer n => String.ofList (Text.decimalText n)
  | float x => String.ofList (x.text .display)
  | string text => "\"" ++ text ++ "\""
  | boolean b => if b then "true" else "false"
  | null => "null"

/-- The value as JSON. -/
def toJson : Value → Json
  | integer n => .integer n
  | float x => .ofBinary64 x
  | string text => .string text
  | boolean b => .boolean b
  | null => .null

/-- Equality of values, by which no value that is no number equals itself. -/
def equals : Value → Value → Bool
  | float x, float y => x.equals y
  | v, w => v == w

end Value

/-- The right-hand side of a comparison. -/
inductive Operand where
  | scalar (value : Value)
  | list (values : List Value)
deriving DecidableEq, Repr

namespace Operand

/-- The operand as shown to readers. -/
def display : Operand → String
  | scalar v => v.display
  | list vs => "[" ++ String.intercalate ", " (vs.map Value.display) ++ "]"

/-- The operand as JSON. -/
def toJson : Operand → Json
  | scalar v => v.toJson
  | list vs => .array (vs.map Value.toJson)

/-- The operand is a list. -/
def isList : Operand → Bool
  | scalar _ => false
  | list _ => true

/-- Equality of operands, value by value. -/
def equals : Operand → Operand → Bool
  | scalar v, scalar w => v.equals w
  | list vs, list ws => vs.length == ws.length && (vs.zip ws).all fun (v, w) => v.equals w
  | _, _ => false

end Operand

end DirectiveQuery
