/-
  The rules of the grammar that a syntax error can name, in the order in which it names them.
-/
namespace DirectiveQuery

/-- Rules of the grammar. -/
inductive Rule where
  | endOfText
  | program
  | sequence
  | expression
  | disjunction
  | conjunction
  | equality
  | relation
  | unary
  | application
  | arguments
  | group
  | array
  | orToken
  | andToken
  | equalityToken
  | relationToken
  | mark
  | memberWord
  | nonMemberWord
  | nullWord
  | booleanWord
  | number
  | string
  | identifier
deriving DecidableEq, Repr

namespace Rule

/-- All rules, in the order in which errors name them. -/
def all : List Rule :=
  [endOfText, program, sequence, expression, disjunction, conjunction, equality, relation, unary,
    application, arguments, group, array, orToken, andToken, equalityToken, relationToken, mark,
    memberWord, nonMemberWord, nullWord, booleanWord, number, string, identifier]

/-- The name in messages. -/
def name : Rule → String
  | endOfText => "EOI"
  | program => "program"
  | sequence => "sequence"
  | expression => "expression"
  | disjunction => "logical_or"
  | conjunction => "logical_and"
  | equality => "equality"
  | relation => "relational"
  | unary => "unary"
  | application => "postfix"
  | arguments => "call_args"
  | group => "group"
  | array => "array_lit"
  | orToken => "op_or"
  | andToken => "op_and"
  | equalityToken => "equality_op"
  | relationToken => "relational_op"
  | mark => "unary_op"
  | memberWord => "kw_in"
  | nonMemberWord => "kw_nin"
  | nullWord => "lit_null"
  | booleanWord => "lit_boolean"
  | number => "lit_number"
  | string => "lit_string"
  | identifier => "ident"

/-- The rules that occur in a list, each once and in the order of `all`. -/
def inOrder (rules : List Rule) : List Rule := all.filter fun rule => rules.contains rule

theorem mem_all (rule : Rule) : rule ∈ all := by cases rule <;> decide

theorem mem_inOrder {rule : Rule} {rules : List Rule} : rule ∈ inOrder rules ↔ rule ∈ rules := by
  simp [inOrder, mem_all]

end Rule

/-- An enumeration of names: `a`, `a or b`, `a, b, or c`. -/
def enumerated : List String → String
  | [] => ""
  | [a] => a
  | [a, b] => a ++ " or " ++ b
  | names => String.intercalate ", " names.dropLast ++ ", or " ++ (names.getLast?.getD "")

end DirectiveQuery
