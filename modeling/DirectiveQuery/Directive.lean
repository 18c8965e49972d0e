/-
  The six directives of a query, and how many arguments each takes.
-/
namespace DirectiveQuery

/-- The operations that a query can ask for. -/
inductive Directive where
  | select
  | filter
  | order
  | extend
  | limit
  | offset
deriving DecidableEq, Repr

/-- How many arguments a directive takes. -/
inductive Arity where
  | any
  | atLeastOne
  | exactlyOne
deriving DecidableEq, Repr

/-- The arity in messages. -/
def Arity.display : Arity → String
  | any => "any number of"
  | atLeastOne => "at least 1"
  | exactlyOne => "exactly 1"

namespace Directive

/-- All directives. -/
def all : List Directive := [select, filter, order, extend, limit, offset]

/-- The name in a query. -/
def name : Directive → String
  | select => "select"
  | filter => "where"
  | order => "order"
  | extend => "extend"
  | limit => "limit"
  | offset => "offset"

/-- The directive with a name. -/
def ofName? (name : String) : Option Directive := all.find? fun d => d.name == name

/-- The name in diagnostics. -/
def debug : Directive → String
  | select => "Select"
  | filter => "Where"
  | order => "Order"
  | extend => "Extend"
  | limit => "Limit"
  | offset => "Offset"

/-- How many arguments the directive takes. -/
def arity : Directive → Arity
  | select | order | extend => .any
  | filter => .atLeastOne
  | limit | offset => .exactlyOne

theorem name_injective {d e : Directive} (h : d.name = e.name) : d = e := by
  cases d <;> cases e <;> first | rfl | exact absurd h (by decide)

end Directive

end DirectiveQuery
