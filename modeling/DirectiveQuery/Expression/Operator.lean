/-
  The operators of the query language: comparisons, the connectives that join conditions, and
  the marks that stand before an operand. Each comparison and each connective has an inverse,
  and taking it twice gives the operator back.
-/
namespace DirectiveQuery

/-- Comparisons of a field with a value, or with a list of values. -/
inductive Comparison where
  | equal
  | notEqual
  | greater
  | less
  | greaterOrEqual
  | lessOrEqual
  | member
  | nonMember
deriving DecidableEq, Repr

namespace Comparison

/-- All comparisons. -/
def all : List Comparison :=
  [equal, notEqual, greater, less, greaterOrEqual, lessOrEqual, member, nonMember]

/-- The token in a query. -/
def token : Comparison → String
  | equal => "=="
  | notEqual => "!="
  | greater => ">"
  | less => "<"
  | greaterOrEqual => ">="
  | lessOrEqual => "<="
  | member => "in"
  | nonMember => "nin"

/-- The comparison with a token. -/
def ofToken? (token : String) : Option Comparison := all.find? fun c => c.token == token

/-- The name in a written expression tree. -/
def treeName : Comparison → String
  | equal => "Equal"
  | notEqual => "NotEqual"
  | greater => "GreaterThan"
  | less => "LessThan"
  | greaterOrEqual => "GreaterOrEqual"
  | lessOrEqual => "LessOrEqual"
  | member => "In"
  | nonMember => "NotIn"

/-- The comparison with a name in a written expression tree. -/
def ofTreeName? (name : String) : Option Comparison := all.find? fun c => c.treeName == name

/-- The name in a filter. -/
def name : Comparison → String
  | equal => "eq"
  | notEqual => "ne"
  | greater => "gt"
  | less => "lt"
  | greaterOrEqual => "gte"
  | lessOrEqual => "lte"
  | member => "in"
  | nonMember => "nin"

/-- The key in a descriptor, such as `$gte`. -/
def key (c : Comparison) : String := "$" ++ c.name

/-- The right-hand side is a list of values. -/
def isMembership : Comparison → Bool
  | member | nonMember => true
  | _ => false

/-- The comparison that holds exactly when this one does not. -/
def inverse : Comparison → Comparison
  | equal => notEqual
  | notEqual => equal
  | greater => lessOrEqual
  | less => greaterOrEqual
  | greaterOrEqual => less
  | lessOrEqual => greater
  | member => nonMember
  | nonMember => member

theorem inverse_inverse (c : Comparison) : c.inverse.inverse = c := by cases c <;> rfl

theorem isMembership_inverse (c : Comparison) : c.inverse.isMembership = c.isMembership := by
  cases c <;> rfl

end Comparison

/-- The connectives that join conditions. -/
inductive Connective where
  | and
  | or
deriving DecidableEq, Repr

namespace Connective

/-- All connectives. -/
def all : List Connective := [and, or]

/-- The token in a query. -/
def token : Connective → String
  | and => "&&"
  | or => "||"

/-- The connective with a token. -/
def ofToken? (token : String) : Option Connective := all.find? fun c => c.token == token

/-- The name in a written expression tree. -/
def treeName : Connective → String
  | and => "And"
  | or => "Or"

/-- The connective with a name in a written expression tree. -/
def ofTreeName? (name : String) : Option Connective := all.find? fun c => c.treeName == name

/-- The name in a filter. -/
def name : Connective → String
  | and => "and"
  | or => "or"

/-- The key in a descriptor, such as `$and`. -/
def key (c : Connective) : String := "$" ++ c.name

/-- The connective of the negated conditions, by De Morgan's laws. -/
def inverse : Connective → Connective
  | and => or
  | or => and

theorem inverse_inverse (c : Connective) : c.inverse.inverse = c := by cases c <;> rfl

theorem inverse_inj {c d : Connective} : c.inverse = d.inverse ↔ c = d := by
  cases c <;> cases d <;> decide

end Connective

/-- The marks that stand before an operand. -/
inductive Mark where
  | not
  | plus
  | minus
deriving DecidableEq, Repr

namespace Mark

/-- All marks. -/
def all : List Mark := [not, plus, minus]

/-- The token in a query. -/
def token : Mark → String
  | not => "!"
  | plus => "+"
  | minus => "-"

/-- The mark with a token. -/
def ofToken? (token : String) : Option Mark := all.find? fun m => m.token == token

/-- The name in a written expression tree. -/
def treeName : Mark → String
  | not => "Not"
  | plus => "Plus"
  | minus => "Minus"

/-- The mark with a name in a written expression tree. -/
def ofTreeName? (name : String) : Option Mark := all.find? fun m => m.treeName == name

/-- The mark is a sign, so that it may stand before a number or a sort key. -/
def isSign : Mark → Bool
  | not => false
  | plus | minus => true

end Mark

/-- The operators that a condition is built with. -/
inductive Operator where
  | comparison (operator : Comparison)
  | connective (operator : Connective)
deriving DecidableEq, Repr

namespace Operator

/-- The token in a query. -/
def token : Operator → String
  | comparison c => c.token
  | connective c => c.token

/-- The operator with a token. -/
def ofToken? (token : String) : Option Operator :=
  match Comparison.ofToken? token with
  | some c => some (comparison c)
  | none => (Connective.ofToken? token).map connective

/-- The operator that stands for this one under a negation. -/
def inverse : Operator → Operator
  | comparison c => comparison c.inverse
  | connective c => connective c.inverse

/-- The operator of a token at a place that an odd (`inverted`) or even number of negations
encloses. -/
def resolve? (token : String) (inverted : Bool) : Option Operator :=
  (ofToken? token).map fun operator => if inverted then operator.inverse else operator

theorem ofToken?_token (operator : Operator) : ofToken? operator.token = some operator := by
  rcases operator with c | c <;> cases c <;> decide

/-- Every operator of a condition is found by its token, with or without a negation. -/
theorem resolve?_token (operator : Operator) (inverted : Bool) :
    resolve? operator.token inverted = some (if inverted then operator.inverse else operator) := by
  rw [resolve?, ofToken?_token, Option.map_some]

theorem resolve?_comparison (c : Comparison) (inverted : Bool) :
    resolve? c.token inverted = some (comparison (if inverted then c.inverse else c)) := by
  cases inverted <;> exact resolve?_token (comparison c) _

theorem resolve?_connective (c : Connective) (inverted : Bool) :
    resolve? c.token inverted = some (connective (if inverted then c.inverse else c)) := by
  cases inverted <;> exact resolve?_token (connective c) _

end Operator

end DirectiveQuery
