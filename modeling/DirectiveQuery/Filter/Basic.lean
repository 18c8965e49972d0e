import DirectiveQuery.Filter.Value

/-
  Filters: comparisons of fields, combined by `and` and `or`. Negation is no node of a filter.
  In normal form no combination has an operand that is combined by the same connective; the
  normal form is reached by putting the operands of such an operand in its place.
-/
namespace DirectiveQuery

/-- A comparison of a field with an operand. -/
structure Leaf where
  field : String
  operator : Comparison
  operand : Operand
deriving DecidableEq, Repr

/-- A condition on the fields of a record. -/
inductive Filter where
  | leaf (comparison : Leaf)
  | combined (connective : Connective) (operands : List Filter)
deriving Repr

namespace Filter

/-! ## Normal form -/

/-- What stands for an operand among the operands of a connective: its own operands, if it is
combined by the same connective, and itself otherwise. -/
def splice (connective : Connective) : Filter → List Filter
  | combined c operands => if c = connective then operands else [combined c operands]
  | leaf l => [leaf l]

mutual

/-- The normal form: the same leaves in the same order, without combinations that sit directly
in a combination by the same connective. -/
def normalize : Filter → Filter
  | leaf l => leaf l
  | combined c operands => combined c (normalizeUnder c operands)

/-- The operands of a connective, in normal form and spliced. -/
def normalizeUnder (connective : Connective) : List Filter → List Filter
  | [] => []
  | f :: fs => splice connective (normalize f) ++ normalizeUnder connective fs

end

/-! ## Leaves -/

mutual

/-- The leaves, from left to right. -/
def leaves : Filter → List Leaf
  | leaf l => [l]
  | combined _ operands => leavesAll operands

/-- The leaves of several filters, from left to right. -/
def leavesAll : List Filter → List Leaf
  | [] => []
  | f :: fs => leaves f ++ leavesAll fs

end

/-! ## Written forms -/

mutual

/-- The filter as shown to readers, with every combination in parentheses. -/
def display : Filter → String
  | leaf l => l.field ++ " " ++ l.operator.name ++ " " ++ l.operand.display
  | combined c operands =>
    "(" ++ String.intercalate (" " ++ c.name ++ " ") (displayAll operands) ++ ")"

/-- Several filters as shown to readers. -/
def displayAll : List Filter → List String
  | [] => []
  | f :: fs => display f :: displayAll fs

end

mutual

/-- The filter as JSON. A leaf is an object with the field as its key, a combination one with
the connective as its key. -/
def toJson : Filter → Json
  | leaf l => .object [(l.field, .object [(l.operator.key, l.operand.toJson)])]
  | combined c operands => .object [(c.key, .array (toJsonAll operands))]

/-- Several filters as JSON. -/
def toJsonAll : List Filter → List Json
  | [] => []
  | f :: fs => toJson f :: toJsonAll fs

end

/-! ## Equality -/

mutual

/-- Equality of filters, by which a leaf with a value that is no number equals nothing. -/
def equals : Filter → Filter → Bool
  | leaf l, leaf m =>
    l.field == m.field && l.operator == m.operator && l.operand.equals m.operand
  | combined c fs, combined d gs => c == d && equalsAll fs gs
  | _, _ => false

/-- Equality of lists of filters, one by one. -/
def equalsAll : List Filter → List Filter → Bool
  | [], [] => true
  | f :: fs, g :: gs => equals f g && equalsAll fs gs
  | _, _ => false

end

theorem leavesAll_append (fs gs : List Filter) :
    leavesAll (fs ++ gs) = leavesAll fs ++ leavesAll gs := by
  induction fs with
  | nil => simp [leavesAll]
  | cons f fs ih => simp [leavesAll, ih, List.append_assoc]

theorem leavesAll_splice (c : Connective) (f : Filter) :
    leavesAll (splice c f) = leaves f := by
  cases f with
  | leaf l => simp [splice, leavesAll]
  | combined d fs =>
    simp only [splice]
    split
    · simp [leaves]
    · simp [leavesAll]

mutual

theorem leaves_normalize (f : Filter) : f.normalize.leaves = f.leaves := by
  cases f with
  | leaf l => rw [normalize]
  | combined c fs => rw [normalize, leaves, leaves, leavesAll_normalizeUnder c fs]

theorem leavesAll_normalizeUnder (c : Connective) (fs : List Filter) :
    leavesAll (normalizeUnder c fs) = leavesAll fs := by
  cases fs with
  | nil => rw [normalizeUnder]
  | cons f fs =>
    rw [normalizeUnder, leavesAll_append, leavesAll_splice, leaves_normalize f,
      leavesAll_normalizeUnder c fs, leavesAll]

end

end Filter

end DirectiveQuery
