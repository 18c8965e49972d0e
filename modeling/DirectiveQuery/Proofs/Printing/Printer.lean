import DirectiveQuery.Descriptor
import DirectiveQuery.Proofs.Filter.NormalForm
import DirectiveQuery.Proofs.Printing.Clause

/-
  Descriptors as query texts. Each part that is there is written as a call of its directive;
  field names, texts and counts stand in double quotes, whatever characters they have, and
  conditions inside conditions stand in parentheses.
-/
namespace DirectiveQuery

open Grammar

theorem Grammar.Level.rank_le_primary (l : Level) : l.rank ≤ Level.primary.rank := by
  cases l <;> decide

theorem Grammar.equality_le_comparison (c : Comparison) :
    Level.equality.rank ≤ (operatorLevel (.comparison c)).rank := by
  cases c <;> decide

theorem Grammar.comparison_tighter_le_unary (c : Comparison) :
    (operatorLevel (.comparison c)).tighter.rank ≤ Level.unary.rank := by
  cases c <;> decide

namespace Clause

/-- A text in quotes. -/
def quoted (s : String) : Clause .primary := literal (.quoted s) (.string s) rfl

/-- A natural number. -/
def natural (n : Nat) : Clause .primary :=
  literal (.natural n) (.number (Binary64.ofDecimal false n 0)) rfl

/-- A place that no well-formed descriptor has. -/
def placeholder : Clause .primary := literal .null .null rfl

/-- Operands with a connective between any two. -/
def chain (c : Connective) : List (Clause .equality) → Clause .disjunction
  | [] => placeholder.loosen .disjunction (by decide)
  | first :: rest =>
    let operand (p : Clause .equality) : Clause (operatorLevel (.connective c)).tighter :=
      p.loosen _ (by cases c <;> decide)
    let start : Clause (operatorLevel (.connective c)) := first.loosen _ (by cases c <;> decide)
    (rest.foldl (fun left right => joined (.connective c) left (operand right)) start).loosen
      .disjunction (by cases c <;> decide)

end Clause

open Clause

/-- A value, with a minus sign before a negative integer. -/
def Value.clause : Value → Clause .unary
  | integer n =>
    let digits := (natural n.natAbs).loosen .unary (by decide)
    if n < 0 then marked .minus digits else digits
  | string text => (quoted text).loosen .unary (by decide)
  | boolean b => (literal (.boolean b) (.boolean b) rfl).loosen .unary (by decide)
  | null => (literal .null .null rfl).loosen .unary (by decide)
  | float _ => placeholder.loosen .unary (by decide)

/-- A scalar as it is, and a list as an array. -/
def Operand.clause : Operand → Clause .unary
  | scalar v => v.clause
  | list vs => (array (vs.map fun v => v.clause.loosen .disjunction (by decide))).loosen .unary
      (by decide)

/-- The quoted field, the operator and the operand. -/
def Leaf.clause (l : Leaf) : Clause .equality :=
  let o : Operator := .comparison l.operator
  let field := (quoted l.field).loosen (operatorLevel o) (Level.rank_le_primary _)
  let operand := l.operand.clause.loosen (operatorLevel o).tighter
    (comparison_tighter_le_unary l.operator)
  (joined o field operand).loosen .equality (equality_le_comparison l.operator)

namespace Filter

/-- A leaf as it is, and a combination in parentheses. -/
def enclosed (f : Filter) (inner : Clause .disjunction) : Clause .equality :=
  match f with
  | leaf l => l.clause
  | combined _ _ => (group inner).loosen .equality (by decide)

mutual

/-- A leaf, or the operands with the connective between them. -/
def clause : Filter → Clause .disjunction
  | leaf l => l.clause.loosen .disjunction (by decide)
  | combined c operands => chain c (clauses operands)

/-- The operands of a combination. -/
def clauses : List Filter → List (Clause .equality)
  | [] => []
  | f :: fs => f.enclosed (clause f) :: clauses fs

end

end Filter

/-- A quoted field, with a minus sign before it for the descending direction. -/
def SortKey.clause (k : SortKey) : Clause .disjunction :=
  let field := (quoted k.field).loosen .unary (by decide)
  match k.direction with
  | .ascending => field.loosen .disjunction (by decide)
  | .descending => (marked .minus field).loosen .disjunction (by decide)

namespace Descriptor

/-- A text as an argument. -/
def textClause (s : String) : Clause .disjunction := (quoted s).loosen .disjunction (by decide)

/-- A count as an argument: its digits in quotes. -/
def countClause (n : Nat) : Clause .disjunction :=
  textClause (String.ofList (Text.decimalDigits n))

/-- The call of a directive for a part, if the part is there. -/
def callFor {α : Type} (d : Directive) (arguments : α → List (Clause .disjunction))
    (part : Option α) : List (Clause .disjunction) :=
  part.toList.map fun a => (call d (arguments a)).loosen .disjunction (by decide)

/-- The calls for the parts that are there. -/
def calls (d : Descriptor) : List (Clause .disjunction) :=
  callFor .select (·.map textClause) d.select
    ++ callFor .filter (fun f => [f.clause]) d.filter
    ++ callFor .order (·.map SortKey.clause) d.order
    ++ callFor .extend (·.map textClause) d.extend
    ++ callFor .limit (fun n => [countClause n]) d.limit
    ++ callFor .offset (fun n => [countClause n]) d.offset

/-- The descriptor as a query text. -/
def query (d : Descriptor) : String := Clause.text d.calls

end Descriptor

end DirectiveQuery
