import DirectiveQuery.Proofs.Compile.Steps
import DirectiveQuery.Proofs.Filter.Meaning

/-
  Negation as duality. The dual of a filter has the opposite comparison at every leaf and the
  opposite connective at every combination, and is otherwise the same tree. `descriptor_not`: a
  negated condition compiles to the dual of what the condition compiles to, with the same
  fields, or fails with the same error; two negations are none.
-/
namespace DirectiveQuery

/-- The comparison that holds exactly when the other one does not. -/
def Comparison.opposite : Comparison → Comparison
  | greater => lessOrEqual
  | lessOrEqual => greater
  | less => greaterOrEqual
  | greaterOrEqual => less
  | equal => notEqual
  | notEqual => equal
  | member => nonMember
  | nonMember => member

/-- `or` for `and`, and `and` for `or`. -/
def Connective.opposite : Connective → Connective
  | and => or
  | or => and

theorem Comparison.inverse_eq_opposite (c : Comparison) : c.inverse = c.opposite := by
  cases c <;> rfl

theorem Connective.inverse_eq_opposite (c : Connective) : c.inverse = c.opposite := by
  cases c <;> rfl

/-- The leaf with the opposite comparison. -/
def Leaf.dual (l : Leaf) : Leaf := { l with operator := l.operator.opposite }

namespace Filter

mutual

/-- The filter with the opposite operator at every node. -/
def dual : Filter → Filter
  | leaf l => leaf l.dual
  | combined c operands => combined c.opposite (dualAll operands)

/-- The duals of several filters. -/
def dualAll : List Filter → List Filter
  | [] => []
  | f :: fs => dual f :: dualAll fs

end

theorem dualAll_append (fs gs : List Filter) : dualAll (fs ++ gs) = dualAll fs ++ dualAll gs := by
  induction fs with
  | nil => simp [dualAll]
  | cons f fs ih => simp [dualAll, ih]

mutual

theorem dual_dual (f : Filter) : f.dual.dual = f := by
  cases f with
  | leaf l =>
    rw [dual, dual, Leaf.dual, Leaf.dual, ← Comparison.inverse_eq_opposite,
      ← Comparison.inverse_eq_opposite, Comparison.inverse_inverse]
  | combined c fs =>
    rw [dual, dual, dualAll_dualAll fs, ← Connective.inverse_eq_opposite,
      ← Connective.inverse_eq_opposite, Connective.inverse_inverse]

theorem dualAll_dualAll (fs : List Filter) : dualAll (dualAll fs) = fs := by
  cases fs with
  | nil => simp [dualAll]
  | cons f fs => rw [dualAll, dualAll, dual_dual f, dualAll_dualAll fs]

end

/-! ## Normal form

Whether an operand is spliced depends on two connectives being the same, which they are exactly
when their opposites are. -/

theorem splice_dual (c : Connective) (f : Filter) :
    splice c.opposite f.dual = dualAll (splice c f) := by
  cases f with
  | leaf l => simp [dual, splice, dualAll]
  | combined d fs =>
    rw [dual, splice, splice, ← Connective.inverse_eq_opposite, ← Connective.inverse_eq_opposite]
    by_cases h : d = c
    · rw [if_pos h, if_pos (Connective.inverse_inj.2 h)]
    · rw [if_neg h, if_neg fun hi => h (Connective.inverse_inj.1 hi), dualAll, dual, dualAll,
        Connective.inverse_eq_opposite]

mutual

theorem normalize_dual (f : Filter) : f.dual.normalize = f.normalize.dual := by
  cases f with
  | leaf l => simp [normalize, dual]
  | combined c fs => rw [dual, normalize, normalize, dual, normalizeUnder_dualAll c fs]

theorem normalizeUnder_dualAll (c : Connective) (fs : List Filter) :
    normalizeUnder c.opposite (dualAll fs) = dualAll (normalizeUnder c fs) := by
  cases fs with
  | nil => simp [normalizeUnder, dualAll]
  | cons f fs =>
    rw [dualAll, normalizeUnder, normalizeUnder, dualAll_append, normalize_dual f, splice_dual,
      normalizeUnder_dualAll c fs]

end

/-! ## Leaves -/

mutual

theorem leaves_dual (f : Filter) : f.dual.leaves = f.leaves.map Leaf.dual := by
  cases f with
  | leaf l => simp [dual, leaves]
  | combined c fs => rw [dual, leaves, leaves, leavesAll_dualAll fs]

theorem leavesAll_dualAll (fs : List Filter) :
    leavesAll (dualAll fs) = (leavesAll fs).map Leaf.dual := by
  cases fs with
  | nil => simp [dualAll, leavesAll]
  | cons f fs =>
    rw [dualAll, leavesAll, leavesAll, List.map_append, leaves_dual f, leavesAll_dualAll fs]

end

theorem fields_dual (f : Filter) : f.dual.fields = f.fields := by
  rw [fields, fields, leaves_dual, List.map_map]
  rfl

end Filter

/-! ## Conditions -/

namespace Expression

theorem operand_opposite (operator : Comparison) (e : Expression) :
    e.operand operator.opposite = e.operand operator := by
  have h : operator.opposite.isMembership = operator.isMembership := by
    rw [← Comparison.inverse_eq_opposite, Comparison.isMembership_inverse]
  unfold operand
  rw [h]

theorem comparison_opposite (left : Expression) (operator : Comparison) (right : Expression) :
    comparison left operator.opposite right = (comparison left operator right).map Leaf.dual := by
  unfold comparison
  rw [operand_opposite]
  cases left.fieldName? with
  | none => rfl
  | some field => cases right.operand operator <;> rfl

/-- One negation more dualizes the filter; the checks on the way, and so the errors, are the
same. -/
theorem condition_not (inverted : Bool) (e : Expression) :
    e.condition (!inverted) = (e.condition inverted).map Filter.dual := by
  induction inverted, e using condition_induction with
  | negated inverted e s ih => exact ih
  | signed inverted mark e s hm =>
    rw [condition_sign hm, condition_sign hm]
    rfl
  | compared inverted left operator right s =>
    have ho : (if !inverted then operator.inverse else operator) =
        (if inverted then operator.inverse else operator).opposite := by
      rw [← Comparison.inverse_eq_opposite]
      cases inverted <;> simp [Comparison.inverse_inverse]
    rw [condition_binary, condition_binary, ho, comparison_opposite, except_map_map,
      except_map_map]
    rfl
  | joined inverted left c right s ihl ihr =>
    have ho : (if !inverted then c.inverse else c) =
        (if inverted then c.inverse else c).opposite := by
      rw [← Connective.inverse_eq_opposite]
      cases inverted <;> simp [Connective.inverse_inverse]
    rw [condition_logical, condition_logical, ihl, ihr, ho]
    cases condition inverted left with
    | error e => rfl
    | ok f => cases condition inverted right <;> rfl
  | plain inverted e he =>
    rw [condition_plain he, condition_plain he]
    rfl

end Expression

namespace Arguments

theorem filter_singleton (e : Expression) :
    filter [e] = (e.condition false).map Filter.normalize := by
  rw [filter_of_ne_nil (List.cons_ne_nil e []), conditions_cons, conditions_nil]
  cases e.condition false <;> rfl

theorem filter_singleton_not (e : Expression) (s : Span) :
    filter [.unary .not e s] = (filter [e]).map Filter.dual := by
  rw [filter_singleton, filter_singleton, Expression.condition_unary_not, Expression.condition_not]
  cases e.condition false with
  | error err => rfl
  | ok f => exact congrArg Except.ok (Filter.normalize_dual f)

end Arguments

namespace Invocation

/-- A negated condition of `where` compiles to the dual filter of the condition, which reads
the same fields; where the condition does not compile, its negation fails with the same error.
A condition that is negated twice compiles as it does without the negations. -/
theorem descriptor_not (mode : IntegerMode) (e : Expression) (s t : Span) (offset : Nat) :
    descriptor mode ⟨.filter, [.unary .not e s], offset⟩ =
        (descriptor mode ⟨.filter, [e], offset⟩).map
          (fun d => { d with filter := d.filter.map Filter.dual }) ∧
      descriptor mode ⟨.filter, [.unary .not (.unary .not e s) t], offset⟩ =
        descriptor mode ⟨.filter, [e], offset⟩ := by
  simp only [descriptor_filter, Arguments.filter_singleton_not]
  cases h : Arguments.filter [e] with
  | error err => exact ⟨rfl, rfl⟩
  | ok f => simp [Except.map, Filter.fields_dual, Filter.dual_dual]

end Invocation

end DirectiveQuery
