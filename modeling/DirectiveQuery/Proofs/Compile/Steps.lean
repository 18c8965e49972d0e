import DirectiveQuery.Compile.Assembly
import DirectiveQuery.Proofs.Compile.Collecting

/-
  The steps of compiling, one at a time: when a step has a result, in terms of the steps that it
  takes first. What was there before some elements of the top level is only overridden by what
  they ask for (`addElements_eq`), so they can be looked at by themselves (`ofElements`).
-/
namespace DirectiveQuery

/-- The expression writes the value: as a literal, or as a number with one sign before it. -/
inductive Expression.WritesValue : Expression → Value → Prop
  | literal (l : Literal) (s : Span) : WritesValue (literal l s) (.ofLiteral l)
  | plus (x : Binary64) (s t : Span) :
      WritesValue (unary .plus (.literal (.number x) s) t) (.ofNumber x)
  | minus (x : Binary64) (s t : Span) :
      WritesValue (unary .minus (.literal (.number x) s) t) (.ofNumber x.negate)

theorem Value.ofExpression?_eq_some {e : Expression} {v : Value} :
    ofExpression? e = some v ↔ e.WritesValue v := by
  constructor
  · intro h
    unfold ofExpression? at h
    split at h
    · cases h
      exact .literal _ _
    · next mark x s t =>
      cases mark with
      | not => cases h
      | plus =>
        cases h
        exact .plus x s t
      | minus =>
        cases h
        exact .minus x s t
    · cases h
  · intro h
    cases h <;> rfl

theorem Value.ofExpression?_eq_none {e : Expression} :
    ofExpression? e = none ↔ ∀ v, ¬ e.WritesValue v := by
  simp only [← ofExpression?_eq_some, Option.eq_none_iff_forall_ne_some, ne_eq]

namespace Expression

theorem operand_of_scalar {operator : Comparison} {e : Expression} (he : ∀ es s, e ≠ array es s) :
    e.operand operator =
      if operator.isMembership then .error (.typeMismatch .array e.offset)
      else match Value.ofExpression? e with
        | some v => .ok (.scalar v)
        | none => .error (.typeMismatch .value e.offset) := by
  cases e with
  | array es s => exact absurd rfl (he es s)
  | _ => rfl

/-- What is no array is the operand of a comparison that takes no list. -/
theorem operand_eq_ok_of_scalar {operator : Comparison} {e : Expression} {v : Operand}
    (he : ∀ es s, e ≠ array es s) : e.operand operator = .ok v ↔
      operator.isMembership = false ∧ ∃ w, Value.ofExpression? e = some w ∧ .scalar w = v := by
  rw [operand_of_scalar he]
  cases operator.isMembership <;> cases Value.ofExpression? e <;> simp

theorem operand_array {operator : Comparison} {es : List Expression} {s : Span} {v : Operand} :
    (array es s).operand operator = .ok v ↔ operator.isMembership = true ∧
      ∃ vs, es.map Value.ofExpression? = vs.map some ∧ .list vs = v := by
  simp only [operand]
  cases operator.isMembership with
  | true => simp only [if_true, except_map_eq_ok, readEach_eq_ok_iff, true_and]
  | false => simp

end Expression

theorem Directive.ofName?_eq_some {name : String} {d : Directive} :
    ofName? name = some d ↔ d.name = name := by
  constructor
  · intro h
    simpa using List.find?_some h
  · rintro rfl
    cases d <;> decide

/-- Invocations are made by calls of the name of their directive. -/
theorem Invocation.ofExpression_eq_ok {e : Expression} {d : Directive} {es : Arguments} {n : Nat} :
    ofExpression e = .ok ⟨d, es, n⟩ ↔
      ∃ s t, e = .call (.identifier d.name s) es t ∧ t.start = n := by
  constructor
  · intro h
    unfold ofExpression at h
    split at h
    · split at h
      · next hd =>
        cases h
        rw [Directive.ofName?_eq_some.1 hd]
        exact ⟨_, _, rfl, rfl⟩
      · cases h
    · cases h
    · cases h
  · rintro ⟨s, t, rfl, rfl⟩
    rw [ofExpression, Directive.ofName?_eq_some.2 rfl]

/-- The part of a call of `where` is its filter with the fields that the filter reads. -/
theorem Invocation.descriptor_filter (mode : IntegerMode) (arguments : Arguments) (offset : Nat) :
    descriptor mode ⟨.filter, arguments, offset⟩ = arguments.filter.map fun f =>
      { filter := some f, filterFields := some f.fields } := by
  rw [descriptor, Arguments.compileFilter_eq, except_map_map]

namespace Descriptor

/-- The descriptor of some elements of the top level by themselves, after the directives in
`seen`. -/
def ofElements (options : CompileOptions) (seen : List Directive) (es : List Expression) :
    Except CompileError Descriptor := addElements options seen empty es

/-- What the elements ask for overrides the descriptor that there was before them. -/
theorem addElements_eq (options : CompileOptions) (seen : List Directive) (d : Descriptor)
    (es : List Expression) :
    addElements options seen d es = (ofElements options seen es).map d.override := by
  induction es generalizing seen d with
  | nil => exact congrArg Except.ok d.override_empty.symm
  | cons e es ih =>
    unfold ofElements addElements
    cases Invocation.ofExpression e with
    | error err => rfl
    | ok i =>
      simp only [except_bind_ok]
      split
      · rfl
      · cases i.descriptor options.integers with
        | error err => rfl
        | ok part =>
          simp only [except_bind_ok, ih, empty_override, except_map_map]
          exact except_map_congr fun rest _ => d.override_assoc part rest

theorem ofElements_nil (options : CompileOptions) (seen : List Directive) :
    ofElements options seen [] = .ok empty := rfl

/-- The first element is compiled alone, and the rest overrides it. -/
theorem ofElements_step (options : CompileOptions) (seen : List Directive) (e : Expression)
    (es : List Expression) : ofElements options seen (e :: es) = do
      let i ← Invocation.ofExpression e
      if i.isRefused options.duplicates seen then
        throw (.duplicateDirective i.directive i.offset)
      let part ← i.descriptor options.integers
      let rest ← ofElements options (i.directive :: seen) es
      return part.override rest := by
  rw [ofElements, addElements]
  simp only [addElements_eq, empty_override]
  rfl

/-- The first element is compiled, is not refused, and is overridden by the rest. -/
theorem ofElements_cons_eq_ok {options : CompileOptions} {seen : List Directive} {e : Expression}
    {es : List Expression} {d : Descriptor} :
    ofElements options seen (e :: es) = .ok d ↔
      ∃ directive args offset part rest,
        Invocation.ofExpression e = .ok ⟨directive, args, offset⟩ ∧
        (options.duplicates = .reject → directive ∉ seen) ∧
        Invocation.descriptor options.integers ⟨directive, args, offset⟩ = .ok part ∧
        ofElements options (directive :: seen) es = .ok rest ∧ part.override rest = d := by
  have hrefused : ∀ i : Invocation, i.isRefused options.duplicates seen = false ↔
      (options.duplicates = .reject → i.directive ∉ seen) := by
    intro i
    simp [Invocation.isRefused]
  simp only [ofElements_step, except_bind_eq_ok]
  constructor
  · rintro ⟨⟨directive, args, offset⟩, hi, h⟩
    split at h
    · cases h
    · next hseen =>
      rw [Bool.not_eq_true, hrefused] at hseen
      simp only [except_bind_eq_ok] at h
      obtain ⟨part, hpart, rest, hrest, hd⟩ := h
      cases hd
      exact ⟨directive, args, offset, part, rest, hi, hseen, hpart, hrest, rfl⟩
  · rintro ⟨directive, args, offset, part, rest, hi, hseen, hpart, hrest, rfl⟩
    refine ⟨_, hi, ?_⟩
    rw [if_neg (by rw [Bool.not_eq_true, hrefused]; exact hseen)]
    simp only [except_bind_eq_ok]
    exact ⟨part, hpart, rest, hrest, rfl⟩

theorem ofExpression_eq (options : CompileOptions) (e : Expression) :
    ofExpression options e = e.topLevel >>= ofElements options [] := rfl

/-- A call alone is compiled as its directive says. -/
theorem ofExpression_call (options : CompileOptions) (d : Directive) (es : Arguments)
    (s t : Span) : ofExpression options (.call (.identifier d.name s) es t) =
      Invocation.descriptor options.integers ⟨d, es, t.start⟩ := by
  have hi : Invocation.ofExpression (.call (.identifier d.name s) es t) = .ok ⟨d, es, t.start⟩ :=
    Invocation.ofExpression_eq_ok.2 ⟨s, t, rfl, rfl⟩
  have hseen : Invocation.isRefused options.duplicates [] ⟨d, es, t.start⟩ = false := by
    simp [Invocation.isRefused]
  simp only [ofExpression_eq, Expression.topLevel, ofElements_step, hi, except_bind_ok, hseen]
  cases Invocation.descriptor options.integers ⟨d, es, t.start⟩ with
  | error err => rfl
  | ok part => exact congrArg Except.ok part.override_empty

end Descriptor

end DirectiveQuery
