import DirectiveQuery.Compile.Query
import DirectiveQuery.Proofs.Outcome

/-
  What a compiler does, with and without a descriptor in its memory. Without one its query is
  parsed once and compiled, whether that fails or not (`run_descriptor_of_none`,
  `run_intoDescriptor_of_none`); with one nothing is parsed. A compiler that is made for a text
  has none, so the two ways to ask it for its descriptor have one outcome (`descriptor_result`),
  which is that of the steps of parsing and compiling (`ofQuery_eq`).
-/
namespace DirectiveQuery

namespace Counted

variable {α β : Type}

theorem run_bind (work : Counted α) (next : α → Counted β) (n : Nat) :
    (work >>= next).run.run n =
      match work.run.run n with
      | (.ok a, m) => (next a).run.run m
      | (.error e, m) => (.error e, m) := by
  rw [ExceptT.run_bind, StateT.run_bind]
  obtain ⟨result, m⟩ := work.run.run n
  cases result <;> rfl

theorem run_lift (result : Except CompileError α) (n : Nat) :
    (liftM result : Counted α).run.run n = (result, n) := rfl

end Counted

/-- A query with its options. -/
structure Setting where
  query : String
  options : CompileOptions
deriving DecidableEq, Repr

/-- The descriptor of the query under the options, compiled from its text. -/
def Setting.descriptor (s : Setting) : Except CompileError Descriptor :=
  Expression.ofQuery s.query >>= Descriptor.ofExpression s.options

namespace Compiler

/-- The query and the options of a compiler. -/
def setting (c : Compiler) : Setting := ⟨c.query, c.options⟩

theorem run_expression (c : Compiler) (n : Nat) :
    c.expression.run.run n = (Expression.ofQuery c.query, n + 1) := rfl

theorem run_descriptor_of_none {c : Compiler} (h : c.memo = none) (n : Nat) :
    c.descriptor.run.run n =
      (c.setting.descriptor.map fun d => (d, { c with memo := some d }), n + 1) := by
  rw [descriptor, h, Setting.descriptor, setting]
  simp only [Counted.run_bind, run_expression, Counted.run_lift]
  cases Expression.ofQuery c.query with
  | error e => rfl
  | ok tree =>
    simp only [except_bind_ok]
    cases Descriptor.ofExpression c.options tree <;> rfl

theorem run_intoDescriptor_of_none {c : Compiler} (h : c.memo = none) (n : Nat) :
    c.intoDescriptor.run.run n = (c.setting.descriptor, n + 1) := by
  rw [intoDescriptor, h, Setting.descriptor, setting]
  simp only [Counted.run_bind, run_expression, Counted.run_lift]
  cases Expression.ofQuery c.query <;> rfl

theorem run_descriptor_of_some {c : Compiler} {d : Descriptor} (h : c.memo = some d) (n : Nat) :
    c.descriptor.run.run n = (.ok (d, c), n) := by
  rw [descriptor, h]
  rfl

theorem run_intoDescriptor_of_some {c : Compiler} {d : Descriptor} (h : c.memo = some d)
    (n : Nat) : c.intoDescriptor.run.run n = (.ok d, n) := by
  rw [intoDescriptor, h]
  rfl

end Compiler

/-- A text that is not blank is parsed, and its tree compiled. -/
theorem Descriptor.ofQuery_eq (options : CompileOptions) (query : String) :
    ofQuery options query =
      if Text.isAllBlank query.toList then .error .emptyQuery
      else Expression.ofQuery query >>= ofExpression options := by
  unfold ofQuery Compiler.ofQuery
  split
  · rfl
  · rw [except_bind_ok, Counted.result, Compiler.run_intoDescriptor_of_none rfl]
    rfl

/-- New options make a compiler forget, so it compiles its query anew. -/
theorem Compiler.descriptor_result (c : Compiler) (options : CompileOptions) :
    (c.withOptions options).descriptor.result.map Prod.fst =
      (c.withOptions options).intoDescriptor.result := by
  rw [Counted.result, Counted.result, run_descriptor_of_none rfl,
    run_intoDescriptor_of_none rfl, except_map_map]
  cases (c.withOptions options).setting.descriptor <;> rfl

end DirectiveQuery
