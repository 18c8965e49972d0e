import DirectiveQuery.Compile.Condition
import DirectiveQuery.Compile.Count

/-
  Trees as descriptors. The calls at the top level are compiled in their order, each into a
  descriptor with the parts of its directive, which overrides what the calls before it gave. The
  first call that cannot be compiled decides the error.
-/
namespace DirectiveQuery

/-- A call of a directive at the top level of a query. -/
structure Invocation where
  directive : Directive
  arguments : Arguments
  offset : Nat
deriving Repr

namespace Invocation

/-- The invocation that an element of the top level makes. The callee has to be the bare name
of a directive. -/
def ofExpression : Expression → Except CompileError Invocation
  | .call (.identifier name nameSpan) arguments s =>
    match Directive.ofName? name with
    | some directive => .ok ⟨directive, arguments, s.start⟩
    | none => .error (.unknownDirective name nameSpan.start)
  | .call callee _ _ => .error (.malformedQuery callee.offset)
  | e => .error (.malformedQuery e.offset)

/-- The descriptor with what the invocation alone asks for. -/
def descriptor (mode : IntegerMode) (i : Invocation) : Except CompileError Descriptor :=
  match i.directive with
  | .select => (i.arguments.fields .select).map fun fields => { select := some fields }
  | .extend => (i.arguments.fields .extend).map fun fields => { extend := some fields }
  | .filter => i.arguments.compileFilter.map fun compiled =>
    { filter := some compiled.filter, filterFields := some compiled.fields }
  | .order => i.arguments.sortKeys.map fun keys => { order := some keys }
  | .limit => (i.arguments.count .limit mode).map fun n => { limit := some n }
  | .offset => (i.arguments.count .offset mode).map fun n => { offset := some n }

/-- A policy refuses the invocation after the directives that were seen before it. -/
def isRefused (policy : DuplicatePolicy) (seen : List Directive) (i : Invocation) : Bool :=
  policy = .reject && seen.contains i.directive

end Invocation

/-- The elements of the top level: a call alone, or all elements of a sequence. -/
def Expression.topLevel : Expression → Except CompileError (List Expression)
  | call callee arguments s => .ok [call callee arguments s]
  | sequence elements _ => .ok elements
  | e => .error (.malformedQuery e.offset)

namespace Descriptor

/-- Compiles elements of the top level, after the directives in `seen`. What each of them asks for
overrides the descriptor that there was by then. -/
def addElements (options : CompileOptions) (seen : List Directive) (d : Descriptor) :
    List Expression → Except CompileError Descriptor
  | [] => .ok d
  | e :: es => do
    let i ← Invocation.ofExpression e
    if i.isRefused options.duplicates seen then
      throw (.duplicateDirective i.directive i.offset)
    let part ← i.descriptor options.integers
    addElements options (i.directive :: seen) (d.override part) es

/-- The descriptor of a tree. -/
def ofExpression (options : CompileOptions) (e : Expression) : Except CompileError Descriptor := do
  addElements options [] empty (← e.topLevel)

end Descriptor

end DirectiveQuery
