import DirectiveQuery.Compile.Query

/-
  What happens while a query is compiled, in order. The events are those of the very steps that
  compile the query, and they end where the first of these steps fails.
-/
namespace DirectiveQuery

/-- Something that happens while a query is compiled. -/
inductive CompileEvent where
  | treeBuilt (shape : String) (stop : Nat)
  /-- A directive that was there before is compiled again. -/
  | repeated (directive : Directive) (offset : Nat)
  | compiling (invocation : Invocation)
  | filterCompiled (filter : Filter) (fields : List String)
  | compiled (descriptor : Descriptor)
deriving Repr

namespace CompileEvent

/-- The events after a text was parsed. -/
def ofParse : Except SyntaxError Expression → List CompileEvent
  | .ok e => [treeBuilt e.shape e.span.stop]
  | .error _ => []

/-- The events while one invocation is compiled into a descriptor. -/
def ofDescriptor (d : Descriptor) : List CompileEvent :=
  match d.filter, d.filterFields with
  | some f, some fields => [filterCompiled f fields]
  | _, _ => []

/-- The events while elements of the top level are assembled, after the directives in `seen`. -/
def ofElements (options : CompileOptions) (seen : List Directive) :
    List Expression → List CompileEvent
  | [] => []
  | e :: es =>
    match Invocation.ofExpression e with
    | .error _ => []
    | .ok i =>
      if i.isRefused options.duplicates seen then []
      else
        (if seen.contains i.directive then [repeated i.directive i.offset] else [])
          ++ compiling i ::
            match i.descriptor options.integers with
            | .error _ => []
            | .ok d => ofDescriptor d ++ ofElements options (i.directive :: seen) es

/-- The events while a tree is compiled. -/
def ofExpression (options : CompileOptions) (e : Expression) : List CompileEvent :=
  (match e.topLevel with
    | .error _ => []
    | .ok es => ofElements options [] es)
    ++
      match Descriptor.ofExpression options e with
      | .error _ => []
      | .ok d => [compiled d]

/-- The events while a query text is compiled. -/
def ofQuery (options : CompileOptions) (query : String) : List CompileEvent :=
  if Text.isAllBlank query.toList then []
  else
    let parsed := Expression.parse query
    ofParse parsed ++
      match parsed with
      | .error _ => []
      | .ok e => ofExpression options e

end CompileEvent

end DirectiveQuery
