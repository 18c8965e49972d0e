import DirectiveQuery.Compile.Assembly
import DirectiveQuery.Grammar.Parse
import DirectiveQuery.Text.Blank

/-
  Query texts as descriptors: a text that is not blank is parsed, and its tree compiled. A compiler
  does so for one text. It remembers its descriptor once it has one, and new options make it
  forget; failures are not remembered. How often a text was parsed is counted on the way.
-/
namespace DirectiveQuery

/-- The tree of a query text. -/
def Expression.ofQuery (query : String) : Except CompileError Expression :=
  (parse query).mapError .unparsable

/-- Work on query texts that may fail. The parses are counted, those that fail included. -/
abbrev Counted := ExceptT CompileError (StateM Nat)

/-- What the work comes to, wherever the count starts. -/
def Counted.result {α : Type} (work : Counted α) : Except CompileError α :=
  (work.run.run 0).1

/-- A query that is ready to be compiled, with its options. -/
structure Compiler where
  query : String
  options : CompileOptions := {}
  /-- The descriptor, once it has been compiled under these options. -/
  memo : Option Descriptor := none
deriving Repr

namespace Compiler

/-- A compiler for a query, which may not be blank. -/
def ofQuery (query : String) : Except CompileError Compiler :=
  if Text.isAllBlank query.toList then .error .emptyQuery else .ok { query := query }

/-- The compiler with other options, and without memory. -/
def withOptions (c : Compiler) (options : CompileOptions) : Compiler :=
  { c with options := options, memo := none }

/-- The tree of the query. It is not remembered. -/
def expression (c : Compiler) : Counted Expression := do
  modify (· + 1)
  Expression.ofQuery c.query

/-- The descriptor, and the compiler that remembers it. What is remembered already is not compiled
again. -/
def descriptor (c : Compiler) : Counted (Descriptor × Compiler) :=
  match c.memo with
  | some d => return (d, c)
  | none => do
    let tree ← c.expression
    let d ← Descriptor.ofExpression c.options tree
    return (d, { c with memo := some d })

/-- The descriptor of a compiler that is let go of, as it is remembered or compiled. -/
def intoDescriptor (c : Compiler) : Counted Descriptor :=
  match c.memo with
  | some d => return d
  | none => do
    let tree ← c.expression
    Descriptor.ofExpression c.options tree

end Compiler

/-- The descriptor of a query text, by a compiler that is made for it. -/
def Descriptor.ofQuery (options : CompileOptions) (query : String) :
    Except CompileError Descriptor := do
  let c ← Compiler.ofQuery query
  (c.withOptions options).intoDescriptor.result

end DirectiveQuery
