import DirectiveQuery.Compile.Query

/-
  Sessions. A session holds at most one compiler, is asked for what the compiler has to say, and
  carries the count of the parses on from step to step. A compiler that fails is held as it was.
-/
namespace DirectiveQuery

/-- A session: the compiler that it holds, and how many parses it has made. -/
structure Session where
  held : Option Compiler := none
  parses : Nat := 0
deriving Repr

/-- What can be asked of a session. -/
inductive Step where
  /-- Holds a new compiler for a query. -/
  | start (query : String)
  /-- Sets the options of the held compiler. -/
  | setOptions (options : CompileOptions)
  /-- Asks the held compiler for its descriptor. -/
  | descriptor
  /-- Asks the held compiler for the tree of its query. -/
  | expression
  /-- Asks the held compiler for its descriptor and lets go of it. -/
  | finish
deriving DecidableEq, Repr

/-- What a session answers. -/
inductive Answer where
  | done
  | refused (error : CompileError)
  | descriptor (result : Except CompileError Descriptor)
  | expression (result : Except CompileError Expression)
  /-- No compiler is held. -/
  | noCompiler

namespace Session

/-- A session in which nothing has happened. -/
def fresh : Session := {}

/-- The answer to a step, and the session after it. -/
def step (s : Session) : Step → Answer × Session
  | .start query =>
    match Compiler.ofQuery query with
    | .ok c => (.done, { s with held := some c })
    | .error e => (.refused e, { s with held := none })
  | .setOptions options =>
    match s.held with
    | some c => (.done, { s with held := some (c.withOptions options) })
    | none => (.noCompiler, s)
  | .descriptor =>
    match s.held with
    | some c =>
      match c.descriptor.run.run s.parses with
      | (.ok (d, c), parses) => (.descriptor (.ok d), ⟨some c, parses⟩)
      | (.error e, parses) => (.descriptor (.error e), ⟨some c, parses⟩)
    | none => (.noCompiler, s)
  | .expression =>
    match s.held with
    | some c =>
      let (result, parses) := c.expression.run.run s.parses
      (.expression result, { s with parses := parses })
    | none => (.noCompiler, s)
  | .finish =>
    match s.held with
    | some c =>
      let (result, parses) := c.intoDescriptor.run.run s.parses
      (.descriptor result, ⟨none, parses⟩)
    | none => (.noCompiler, s)

/-- The answers to several steps, each with the number of parses made by then. -/
def run (s : Session) : List Step → List (Answer × Nat)
  | [] => []
  | t :: ts =>
    let (answer, next) := s.step t
    (answer, next.parses) :: next.run ts

end Session

end DirectiveQuery
