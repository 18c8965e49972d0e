import DirectiveQuery.Binary64.Basic
import DirectiveQuery.Expression.Operator
import DirectiveQuery.Expression.Span

/-
  Expression trees. A query is read into a tree whose nodes know where they stand in the text;
  parentheses leave no node behind.
-/
namespace DirectiveQuery

/-- Values that are written out in a query. -/
inductive Literal where
  | string (text : String)
  | number (value : Binary64)
  | boolean (value : Bool)
  | null
deriving DecidableEq, Repr

/-- A tree of the query language. -/
inductive Expression where
  | identifier (name : String) (span : Span)
  | literal (value : Literal) (span : Span)
  | unary (mark : Mark) (argument : Expression) (span : Span)
  | binary (left : Expression) (operator : Comparison) (right : Expression) (span : Span)
  | logical (left : Expression) (operator : Connective) (right : Expression) (span : Span)
  | array (elements : List Expression) (span : Span)
  | call (callee : Expression) (arguments : List Expression) (span : Span)
  | sequence (elements : List Expression) (span : Span)
deriving Repr

namespace Expression

/-- Where the expression stands. -/
def span : Expression → Span
  | identifier _ s | literal _ s | unary _ _ s | binary _ _ _ s | logical _ _ _ s | array _ s
  | call _ _ s | sequence _ s => s

/-- The position at which the expression starts. -/
def offset (e : Expression) : Nat := e.span.start

/-- The name of the expression's shape, in diagnostics. -/
def shape : Expression → String
  | identifier .. => "identifier"
  | literal .. => "literal"
  | unary .. => "unary expression"
  | binary .. => "binary expression"
  | logical .. => "logical expression"
  | array .. => "array"
  | call .. => "call"
  | sequence .. => "sequence"

/-- The field that an identifier or a string names. -/
def fieldName? : Expression → Option String
  | identifier name _ => some name
  | literal (.string name) _ => some name
  | _ => none

mutual

/-- The tree with the span of every node changed. -/
def mapSpans (f : Span → Span) : Expression → Expression
  | identifier name s => identifier name (f s)
  | literal value s => literal value (f s)
  | unary mark argument s => unary mark (mapSpans f argument) (f s)
  | binary left operator right s => binary (mapSpans f left) operator (mapSpans f right) (f s)
  | logical left operator right s => logical (mapSpans f left) operator (mapSpans f right) (f s)
  | array elements s => array (mapSpansAll f elements) (f s)
  | call callee arguments s => call (mapSpans f callee) (mapSpansAll f arguments) (f s)
  | sequence elements s => sequence (mapSpansAll f elements) (f s)

/-- The trees with the span of every node changed. -/
def mapSpansAll (f : Span → Span) : List Expression → List Expression
  | [] => []
  | e :: es => mapSpans f e :: mapSpansAll f es

end

theorem mapSpansAll_eq_map (f : Span → Span) (es : List Expression) :
    mapSpansAll f es = es.map (mapSpans f) := by
  induction es with
  | nil => rfl
  | cons e es ih => rw [mapSpansAll, ih, List.map_cons]

theorem span_mapSpans (f : Span → Span) (e : Expression) : (e.mapSpans f).span = f e.span := by
  cases e <;> rfl

end Expression

end DirectiveQuery
