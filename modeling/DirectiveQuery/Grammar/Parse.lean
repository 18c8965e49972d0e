import DirectiveQuery.Grammar.Query
import DirectiveQuery.SyntaxError

/-
  Reading a query text into its tree. The grammar counts bytes; the spans of the tree and the
  offsets of errors count characters.
-/
namespace DirectiveQuery

/-- The tree with its byte positions turned into character positions. -/
def Expression.inCharacters (positions : Text.Positions) (e : Expression) : Expression :=
  e.mapSpans (Span.mapEnds positions.character)

/-- The tree of a query, or where and why there is none. -/
def Expression.parse (query : String) : Except SyntaxError Expression :=
  let text := query.toList
  match Grammar.program (Cursor.start text) with
  | ⟨some (e, _), _, _⟩ => .ok (e.inCharacters (Text.Positions.ofText text))
  | ⟨none, misses, _⟩ => .error (SyntaxError.ofMisses text misses)

end DirectiveQuery
