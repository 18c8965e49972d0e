/-
  Places in a query text. A span runs from its first position to the position after its last
  one; line and column count from one and belong to its first position.
-/
namespace DirectiveQuery

/-- A part of a query text. -/
structure Span where
  start : Nat
  stop : Nat
  line : Nat
  column : Nat
deriving DecidableEq, Repr

namespace Span

/-- From the start of one span through the end of another one, or through its own end if that
is later. -/
def through (a b : Span) : Span := { a with stop := max b.stop a.stop }

/-- The line and the column, as shown to readers. -/
def display (s : Span) : String := toString s.line ++ ":" ++ toString s.column

/-- The span with both its ends moved. -/
def mapEnds (f : Nat → Nat) (s : Span) : Span := { s with start := f s.start, stop := f s.stop }

end Span

end DirectiveQuery
