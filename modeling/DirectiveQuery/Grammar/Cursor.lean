import DirectiveQuery.Expression.Span

/-
  A place in a text under reading: the characters ahead, and how many bytes, lines and columns
  lie behind. A cursor moves over one character at a time, so its counts always belong to the
  text between its start and it.
-/
namespace DirectiveQuery

/-- A place in a text under reading. -/
structure Cursor where
  /-- The characters ahead. -/
  ahead : List Char
  /-- The bytes behind. -/
  byte : Nat
  /-- The line, from one. -/
  line : Nat
  /-- The column, from one. -/
  column : Nat
deriving DecidableEq, Repr

namespace Cursor

/-- The place before a text. -/
def start (text : List Char) : Cursor := ⟨text, 0, 1, 1⟩

/-- The place after the next character. A line feed ends its line; at the end of the text the
cursor stays. -/
def next (c : Cursor) : Cursor :=
  match c.ahead with
  | [] => c
  | '\n' :: rest => ⟨rest, c.byte + 1, c.line + 1, 1⟩
  | ch :: rest => ⟨rest, c.byte + ch.utf8Size, c.line, c.column + 1⟩

/-- The place after the next `n` characters. -/
def advance : Nat → Cursor → Cursor
  | 0, c => c
  | n + 1, c => advance n c.next

/-- The span from one cursor to another, in bytes. -/
def spanTo (a b : Cursor) : Span := ⟨a.byte, b.byte, a.line, a.column⟩

theorem ahead_next (c : Cursor) : c.next.ahead = c.ahead.tail := by
  unfold next
  split <;> simp_all

theorem ahead_advance (n : Nat) (c : Cursor) : (c.advance n).ahead = c.ahead.drop n := by
  induction n generalizing c with
  | zero => rfl
  | succ n ih => rw [advance, ih, ahead_next, List.drop_tail]

end Cursor

end DirectiveQuery
