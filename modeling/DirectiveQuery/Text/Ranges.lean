/-
  Sets of code points, each given as a list of closed ranges in ascending order.
-/
namespace DirectiveQuery.Text

/-- Some closed range of the table holds `n`. -/
def inRanges (table : List (Nat × Nat)) (n : Nat) : Bool :=
  table.any fun (first, last) => first ≤ n && n ≤ last

end DirectiveQuery.Text
