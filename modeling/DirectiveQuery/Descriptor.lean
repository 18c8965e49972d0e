import DirectiveQuery.Filter.Basic

/-
  Descriptors, the results of compiling queries. A part is there exactly when the query has a
  directive for it. Overriding one descriptor by another takes each part from the second one
  where it has that part; the filter and the fields that it reads go together.
-/
namespace DirectiveQuery

/-- The two ways to sort. -/
inductive Direction where
  | ascending
  | descending
deriving DecidableEq, Repr

/-- The number that stands for a direction in a descriptor. -/
def Direction.toJson : Direction → Json
  | ascending => .integer 1
  | descending => .integer (-1)

/-- A field to sort by. -/
structure SortKey where
  field : String
  direction : Direction
deriving DecidableEq, Repr

/-- A sort key as JSON. -/
def SortKey.toJson (k : SortKey) : Json := .object [(k.field, k.direction.toJson)]

/-- What a query asks for. -/
structure Descriptor where
  select : Option (List String) := none
  filter : Option Filter := none
  /-- The fields that the filter reads. -/
  filterFields : Option (List String) := none
  order : Option (List SortKey) := none
  extend : Option (List String) := none
  limit : Option Nat := none
  offset : Option Nat := none
deriving Repr

namespace Descriptor

/-- Nothing is asked for. -/
def empty : Descriptor := {}

/-- Each part of `later` that is there, and the parts of `earlier` for the rest. -/
def override (earlier later : Descriptor) : Descriptor where
  select := later.select <|> earlier.select
  filter := later.filter <|> earlier.filter
  filterFields := later.filterFields <|> earlier.filterFields
  order := later.order <|> earlier.order
  extend := later.extend <|> earlier.extend
  limit := later.limit <|> earlier.limit
  offset := later.offset <|> earlier.offset

/-- The member for a part that may be missing. -/
def member (key : String) (part : Option Json) : List (String × Json) :=
  match part with
  | some value => [(key, value)]
  | none => []

/-- The descriptor as JSON, with the parts that are there. -/
def toJson (d : Descriptor) : Json :=
  .object
    (member "select" (d.select.map Json.strings)
      ++ member "where" (d.filter.map Filter.toJson)
      ++ member "whereFields" (d.filterFields.map Json.strings)
      ++ member "order" (d.order.map fun keys => .array (keys.map SortKey.toJson))
      ++ member "extend" (d.extend.map Json.strings)
      ++ member "limit" (d.limit.map fun n => .integer n)
      ++ member "offset" (d.offset.map fun n => .integer n))

theorem empty_override (d : Descriptor) : empty.override d = d := by
  cases d
  simp [override, empty]

theorem override_empty (d : Descriptor) : d.override empty = d := by
  cases d
  simp [override, empty]

theorem override_assoc (a b c : Descriptor) :
    (a.override b).override c = a.override (b.override c) := by
  cases a; cases b; cases c
  simp only [override, mk.injEq]
  grind

end Descriptor

end DirectiveQuery
