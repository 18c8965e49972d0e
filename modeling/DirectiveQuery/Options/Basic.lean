/-
  Options of compiling: what to do with a repeated directive, and how strictly the argument of
  `limit` and `offset` is read.
-/
namespace DirectiveQuery

/-- What becomes of a directive that a query has twice. -/
inductive DuplicatePolicy where
  /-- The later one replaces the earlier one. -/
  | overwrite
  /-- The query is refused. -/
  | reject
deriving DecidableEq, Repr

/-- How a count is read from its text. -/
inductive IntegerMode where
  /-- The digits at the start count, what follows them does not. -/
  | lenient
  /-- The whole text has to be an integer. -/
  | strict
deriving DecidableEq, Repr

/-- The options of compiling. -/
structure CompileOptions where
  duplicates : DuplicatePolicy := .overwrite
  integers : IntegerMode := .lenient
deriving DecidableEq, Repr

namespace DuplicatePolicy

/-- All policies. -/
def all : List DuplicatePolicy := [overwrite, reject]

/-- The name in an options file. -/
def name : DuplicatePolicy → String
  | overwrite => "overwrite"
  | reject => "reject"

/-- The policy with a name. -/
def ofName? (name : String) : Option DuplicatePolicy := all.find? fun p => p.name == name

/-- The name in diagnostics. -/
def debug : DuplicatePolicy → String
  | overwrite => "Overwrite"
  | reject => "Reject"

end DuplicatePolicy

namespace IntegerMode

/-- All modes. -/
def all : List IntegerMode := [lenient, strict]

/-- The name in an options file. -/
def name : IntegerMode → String
  | lenient => "lenient"
  | strict => "strict"

/-- The mode with a name. -/
def ofName? (name : String) : Option IntegerMode := all.find? fun m => m.name == name

/-- The name in diagnostics. -/
def debug : IntegerMode → String
  | lenient => "Lenient"
  | strict => "Strict"

end IntegerMode

/-- The options, for diagnostics. -/
def CompileOptions.debug (o : CompileOptions) : String :=
  "CompileOptions \x7b duplicates: " ++ o.duplicates.debug ++ ", integers: " ++ o.integers.debug
    ++ " \x7d"

end DirectiveQuery
