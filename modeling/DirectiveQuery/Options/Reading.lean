import DirectiveQuery.Json.Reading
import DirectiveQuery.Options.Basic

/-
  Options files. An options file is a JSON object with a member for each option, or an array of
  the options in their order; what is missing has its default. A choice is written as its name,
  or as an object that maps its name to null. Members with other keys are passed over, as long
  as they have the shape of JSON, but an option may not be given twice.
-/
namespace DirectiveQuery

open Json (skipSpace)

namespace CompileOptions

/-- Reads a string at the head of a text. -/
def readName? (text : List Char) : Option (String × List Char) :=
  match skipSpace text with
  | '"' :: rest => Json.readString? true rest
  | _ => none

/-- Reads the given characters at the head of a text. -/
def readToken? (token : List Char) (text : List Char) : Option (List Char) :=
  let text := skipSpace text
  if token.isPrefixOf text then some (text.drop token.length) else none

/-- Reads a choice at the head of a text. -/
def readChoice? {α : Type} (ofName? : String → Option α) (text : List Char) :
    Option (α × List Char) := do
  match readToken? ['\x7b'] text with
  | some inside =>
    let (name, rest) ← readName? inside
    let choice ← ofName? name
    let rest ← readToken? [':'] rest
    let rest ← readToken? "null".toList rest
    let rest ← readToken? ['\x7d'] rest
    return (choice, rest)
  | none =>
    let (name, rest) ← readName? text
    return (← ofName? name, rest)

/-- The options that an options file has given so far. -/
structure Given where
  duplicates : Option DuplicatePolicy := none
  integers : Option IntegerMode := none

/-- The options that were given, and the defaults of the others. -/
def Given.options (g : Given) : CompileOptions :=
  ⟨g.duplicates.getD .overwrite, g.integers.getD .lenient⟩

/-- Reads one member of the object. -/
def readMember? (g : Given) (text : List Char) : Option (Given × List Char) := do
  let (key, rest) ← readName? text
  let rest ← readToken? [':'] rest
  if key = "duplicates" then
    if g.duplicates.isSome then none
    let (choice, rest) ← readChoice? DuplicatePolicy.ofName? rest
    return ({ g with duplicates := some choice }, rest)
  else if key = "integers" then
    if g.integers.isSome then none
    let (choice, rest) ← readChoice? IntegerMode.ofName? rest
    return ({ g with integers := some choice }, rest)
  else
    let (_, rest) ← Json.readPrefix? false rest
    return (g, rest)

/-- Reads one or more members and the closing brace. The second argument bounds how many. -/
def readMembers? (g : Given) : Nat → List Char → Option (Given × List Char)
  | 0, _ => none
  | count + 1, text => do
    let (g, rest) ← readMember? g text
    match readToken? [','] rest with
    | some more => readMembers? g count more
    | none => return (g, ← readToken? ['\x7d'] rest)

/-- Reads the elements of the array and the closing bracket. -/
def readElements? (text : List Char) : Option (Given × List Char) := do
  match readToken? [']'] text with
  | some rest => return ({}, rest)
  | none =>
    let (duplicates, rest) ← readChoice? DuplicatePolicy.ofName? text
    match readToken? [','] rest with
    | none => return ({ duplicates := some duplicates }, ← readToken? [']'] rest)
    | some more =>
      let (integers, rest) ← readChoice? IntegerMode.ofName? more
      return (⟨some duplicates, some integers⟩, ← readToken? [']'] rest)

/-- Reads the options at the head of a text. -/
def readGiven? (text : List Char) : Option (Given × List Char) := do
  match readToken? ['['] text with
  | some inside => readElements? inside
  | none =>
    let inside ← readToken? ['\x7b'] text
    match readToken? ['\x7d'] inside with
    | some rest => return ({}, rest)
    | none => readMembers? {} inside.length inside

/-- The options that the content of an options file gives. -/
def ofText? (content : String) : Option CompileOptions :=
  match readGiven? content.toList with
  | some (g, rest) => if (skipSpace rest).isEmpty then some g.options else none
  | none => none

end CompileOptions

end DirectiveQuery
