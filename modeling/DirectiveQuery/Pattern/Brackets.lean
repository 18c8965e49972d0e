import DirectiveQuery.Pattern.Escape
import DirectiveQuery.Text.Line

/-
  Reading sets of characters in brackets. Sets nest, and operations take what stands before
  them and what follows, from left to right; a dash between two characters makes a range.
-/
namespace DirectiveQuery.Pattern

/-- Brackets that have been opened. -/
structure OpenBrackets where
  negated : Bool
  /-- The left side of an operation, of which the right side is being read. -/
  left : Option (SetOperation × CharSet) := none
  /-- The parts of the union that is being read, the last one first. -/
  parts : List CharSet := []
  /-- Nothing but dashes has been read, which stand for themselves here. -/
  fresh : Bool := true

namespace OpenBrackets

/-- The brackets with one more part. -/
def push (b : OpenBrackets) (part : CharSet) : OpenBrackets := { b with parts := part :: b.parts }

/-- The set so far. -/
def set (b : OpenBrackets) : CharSet :=
  let right := CharSet.ofParts b.parts.reverse
  match b.left with
  | none => right
  | some (operation, left) => .combined operation left right

/-- The brackets after the sign of an operation. -/
def combine (b : OpenBrackets) (operation : SetOperation) : OpenBrackets :=
  { b with left := some (operation, b.set), parts := [] }

/-- The brackets after their opening, and what follows it. -/
def ofText (spaced : Bool) (text : List Char) : OpenBrackets × List Char :=
  match skip spaced text with
  | '^' :: rest => ({ negated := true }, rest)
  | rest => ({ negated := false }, rest)

end OpenBrackets

/-- The names of classes of ASCII characters. -/
def classNames : List String :=
  ["alnum", "alpha", "ascii", "blank", "cntrl", "digit", "graph", "lower", "print", "punct",
    "space", "upper", "word", "xdigit"]

/-- A class by its name between colons, after the opening bracket, and what follows it. -/
def namedClass? (text : List Char) : Option (CharSet × List Char) := do
  let text ← Text.dropStart? [':'] text
  let (negated, text) := match text with
    | '^' :: rest => (true, rest)
    | text => (false, text)
  let (name, rest) := text.span fun c => c != ':'
  let rest ← Text.dropStart? [':', ']'] rest
  let name := String.ofList name
  if classNames.contains name then return (.named negated name, rest) else none

/-- The sign of an operation is a character twice. -/
def operation? : Char → Option SetOperation
  | '&' => some .intersection
  | '-' => some .difference
  | '~' => some .symmetricDifference
  | _ => none

/-- One element of a set, which starts with `c`, and what follows it. -/
def element? (spaced : Bool) (c : Char) (rest : List Char) : Option (Pattern × List Char) :=
  if c = '\\' then escape? spaced rest else some (char c false, rest)

/-- The element as a set. -/
def elementSet? : Pattern → Option CharSet
  | char c _ => some (.char c)
  | shorthand letter => some (.shorthand letter)
  | _ => none

/-- The range between two elements. -/
def range? (first last : Pattern) : Option CharSet :=
  match first, last with
  | char a _, char b _ => if a ≤ b then some (.range a b) else none
  | _, _ => none

/-- An element or a range, which starts with `c`, and what follows it. A dash right before a
closing bracket or another dash makes no range. -/
def part? (spaced : Bool) (c : Char) (rest : List Char) : Option (CharSet × List Char) := do
  let (first, rest) ← element? spaced c rest
  let rest := skip spaced rest
  let single : Option (CharSet × List Char) := (elementSet? first).map fun set => (set, rest)
  match rest with
  | '-' :: after =>
    let next := ahead? spaced after
    if next = some ']' || next = some '-' then single
    else
      match skip spaced after with
      | [] => none
      | d :: rest =>
        let (last, rest) ← element? spaced d rest
        return (← range? first last, rest)
  | _ => single

/-- Reads brackets to their end, and gives what follows them. The brackets around them are
`outer`, the innermost first. Each step takes one character or more, so that `fuel` steps are
enough for a shorter text. -/
def bracketsFrom? (spaced : Bool) :
    (fuel : Nat) → OpenBrackets → (outer : List OpenBrackets) → List Char →
      Option (Pattern × List Char)
  | 0, _, _, _ => none
  | fuel + 1, b, outer, text =>
    match skip spaced text with
    | [] => none
    | c :: rest =>
      let old := { b with fresh := false }
      if b.fresh && c = '-' then bracketsFrom? spaced fuel (b.push (.char c)) outer rest
      else if b.fresh && b.parts.isEmpty && c = ']' then
        bracketsFrom? spaced fuel (old.push (.char c)) outer rest
      else if c = '[' then
        match namedClass? rest with
        | some (set, rest) => bracketsFrom? spaced fuel (old.push set) outer rest
        | none =>
          let (inner, rest) := OpenBrackets.ofText spaced rest
          bracketsFrom? spaced fuel inner (old :: outer) rest
      else if c = ']' then
        match outer with
        | [] => some (brackets b.negated b.set, rest)
        | next :: outer =>
          bracketsFrom? spaced fuel (next.push (.nested b.negated b.set)) outer rest
      else
        match if rest.head? = some c then operation? c else none with
        | some operation => bracketsFrom? spaced fuel (old.combine operation) outer rest.tail
        | none =>
          match part? spaced c rest with
          | some (set, rest) => bracketsFrom? spaced fuel (old.push set) outer rest
          | none => none

/-- Reads brackets after their opening one, and gives what follows them. -/
def brackets? (spaced : Bool) (text : List Char) : Option (Pattern × List Char) :=
  let (b, rest) := OpenBrackets.ofText spaced text
  bracketsFrom? spaced (rest.length + 1) b [] rest

end DirectiveQuery.Pattern
