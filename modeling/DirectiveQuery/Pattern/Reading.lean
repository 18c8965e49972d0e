import DirectiveQuery.Pattern.Brackets
import DirectiveQuery.Text.Alphanumeric

/-
  Reading patterns. Groups nest, and each has alternatives that are rows of items; an item may
  be repeated once or several times over. Counted repetitions are no part of these patterns,
  and no two groups have one name.
-/
namespace DirectiveQuery.Pattern

/-- What has been read of a group. -/
structure OpenRow where
  /-- The alternatives before this one, the last one first. -/
  branches : List Pattern := []
  /-- The items of the row, the last one first. -/
  items : List Pattern := []

namespace OpenRow

/-- The row with one more item. -/
def push (r : OpenRow) (p : Pattern) : OpenRow := { r with items := p :: r.items }

/-- The alternative so far. -/
def branch (r : OpenRow) : Pattern := ofRow r.items.reverse

/-- The row of the next alternative. -/
def alternate (r : OpenRow) : OpenRow := ⟨r.branch :: r.branches, []⟩

/-- The pattern so far. -/
def pattern (r : OpenRow) : Pattern :=
  if r.branches.isEmpty then r.branch else alternatives (r.branch :: r.branches).reverse

/-- The row with its last item repeated. Flags cannot be. -/
def repeat? (r : OpenRow) : Option OpenRow :=
  match r.items with
  | [] | flags _ :: _ => none
  | p :: items => some { r with items := repeated p :: items }

end OpenRow

/-- A group that has been opened, and the row around it. -/
structure OpenGroup where
  before : OpenRow
  changes : FlagChanges
  /-- Blanks are skipped around the group. -/
  spaced : Bool

/-- How far a pattern has been read. -/
structure Progress where
  row : OpenRow := {}
  /-- The groups that are open, the innermost first. -/
  groups : List OpenGroup := []
  /-- The names of groups so far. -/
  names : List (List Char) := []
  spaced : Bool := false

namespace Progress

/-- The progress with one more item. -/
def push (s : Progress) (p : Pattern) : Progress := { s with row := s.row.push p }

/-- The progress with one more group open. -/
def enter (s : Progress) (changes : FlagChanges) : Progress :=
  { s with
    row := {}
    groups := ⟨s.row, changes, s.spaced⟩ :: s.groups
    spaced := changes.apply .spaced s.spaced }

/-- The progress with the innermost group closed. -/
def leave? (s : Progress) : Option Progress :=
  match s.groups with
  | [] => none
  | g :: groups =>
    some { s with
      row := g.before.push (group g.changes s.row.pattern)
      groups := groups
      spaced := g.spaced }

/-- The whole pattern, if no group is open. -/
def pattern? (s : Progress) : Option Pattern :=
  if s.groups.isEmpty then some s.row.pattern else none

end Progress

/-! ## Groups -/

/-- The changes that letters stand for: those before a dash are switched on, those after it
off. A dash has letters after it, and no letter comes twice. -/
def changes? (letters : List Char) : Option FlagChanges := do
  let (before, after) := (Text.cutAt '-' letters).getD (letters, [])
  let on ← before.mapM PatternFlag.ofChar?
  let off ← after.mapM PatternFlag.ofChar?
  let all := on ++ off
  if letters.contains '-' && after.isEmpty then none
  else if all.eraseDups.length = all.length then
    return on.map (·, true) ++ off.map (·, false)
  else none

/-- The name of a group: it starts with a letter or an underscore. -/
def isName : List Char → Bool
  | [] => false
  | c :: rest =>
    (c = '_' || Text.isAlphabetic c) && rest.all fun c =>
      Text.isAlphanumeric c || c = '_' || c = '.' || c = '[' || c = ']'

/-- Reads on after the opening of a group with a name, from that name on. -/
def namedGroup? (s : Progress) (text : List Char) : Option (Progress × List Char) := do
  let (name, rest) ← Text.cutAt '>' text
  if isName name && !s.names.contains name then
    return ({ s with names := name :: s.names }.enter [], rest)
  else none

/-- Reads on after the question mark at the start of a group: flags for the group, or for what
follows. -/
def flaggedGroup? (s : Progress) (text : List Char) : Option (Progress × List Char) := do
  let (letters, rest) := text.span fun c => c != ':' && c != ')'
  let changes ← changes? letters
  match rest with
  | ':' :: rest => return (s.enter changes, rest)
  | ')' :: rest =>
    if changes.isEmpty then none
    else return ({ s with spaced := changes.apply .spaced s.spaced }.push (flags changes), rest)
  | _ => none

/-- Reads on after an opening parenthesis. -/
def group? (s : Progress) (text : List Char) : Option (Progress × List Char) :=
  match skip s.spaced text with
  | '?' :: '<' :: rest | '?' :: 'P' :: '<' :: rest => namedGroup? s rest
  | '?' :: rest => flaggedGroup? s rest
  | rest => some (s.enter [], rest)

/-! ## Rows -/

/-- Reads on after the character `c`. -/
def next? (s : Progress) (c : Char) (rest : List Char) : Option (Progress × List Char) :=
  let andThen (read : Option (Pattern × List Char)) : Option (Progress × List Char) :=
    read.map fun (p, rest) => (s.push p, rest)
  match c with
  | '(' => group? s rest
  | ')' => s.leave?.map fun s => (s, rest)
  | '|' => some ({ s with row := s.row.alternate }, rest)
  | '[' => andThen (brackets? s.spaced rest)
  | '\\' => andThen (escape? s.spaced rest)
  | '*' | '+' | '?' =>
    let rest := match rest with
      | '?' :: rest => rest
      | rest => rest
    s.row.repeat?.map fun row => ({ s with row := row }, rest)
  | '\x7b' => none
  | '.' => andThen (some (dot, rest))
  | '^' | '$' => andThen (some (edge, rest))
  | c => andThen (some (char c false, rest))

/-- Reads a pattern to its end. Each step takes one character or more, so that `fuel` steps are
enough for a shorter text. -/
def readFrom? : (fuel : Nat) → Progress → List Char → Option Pattern
  | 0, _, _ => none
  | fuel + 1, s, text =>
    match skip s.spaced text with
    | [] => s.pattern?
    | c :: rest =>
      match next? s c rest with
      | some (s, rest) => readFrom? fuel s rest
      | none => none

/-- Reads a pattern. -/
def ofText? (text : List Char) : Option Pattern := readFrom? (text.length + 1) {} text

end DirectiveQuery.Pattern
