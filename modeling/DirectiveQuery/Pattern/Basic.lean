/-
  Patterns for texts, that is, regular expressions, as trees. A pattern can be used if it is not
  nested too deep and if each of its parts can be used under the flags in force there. Tables
  of letters are not at hand: under the Unicode flag no case can be ignored, no class of
  characters has a shorthand, and no edge of a word is known; without that flag nothing may
  match a part of a character's bytes.
-/
namespace DirectiveQuery

/-! ## Flags -/

/-- A switch inside a pattern. -/
inductive PatternFlag where
  | ignoreCase
  | manyLines
  | dotIsAny
  | swapGreed
  | unicode
  | carriageReturns
  /-- Blanks and comments in the pattern are skipped. -/
  | spaced
deriving DecidableEq, Repr

/-- The flag with a letter. -/
def PatternFlag.ofChar? : Char → Option PatternFlag
  | 'i' => some .ignoreCase
  | 'm' => some .manyLines
  | 's' => some .dotIsAny
  | 'U' => some .swapGreed
  | 'u' => some .unicode
  | 'R' => some .carriageReturns
  | 'x' => some .spaced
  | _ => none

/-- Flags that are switched on or off, each of them once. -/
abbrev FlagChanges := List (PatternFlag × Bool)

/-- A flag after the changes. -/
def FlagChanges.apply (changes : FlagChanges) (flag : PatternFlag) (before : Bool) : Bool :=
  ((changes.find? fun change => change.1 == flag).map (·.2)).getD before

/-- The flags that decide what can be used. -/
structure PatternMode where
  ignoreCase : Bool := false
  unicode : Bool := true
deriving DecidableEq, Repr

/-- The mode after the changes. -/
def PatternMode.change (m : PatternMode) (changes : FlagChanges) : PatternMode :=
  ⟨changes.apply .ignoreCase m.ignoreCase, changes.apply .unicode m.unicode⟩

/-! ## Sets of characters -/

/-- An operation on sets of characters. -/
inductive SetOperation where
  | intersection
  | difference
  | symmetricDifference
deriving DecidableEq, Repr

/-- A set of characters, as it stands inside brackets. -/
inductive CharSet where
  | empty
  | char (c : Char)
  | range (first last : Char)
  /-- A class of ASCII characters with its name. -/
  | named (negated : Bool) (name : String)
  /-- A class of characters with its letter; a capital stands for all others. -/
  | shorthand (letter : Char)
  | union (parts : List CharSet)
  | combined (operation : SetOperation) (left right : CharSet)
  | nested (negated : Bool) (inside : CharSet)
deriving Repr

namespace CharSet

/-- The union of some sets. -/
def ofParts : List CharSet → CharSet
  | [] => empty
  | [part] => part
  | parts => union parts

mutual

/-- The number of nested levels inside a set. -/
def depth : CharSet → Nat
  | empty | char _ | range _ _ | named _ _ | shorthand _ => 0
  | union parts => depthAll parts + 1
  | combined _ left right => max (depth left) (depth right) + 1
  | nested _ inside => depth inside + 1

/-- The greatest number of nested levels inside some sets. -/
def depthAll : List CharSet → Nat
  | [] => 0
  | s :: rest => max (depth s) (depthAll rest)

end

mutual

/-- The set can be used in a mode. -/
def isUsable (m : PatternMode) : CharSet → Bool
  | empty => true
  | char c => if m.unicode then !m.ignoreCase else c.toNat < 128
  | range first last =>
    if m.unicode then !m.ignoreCase else first.toNat < 128 && last.toNat < 128
  | named negated _ => if m.unicode then !m.ignoreCase else !negated
  | shorthand letter => !m.unicode && !letter.isUpper
  | union parts => areUsable m parts
  | combined _ left right => isUsable m left && isUsable m right
  | nested negated inside => isUsable m inside && (m.unicode || !negated)

/-- All the sets can be used in a mode. -/
def areUsable (m : PatternMode) : List CharSet → Bool
  | [] => true
  | s :: rest => isUsable m s && areUsable m rest

end

end CharSet

/-! ## Patterns -/

/-- A pattern. -/
inductive Pattern where
  | empty
  /-- Flags for all that follows in the same group. -/
  | flags (changes : FlagChanges)
  /-- A character, which may have been written as a byte of two hexadecimal digits. -/
  | char (c : Char) (isByte : Bool)
  /-- Any character, or any but a line ending. -/
  | dot
  /-- The start or the end of the text or of a line. -/
  | edge
  /-- A place at the edge of a word, or off all edges. -/
  | wordEdge
  | shorthand (letter : Char)
  | brackets (negated : Bool) (set : CharSet)
  | repeated (p : Pattern)
  /-- A group with flags of its own. -/
  | group (changes : FlagChanges) (p : Pattern)
  | sequence (ps : List Pattern)
  | alternatives (ps : List Pattern)
deriving Repr

namespace Pattern

/-- Patterns in a row. -/
def ofRow : List Pattern → Pattern
  | [] => empty
  | [p] => p
  | ps => sequence ps

mutual

/-- The number of nested levels. -/
def depth : Pattern → Nat
  | empty | flags _ | char _ _ | dot | edge | wordEdge | shorthand _ => 0
  | brackets _ set => set.depth + 1
  | repeated p | group _ p => depth p + 1
  | sequence ps | alternatives ps => depthAll ps + 1

/-- The greatest number of nested levels in some patterns. -/
def depthAll : List Pattern → Nat
  | [] => 0
  | p :: rest => max (depth p) (depthAll rest)

end

mutual

/-- The mode behind a pattern that can be used in mode `m`. Flags last until their group ends,
from one alternative to the next too. -/
def modeAfter? (m : PatternMode) : Pattern → Option PatternMode
  | empty | edge => some m
  | flags changes => some (m.change changes)
  | char c isByte =>
    if m.unicode then if m.ignoreCase then none else some m
    else if isByte && 128 ≤ c.toNat then none
    else some m
  | dot => if m.unicode then some m else none
  | wordEdge => if m.unicode then none else some m
  | shorthand letter => if m.unicode || letter.isUpper then none else some m
  | brackets negated set =>
    if set.isUsable m && (m.unicode || !negated) then some m else none
  | repeated p => modeAfter? m p
  | group changes p => (modeAfter? (m.change changes) p).map fun _ => m
  | sequence ps | alternatives ps => modeAfterAll? m ps

/-- The mode behind patterns one after the other. -/
def modeAfterAll? (m : PatternMode) : List Pattern → Option PatternMode
  | [] => some m
  | p :: rest => (modeAfter? m p).bind fun m => modeAfterAll? m rest

end

/-- The greatest depth of patterns in use. -/
def maxDepth : Nat := 250

/-- The pattern can be used. -/
def isUsable (p : Pattern) : Bool := p.depth ≤ maxDepth && (p.modeAfter? {}).isSome

end Pattern

end DirectiveQuery
