/-
  Byte positions and character positions of one text. A position is a boundary when a
  character of the text starts there, or when it is the end of the text. Where every character
  is one byte long the two counts agree, and no table of boundaries is kept.
-/
namespace DirectiveQuery.Text

/-- The length of a text in UTF-8. -/
def byteLength : List Char → Nat
  | [] => 0
  | c :: rest => c.utf8Size + byteLength rest

/-- The byte positions at which the characters of a text start, the first one at `start`. -/
def startsFrom (start : Nat) : List Char → List Nat
  | [] => []
  | c :: rest => start :: startsFrom (start + c.utf8Size) rest

/-- The parts of a text before and after a byte position, if that is a boundary. -/
def splitAtByte? : Nat → List Char → Option (List Char × List Char)
  | 0, text => some ([], text)
  | _ + 1, [] => none
  | n + 1, c :: rest =>
    if c.utf8Size ≤ n + 1 then
      (splitAtByte? (n + 1 - c.utf8Size) rest).map fun (before, after) => (c :: before, after)
    else none

/-- The part of a text between two byte positions, if both are boundaries. -/
def between? (start stop : Nat) (text : List Char) : Option (List Char) := do
  let (before, _) ← splitAtByte? stop text
  let (_, part) ← splitAtByte? start before
  return part

/-- Every character is below U+0080. -/
def isAscii (text : List Char) : Bool := text.all fun c => c.toNat < 128

/-- What is kept of a text to turn byte positions into character positions. -/
structure Positions where
  /-- The ascending starts of the characters, unless all are one byte long. -/
  starts : Option (List Nat)
deriving DecidableEq, Repr

/-- The positions of a text. -/
def Positions.ofText (text : List Char) : Positions :=
  ⟨if isAscii text then none else some (startsFrom 0 text)⟩

/-- The number of characters that start before the byte position. -/
def Positions.character (positions : Positions) (byte : Nat) : Nat :=
  match positions.starts with
  | none => byte
  | some starts => (starts.takeWhile (· < byte)).length

theorem byteLength_append (before after : List Char) :
    byteLength (before ++ after) = byteLength before + byteLength after := by
  induction before with
  | nil => simp [byteLength]
  | cons c before ih => simp [byteLength, ih, Nat.add_assoc]

theorem length_startsFrom (start : Nat) (text : List Char) :
    (startsFrom start text).length = text.length := by
  induction text generalizing start with
  | nil => rfl
  | cons c rest ih => simp [startsFrom, ih]

end DirectiveQuery.Text
