import DirectiveQuery.Pattern.Basic
import DirectiveQuery.Text.Blank
import DirectiveQuery.Text.Digits

/-
  What lies between the parts of a pattern, and escapes. Under the flag for spaced patterns,
  blanks are skipped, and so are comments from a number sign to the end of the line.
-/
namespace DirectiveQuery.Pattern

/-! ## Blanks -/

/-- The text after its blanks and comments. -/
def afterBlanks (inComment : Bool) : List Char → List Char
  | [] => []
  | c :: rest =>
    if inComment then afterBlanks (c != '\n') rest
    else if Text.isBlank c then afterBlanks false rest
    else if c = '#' then afterBlanks true rest
    else c :: rest

/-- The text from the next part of a pattern on. -/
def skip (spaced : Bool) (text : List Char) : List Char :=
  if spaced then afterBlanks false text else text

/-- The character that is not blank, nor the number sign of the first comment. -/
def firstUnblank? (inComment : Bool) : List Char → Option Char
  | [] => none
  | c :: rest =>
    if Text.isBlank c then firstUnblank? inComment rest
    else if c = '#' && !inComment then firstUnblank? true rest
    else some c

/-- The character that a dash looks ahead to. In a comment it sees the comment's own text. -/
def ahead? (spaced : Bool) (text : List Char) : Option Char :=
  if spaced then firstUnblank? false text else text.head?

/-! ## Escapes -/

/-- The next digits, so many of them, with blanks before each. -/
def digits? (spaced : Bool) : Nat → List Char → Option (List Char × List Char)
  | 0, text => some ([], text)
  | n + 1, text =>
    match skip spaced text with
    | [] => none
    | c :: rest =>
      if (Text.hexValue? c).isNone then none
      else (digits? spaced n rest).map fun (ds, rest) => (c :: ds, rest)

/-- The character whose code point has so many hexadecimal digits, and what follows it. -/
def codePoint? (spaced : Bool) (length : Nat) (text : List Char) :
    Option (Char × List Char) := do
  let (digits, rest) ← digits? spaced length text
  let n := Text.numberOfDigits 16 digits
  if n.isValidChar then return (Char.ofNat n, rest) else none

/-- The control character with a letter. -/
def control? : Char → Option Char
  | 'a' => some '\x07'
  | 'f' => some '\x0c'
  | 'n' => some '\n'
  | 'r' => some '\r'
  | 't' => some '\t'
  | 'v' => some '\x0b'
  | _ => none

/-- The pattern that an escape stands for, and what follows it. Signs, blanks and controls of
ASCII stand for themselves; the other letters and the digits have no meaning. -/
def escape? (spaced : Bool) (text : List Char) : Option (Pattern × List Char) :=
  match text with
  | [] => none
  | 'x' :: rest => (codePoint? spaced 2 rest).map fun (c, rest) => (char c true, rest)
  | 'u' :: rest => (codePoint? spaced 4 rest).map fun (c, rest) => (char c false, rest)
  | 'U' :: rest => (codePoint? spaced 8 rest).map fun (c, rest) => (char c false, rest)
  | c :: rest =>
    if "dswDSW".toList.contains c then some (shorthand c, rest)
    else if "Az".toList.contains c then some (edge, rest)
    else if "bB<>".toList.contains c then some (wordEdge, rest)
    else
      match control? c with
      | some control => some (char control false, rest)
      | none => if c.isAlphanum || 128 ≤ c.toNat then none else some (char c false, rest)

end DirectiveQuery.Pattern
