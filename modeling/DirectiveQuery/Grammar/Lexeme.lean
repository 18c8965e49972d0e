import DirectiveQuery.Binary64.Reading
import DirectiveQuery.Text.Digits

/-
  Tokens at the head of a text. Each function finds one kind of token and answers with what it
  denotes and with its characters; a token is always as long as it can be. Words are runs of
  letters, digits, `_` and `$`, of the ASCII letters and digits only.
-/
namespace DirectiveQuery.Lexeme

/-- The characters between tokens. -/
def isSpace (c : Char) : Bool := c = ' ' || c = '\t' || c = '\r' || c = '\n'

/-- The spaces at the head of a text. -/
def space? (text : List Char) : Option (Unit × List Char) := some ((), text.takeWhile isSpace)

/-- The given characters. -/
def exactly? (token : List Char) (text : List Char) : Option (Unit × List Char) :=
  if token.isPrefixOf text then some ((), token) else none

/-! ## Words -/

/-- A word may start with the character. -/
def isWordStart (c : Char) : Bool := c.isAlpha || c = '_' || c = '$'

/-- A word may go on with the character. -/
def isWordChar (c : Char) : Bool := c.isAlphanum || c = '_' || c = '$'

/-- The words that are no identifiers. -/
def keywords : List String := ["null", "true", "false", "nin", "in"]

/-- The longest word at the head of a text. -/
def word (text : List Char) : List Char := text.takeWhile isWordChar

/-- The keyword, where it is a whole word. -/
def keyword? (keyword : String) (text : List Char) : Option (Unit × List Char) :=
  if word text = keyword.toList then some ((), keyword.toList) else none

/-- The word `true` or the word `false`. -/
def boolean? (text : List Char) : Option (Bool × List Char) :=
  if word text = "true".toList then some (true, "true".toList)
  else if word text = "false".toList then some (false, "false".toList)
  else none

/-- A word that starts as a word does and is no keyword. -/
def identifier? (text : List Char) : Option (String × List Char) :=
  match word text with
  | [] => none
  | c :: cs =>
    let name := String.ofList (c :: cs)
    if isWordStart c && !keywords.contains name then some (name, c :: cs) else none

/-! ## Numbers -/

/-- A point and the digits after it, if a point comes first. -/
def fractionPart : List Char → List Char
  | '.' :: rest => '.' :: rest.takeWhile Char.isDigit
  | _ => []

/-- A letter `e`, a sign and one digit or more, if they come first. -/
def exponentPart : List Char → List Char
  | [] => []
  | c :: rest =>
    let signs := match rest with
      | '+' :: _ => ['+']
      | '-' :: _ => ['-']
      | _ => []
    let digits := (rest.drop signs.length).takeWhile Char.isDigit
    if (c = 'e' || c = 'E') && !digits.isEmpty then c :: signs ++ digits else []

/-- The characters of a number: digits with a point anywhere among them or at either end, but
not a point alone, and an exponent if a whole one follows. -/
def numberText (text : List Char) : List Char :=
  let whole := text.takeWhile Char.isDigit
  let fraction := fractionPart (text.drop whole.length)
  let mantissa := whole ++ fraction
  if whole.isEmpty && fraction.length ≤ 1 then []
  else mantissa ++ exponentPart (text.drop mantissa.length)

/-- A number without a sign. -/
def number? (text : List Char) : Option (Binary64 × List Char) :=
  let lexeme := numberText text
  (Numeral.ofText? lexeme).map fun numeral => (numeral.toBinary64 false, lexeme)

/-! ## Strings -/

/-- The rest of a string after its opening quote: everything through the first such quote that
no backslash stands before. -/
def stringRest? (quote : Char) : List Char → Option (List Char)
  | [] => none
  | '\\' :: c :: rest => (stringRest? quote rest).map fun body => '\\' :: c :: body
  | ['\\'] => none
  | c :: rest => if c = quote then some [c] else (stringRest? quote rest).map (c :: ·)

/-- The character that four hexadecimal digits name, if they name one. A plus sign may stand for
the first digit. -/
def scalar? (a b c d : Char) : Option Char := do
  let n ← Text.hexNumber? (if a = '+' then [b, c, d] else [a, b, c, d])
  if n.isValidChar then some (Char.ofNat n) else none

/-- What a character after a backslash stands for; most stand for themselves. -/
def escapedChar : Char → Char
  | 'n' => '\n'
  | 't' => '\t'
  | 'r' => '\r'
  | 'b' => '\x08'
  | 'f' => '\x0c'
  | 'v' => '\x0b'
  | '0' => '\x00'
  | c => c

/-- The text that the inside of a string denotes. A `u` after a backslash takes the four
characters behind it if they name a character, and is itself a plain `u` if they do not. -/
def unescape : List Char → List Char
  | [] => []
  | '\\' :: 'u' :: a :: b :: c :: d :: rest =>
    match scalar? a b c d with
    | some scalar => scalar :: unescape rest
    | none => 'u' :: unescape (a :: b :: c :: d :: rest)
  | '\\' :: c :: rest => escapedChar c :: unescape rest
  | c :: rest => c :: unescape rest

/-- A string in single or double quotes. -/
def string? : List Char → Option (String × List Char)
  | [] => none
  | quote :: rest =>
    if quote = '"' || quote = '\x27' then
      (stringRest? quote rest).map fun body =>
        (String.ofList (unescape body.dropLast), quote :: body)
    else none

end DirectiveQuery.Lexeme
