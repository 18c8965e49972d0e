import DirectiveQuery.Binary64.Reading
import DirectiveQuery.Json.Basic
import DirectiveQuery.Text.Digits

/-
  Reading JSON texts. A strict reading refuses strings with an unpaired surrogate and numbers
  beyond the largest finite one; a lax reading only asks that the text has the shape of JSON,
  and serves for values that nobody looks at.
-/
namespace DirectiveQuery.Json

/-- The text from its first character that is not a blank of JSON. -/
def skipSpace (text : List Char) : List Char := text.dropWhile isSpace

/-! ## Strings -/

/-- What a short escape stands for. -/
def shortEscape? : Char → Option Char
  | '"' => some '"'
  | '\\' => some '\\'
  | '/' => some '/'
  | 'b' => some '\x08'
  | 'f' => some '\x0c'
  | 'n' => some '\n'
  | 'r' => some '\r'
  | 't' => some '\t'
  | _ => none

/-- The body of a string, as written, and what follows the closing quote. -/
def stringBody? : List Char → Option (List Char × List Char)
  | [] => none
  | '"' :: rest => some ([], rest)
  | '\\' :: 'u' :: a :: b :: c :: d :: rest =>
    if (Text.hexNumber? [a, b, c, d]).isSome then
      (stringBody? rest).map fun (body, after) => ('\\' :: 'u' :: a :: b :: c :: d :: body, after)
    else none
  | '\\' :: c :: rest =>
    if (shortEscape? c).isSome then
      (stringBody? rest).map fun (body, after) => ('\\' :: c :: body, after)
    else none
  | c :: rest =>
    if c.toNat < 32 then none
    else (stringBody? rest).map fun (body, after) => (c :: body, after)

/-- The text that a string body denotes. `high` is the first half of a surrogate pair that has
been read; the second half has to follow it at once. -/
def decodeBody? : (high : Option Nat) → List Char → Option (List Char)
  | none, [] => some []
  | some _, [] => none
  | high, '\\' :: 'u' :: a :: b :: c :: d :: rest => do
    let unit ← Text.hexNumber? [a, b, c, d]
    let isLow := 0xDC00 ≤ unit && unit ≤ 0xDFFF
    match high with
    | none =>
      if 0xD800 ≤ unit && unit ≤ 0xDBFF then decodeBody? (some unit) rest
      else if isLow then none
      else (decodeBody? none rest).map (Char.ofNat unit :: ·)
    | some first =>
      if isLow then
        let point := 0x10000 + (first - 0xD800) * 0x400 + (unit - 0xDC00)
        (decodeBody? none rest).map (Char.ofNat point :: ·)
      else none
  | some _, _ => none
  | none, '\\' :: c :: rest => do
    let c ← shortEscape? c
    (decodeBody? none rest).map (c :: ·)
  | none, c :: rest => (decodeBody? none rest).map (c :: ·)

/-- A string after its opening quote, and what follows it. -/
def readString? (strict : Bool) (text : List Char) : Option (String × List Char) := do
  let (body, rest) ← stringBody? text
  match decodeBody? none body with
  | some decoded => return (String.ofList decoded, rest)
  | none => if strict then none else return ("", rest)

/-! ## Numbers -/

/-- The digits after the point, if there is a point; a point without digits is an error. -/
def readFraction? : List Char → Option (List Char × List Char)
  | '.' :: rest =>
    let digits := rest.takeWhile Char.isDigit
    if digits.isEmpty then none else some (digits, rest.dropWhile Char.isDigit)
  | rest => some ([], rest)

/-- The exponent, if a letter `e` follows; such a letter without digits is an error. -/
def readExponent? : List Char → Option (Option Int × List Char)
  | c :: rest =>
    if c = 'e' || c = 'E' then
      let (negative, rest) := Text.splitSign rest
      let digits := rest.takeWhile Char.isDigit
      if digits.isEmpty then none
      else
        let n : Int := Text.numberOfDigits 10 digits
        some (some (if negative then -n else n), rest.dropWhile Char.isDigit)
    else some (none, c :: rest)
  | [] => some (none, [])

/-- The integer that digits without a fraction or an exponent denote, if it is one of those that
are kept exact: from -2^63 to 2^64 - 1, and not a zero with a minus sign. -/
def integerOfDigits? (negative : Bool) (digits : List Char) : Option Int :=
  let n := Text.numberOfDigits 10 digits
  if negative then if n = 0 || Nat.pow 2 63 < n then none else some (-(n : Int))
  else if n < Nat.pow 2 64 then some n
  else none

/-- A number, and what follows it. A zero is the only integer part that starts with a zero. -/
def readNumber? (strict : Bool) (text : List Char) : Option (Json × List Char) := do
  let (negative, text) := match text with
    | '-' :: rest => (true, rest)
    | rest => (false, rest)
  let whole := text.takeWhile Char.isDigit
  if whole.isEmpty || (whole.length > 1 && whole.head? == some '0') then none
  let afterWhole := text.dropWhile Char.isDigit
  let (fraction, afterFraction) ← readFraction? afterWhole
  let (exponent, rest) ← readExponent? afterFraction
  let exact := if fraction.isEmpty && exponent.isNone then integerOfDigits? negative whole else none
  match exact with
  | some n => return (integer n, rest)
  | none =>
    match (Numeral.mk whole fraction (exponent.getD 0)).toBinary64 negative with
    | .finite negative x => return (number negative x, rest)
    | _ => if strict then none else return (null, rest)

/-! ## Values -/

mutual

/-- A value after any blanks, and what follows it. The first argument bounds the recursion; twice
the length of the text is enough. -/
def readValue? (strict : Bool) : Nat → List Char → Option (Json × List Char)
  | 0, _ => none
  | fuel + 1, text =>
    match skipSpace text with
    | 'n' :: 'u' :: 'l' :: 'l' :: rest => some (null, rest)
    | 't' :: 'r' :: 'u' :: 'e' :: rest => some (boolean true, rest)
    | 'f' :: 'a' :: 'l' :: 's' :: 'e' :: rest => some (boolean false, rest)
    | '"' :: rest => (readString? strict rest).map fun (s, after) => (string s, after)
    | '[' :: rest =>
      match skipSpace rest with
      | ']' :: after => some (array [], after)
      | _ => (readElements? strict fuel rest).map fun (es, after) => (array es, after)
    | '\x7b' :: rest =>
      match skipSpace rest with
      | '\x7d' :: after => some (object [], after)
      | _ => (readMembers? strict fuel rest).map fun (ms, after) => (object ms, after)
    | other => readNumber? strict other

/-- One or more elements and the closing bracket. -/
def readElements? (strict : Bool) : Nat → List Char → Option (List Json × List Char)
  | 0, _ => none
  | fuel + 1, text => do
    let (e, rest) ← readValue? strict fuel text
    match skipSpace rest with
    | ']' :: after => return ([e], after)
    | ',' :: more =>
      let (es, after) ← readElements? strict fuel more
      return (e :: es, after)
    | _ => none

/-- One or more members and the closing brace. -/
def readMembers? (strict : Bool) : Nat → List Char → Option (List (String × Json) × List Char)
  | 0, _ => none
  | fuel + 1, text => do
    let '"' :: afterQuote := skipSpace text | none
    let (key, afterKey) ← readString? strict afterQuote
    let ':' :: afterColon := skipSpace afterKey | none
    let (v, rest) ← readValue? strict fuel afterColon
    match skipSpace rest with
    | '\x7d' :: after => return ([(key, v)], after)
    | ',' :: more =>
      let (ms, after) ← readMembers? strict fuel more
      return ((key, v) :: ms, after)
    | _ => none

end

/-- A fuel that suffices for every value in the text: each step takes a character, or is the
first one inside a bracket that has just been taken. -/
def fuelFor (text : List Char) : Nat := 2 * text.length + 2

/-- A value at the head of a text, and what follows it. -/
def readPrefix? (strict : Bool) (text : List Char) : Option (Json × List Char) :=
  readValue? strict (fuelFor text) text

/-- The value that is the whole text, blanks around it apart. -/
def ofText? (text : String) : Option Json :=
  match readPrefix? true text.toList with
  | some (value, rest) => if (skipSpace rest).isEmpty then some value else none
  | none => none

end DirectiveQuery.Json
