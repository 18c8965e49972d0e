import DirectiveQuery.Binary64.Basic
import DirectiveQuery.Text.Digits

/-
  Reading decimal numerals. A numeral denotes an exact rational, and the number read is the
  one nearest to it; of two that are equally near, the one with the even significand. What
  lies half a step or more beyond the largest magnitude becomes infinite.
-/
namespace DirectiveQuery

/-- The whole number nearest to `numerator / denominator`; a half goes to the even neighbour. -/
def roundHalfEven (numerator denominator : Nat) : Nat :=
  let quotient := numerator / denominator
  let remainder := numerator % denominator
  if 2 * remainder < denominator then quotient
  else if denominator < 2 * remainder then quotient + 1
  else if quotient % 2 = 0 then quotient
  else quotient + 1

/-- The magnitude nearest to `numerator / denominator` units, unless that is out of range. The
scale leaves 53 binary digits at most before rounding; rounding up may bring the 54th. -/
def Magnitude.nearest? (numerator denominator : Nat) : Option Magnitude :=
  let scale := Nat.log2 (numerator / denominator) - 52
  let significand := roundHalfEven numerator (denominator * Nat.pow 2 scale)
  if significand = Nat.pow 2 53 then Magnitude.ofParts? (Nat.pow 2 52) (scale + 1)
  else Magnitude.ofParts? significand scale

/-- The magnitude nearest to `digits * 10 ^ exponent`, unless that is out of range. Exponents
too large or too small for any nonzero digits to matter are settled without a power of ten. -/
def Magnitude.ofDecimal? (digits : Nat) (exponent : Int) : Option Magnitude :=
  if digits = 0 then some zero
  else match exponent with
    | .ofNat e =>
      if 309 ≤ e then none else nearest? (digits * Nat.pow 10 e * unitsPerOne) 1
    | .negSucc e =>
      if Nat.log2 digits + 1076 < 3 * (e + 1) then some zero
      else nearest? (digits * unitsPerOne) (Nat.pow 10 (e + 1))

namespace Binary64

/-- The number nearest to `digits * 10 ^ exponent`, with a sign. -/
def ofDecimal (negative : Bool) (digits : Nat) (exponent : Int) : Binary64 :=
  match Magnitude.ofDecimal? digits exponent with
  | some x => finite negative x
  | none => infinite negative

end Binary64

/-- A decimal numeral: digits before and after the point, and a power of ten. -/
structure Numeral where
  whole : List Char
  fraction : List Char
  exponent : Int
deriving DecidableEq, Repr

namespace Numeral

/-- An exponent that is the whole text: nothing at all, or a letter `e`, a sign and digits. -/
def exponent? : List Char → Option Int
  | [] => some 0
  | c :: rest =>
    let (negative, digits) := Text.splitSign rest
    if (c = 'e' || c = 'E') && !digits.isEmpty && digits.all Char.isDigit then
      let n : Int := Text.numberOfDigits 10 digits
      some (if negative then -n else n)
    else none

/-- A numeral without a sign that is the whole text. The point may stand at either end of the
digits, but there is a digit somewhere. -/
def ofText? (text : List Char) : Option Numeral :=
  let whole := text.takeWhile Char.isDigit
  let afterWhole := text.dropWhile Char.isDigit
  let (fraction, afterFraction) :=
    match afterWhole with
    | '.' :: rest => (rest.takeWhile Char.isDigit, rest.dropWhile Char.isDigit)
    | rest => ([], rest)
  if whole.isEmpty && fraction.isEmpty then none
  else (exponent? afterFraction).map fun e => ⟨whole, fraction, e⟩

/-- The number nearest to a numeral, with a sign. -/
def toBinary64 (numeral : Numeral) (negative : Bool) : Binary64 :=
  Binary64.ofDecimal negative (Text.numberOfDigits 10 (numeral.whole ++ numeral.fraction))
    (numeral.exponent - numeral.fraction.length)

end Numeral

namespace Binary64

/-- Reads a whole text: a sign, then a numeral or the name of an infinity or of no number, in
letters of either case. -/
def ofText? (text : List Char) : Option Binary64 :=
  let (negative, rest) := Text.splitSign text
  let word := String.ofList (rest.map Char.toLower)
  if word = "inf" || word = "infinity" then some (infinite negative)
  else if word = "nan" then some nan
  else (Numeral.ofText? rest).map fun numeral => numeral.toBinary64 negative

end Binary64

end DirectiveQuery
