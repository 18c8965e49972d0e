import DirectiveQuery.Binary64.Format
import DirectiveQuery.Compile.Arguments
import DirectiveQuery.Options.Basic
import DirectiveQuery.Text.Blank
import DirectiveQuery.Text.Digits

/-
  Counts, the arguments of `limit` and `offset`. A count is read from a text: the text of a
  string, or the written form of a number. A lenient reading takes the digits at the start,
  hexadecimal ones after `0x`; a strict reading takes decimal digits that are the whole text.
-/
namespace DirectiveQuery

/-- What follows the mark of hexadecimal digits at the head of a text. -/
def afterHexMark? : List Char → Option (List Char)
  | '0' :: 'x' :: rest => some rest
  | '0' :: 'X' :: rest => some rest
  | _ => none

/-- The digits of a count at the head of a text without a sign, with their base. -/
def countDigits (mode : IntegerMode) (text : List Char) : List Char × Nat :=
  match mode, afterHexMark? text with
  | .lenient, some rest => (rest.takeWhile fun c => (Text.hexValue? c).isSome, 16)
  | _, _ => (text.takeWhile Char.isDigit, 10)

/-- Reads a count below 2^64. Blanks around the text do not matter, and a minus sign is allowed
before a zero only. -/
def readCount? (mode : IntegerMode) (text : List Char) : Option Nat :=
  let (negative, unsigned) := Text.splitSign (Text.trim text)
  let (digits, base) := countDigits mode unsigned
  let count := Text.numberOfDigits base digits
  if digits.isEmpty || (mode = .strict && digits.length ≠ unsigned.length) then none
  else if Nat.pow 2 64 ≤ count || (negative && count ≠ 0) then none
  else some count

/-- The text from which the count of an argument is read. -/
def Expression.countText? : Expression → Option (List Char)
  | literal (.string text) _ => some text.toList
  | literal (.number x) _ => some (x.text .count)
  | _ => none

/-- The count that the argument of `limit` or `offset` gives. -/
def Arguments.count (directive : Directive) (mode : IntegerMode) (arguments : Arguments) :
    Except CompileError Nat :=
  match arguments with
  | [argument] =>
    match argument.countText?.bind (readCount? mode) with
    | some n => .ok n
    | none => .error (.invalidIntegerArgument directive argument.offset)
  | _ => .error (.arityMismatch directive arguments.length)

end DirectiveQuery
