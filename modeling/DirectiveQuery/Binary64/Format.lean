import DirectiveQuery.Binary64.Shortest
import DirectiveQuery.Text.Digits

/-
  Written forms of a number. All of them use the fewest digits that read back; a format says
  which powers of ten are written with digits alone and which with an exponent, and how the
  remaining choices fall.
-/
namespace DirectiveQuery

/-- The choices that a written form of numbers makes. -/
structure NumberFormat where
  /-- Which of two equally near digit strings is taken. -/
  tie : Tie
  /-- The least and the greatest power of ten of the first digit for which digits alone are
  written; without them digits alone are always written. -/
  positional : Option (Int × Int)
  /-- Whole numbers written with digits alone end in `.0`. -/
  wholeFraction : Bool
  /-- The word for an infinity, after its sign. -/
  infinity : String
  /-- The word for what is no number. -/
  notANumber : String
deriving DecidableEq, Repr

/-- The form for readers: digits alone, whatever the size. -/
def NumberFormat.display : NumberFormat := ⟨.up, none, false, "inf", "NaN"⟩

/-- The form in which a count is read back from a number: an exponent from 10^21 on and below
10^-6. -/
def NumberFormat.count : NumberFormat := ⟨.up, some (-6, 20), false, "inf", "NaN"⟩

/-- The form of a JSON number: an exponent from 10^16 on and below 10^-5, and always a fraction
or an exponent, so that it reads back as no integer. -/
def NumberFormat.json : NumberFormat := ⟨.toEven, some (-5, 15), true, "null", "null"⟩

namespace Decimal

/-- Digits alone, with the point after the first `point` digits, which may lie outside them. -/
def positionalText (digits : List Char) (point : Int) (wholeFraction : Bool) : List Char :=
  if point ≤ 0 then '0' :: '.' :: List.replicate point.natAbs '0' ++ digits
  else
    let before := point.toNat
    if digits.length ≤ before then
      digits ++ List.replicate (before - digits.length) '0'
        ++ (if wholeFraction then ['.', '0'] else [])
    else digits.take before ++ '.' :: digits.drop before

/-- One digit before the point, and the exponent of that digit after the letter `e`. -/
def exponentText (digits : List Char) (exponent : Int) : List Char :=
  let mantissa := match digits with
    | first :: second :: others => first :: '.' :: second :: others
    | others => others
  let sign := if 0 ≤ exponent then ['+'] else []
  mantissa ++ 'e' :: sign ++ Text.decimalText exponent

/-- A decimal in a format. -/
def text (format : NumberFormat) (d : Decimal) : List Char :=
  let digits := Text.decimalDigits d.digits
  let point : Int := digits.length + d.exponent
  let inRange := match format.positional with
    | none => true
    | some (least, greatest) => least ≤ point - 1 && point - 1 ≤ greatest
  if inRange || d.digits == 0 then positionalText digits point format.wholeFraction
  else exponentText digits (point - 1)

end Decimal

/-- A number in a format. -/
def Binary64.text (format : NumberFormat) : Binary64 → List Char
  | .nan => format.notANumber.toList
  | .infinite negative => Text.minusSign negative ++ format.infinity.toList
  | .finite negative x => Text.minusSign negative ++ (x.shortest format.tie).text format

end DirectiveQuery
