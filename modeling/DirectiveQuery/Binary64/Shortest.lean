import DirectiveQuery.Binary64.Basic
import DirectiveQuery.Text.Digits

/-
  The fewest decimal digits that read back. Around each magnitude lies the interval of the
  rationals that read as it, with its ends when the significand is even. The digits chosen are
  those of a point of that interval on the coarsest decimal grid that has one; of two such
  points the nearer to the magnitude is taken, and a tie is settled by the caller. All
  comparisons are of whole numbers of quarter units, that is, of 2^-1076.
-/
namespace DirectiveQuery

/-- The number `digits * 10 ^ exponent`. -/
structure Decimal where
  digits : Nat
  exponent : Int
deriving DecidableEq, Repr

/-- Which of two equally near decimals is taken. -/
inductive Tie where
  | up
  | toEven
deriving DecidableEq, Repr

namespace Magnitude

/-- The quarter units in the magnitude. -/
def quarters (x : Magnitude) : Nat := 4 * x.units

/-- The upper end of the interval that reads as `x`: half a step up. -/
def upper (x : Magnitude) : Nat := x.quarters + 2 * Nat.pow 2 x.scale

/-- The lower end of that interval: half a step down. Below a power of two the steps are half
as long, except where the scale is the smallest. -/
def lower (x : Magnitude) : Nat :=
  let step := Nat.pow 2 x.scale
  x.quarters - if x.significand = Nat.pow 2 52 ∧ x.scale ≠ 0 then step else 2 * step

/-- The step of the decimal grid `10 ^ exponent` in quarter units, as a fraction. -/
def gridStep : Int → Nat × Nat
  | .ofNat e => (Nat.pow 10 e * Nat.pow 2 1076, 1)
  | .negSucc e => (Nat.pow 2 1076, Nat.pow 10 (e + 1))

/-- The fraction `numerator / denominator` of a quarter unit lies in the interval of `x`. -/
def admits (x : Magnitude) (numerator denominator : Nat) : Bool :=
  let lowerEnd := x.lower * denominator
  let upperEnd := x.upper * denominator
  (lowerEnd < numerator && numerator < upperEnd)
    || (x.significand % 2 == 0 && (numerator == lowerEnd || numerator == upperEnd))

/-- The better of the two neighbours of `x` on the grid `10 ^ exponent`, among those that lie
in its interval. -/
def onGrid? (x : Magnitude) (tie : Tie) (exponent : Int) : Option Nat :=
  let (step, denominator) := gridStep exponent
  let below := x.quarters * denominator / step
  let remainder := x.quarters * denominator % step
  match x.admits (below * step) denominator, x.admits ((below + 1) * step) denominator with
  | true, true =>
    if 2 * remainder < step then some below
    else if step < 2 * remainder then some (below + 1)
    else match tie with
      | .up => some (below + 1)
      | .toEven => some (if below % 2 = 0 then below else below + 1)
  | true, false => some below
  | false, true => some (below + 1)
  | false, false => none

/-- The exponent of the finest grid that is needed: its step is shorter than every interval. -/
def finestExponent : Int := -324

/-- An exponent above which no grid has a point in the interval of `x` other than zero. It is
found from the number of digits before the point, or of those of the inverse. -/
def coarsestExponent (x : Magnitude) : Int :=
  let whole := x.units / unitsPerOne
  if whole = 0 then 2 - (Text.decimalDigits (unitsPerOne / x.units)).length
  else (Text.decimalDigits whole).length

/-- Searches the grids from `finestExponent + count - 1` down to the finest one. -/
def searchGrids (x : Magnitude) (tie : Tie) : (count : Nat) → Decimal
  | 0 => ⟨0, finestExponent⟩
  | count + 1 =>
    let exponent := finestExponent + count
    match x.onGrid? tie exponent with
    | some digits => ⟨digits, exponent⟩
    | none => searchGrids x tie count

/-- The decimal with the fewest digits that reads as `x`. -/
def shortest (x : Magnitude) (tie : Tie) : Decimal :=
  if x.isZero then ⟨0, 0⟩
  else searchGrids x tie (x.coarsestExponent - finestExponent + 1).toNat

end Magnitude

end DirectiveQuery
