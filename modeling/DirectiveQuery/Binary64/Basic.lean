/-
  Numbers of the 64-bit binary floating-point format, held as exact values. Every finite
  magnitude is a whole number of units of 2^-1074, and is written in one way only as a
  significand times a power of two.
-/
namespace DirectiveQuery

/-- A finite magnitude: `significand * 2 ^ scale` units of 2^-1074. -/
structure Magnitude where
  significand : Nat
  scale : Nat
  significand_lt : significand < Nat.pow 2 53
  scale_le : scale ≤ 2045
  normal : scale = 0 ∨ Nat.pow 2 52 ≤ significand
deriving DecidableEq, Repr

namespace Magnitude

/-- The magnitude with these parts, if they are in the format's range and in its normal form. -/
def ofParts? (significand scale : Nat) : Option Magnitude :=
  if h : significand < Nat.pow 2 53 ∧ scale ≤ 2045 ∧
      (scale = 0 ∨ Nat.pow 2 52 ≤ significand) then
    some ⟨significand, scale, h.1, h.2.1, h.2.2⟩
  else none

theorem ofParts?_eq (x : Magnitude) : ofParts? x.significand x.scale = some x :=
  dif_pos ⟨x.significand_lt, x.scale_le, x.normal⟩

/-- Zero. -/
def zero : Magnitude := ⟨0, 0, by decide, by decide, Or.inl rfl⟩

/-- The units of 2^-1074 in the magnitude. -/
def units (x : Magnitude) : Nat := x.significand * Nat.pow 2 x.scale

/-- The units of 2^-1074 in the number one. -/
def unitsPerOne : Nat := Nat.pow 2 1074

/-- The natural number that the magnitude equals, if there is one. -/
def toNat? (x : Magnitude) : Option Nat :=
  if x.units % unitsPerOne = 0 then some (x.units / unitsPerOne) else none

/-- The magnitude is zero. -/
def isZero (x : Magnitude) : Bool := x.significand == 0

end Magnitude

/-- A number of the format. The two zeros differ in their sign. -/
inductive Binary64 where
  | nan
  | infinite (negative : Bool)
  | finite (negative : Bool) (magnitude : Magnitude)
deriving DecidableEq, Repr

namespace Binary64

/-- The same number with the other sign. -/
def negate : Binary64 → Binary64
  | nan => nan
  | infinite negative => infinite (!negative)
  | finite negative x => finite (!negative) x

/-- Neither an infinity nor the value that is no number. -/
def isFinite : Binary64 → Bool
  | finite _ _ => true
  | _ => false

/-- The integer that the number equals, if there is one. -/
def toInt? : Binary64 → Option Int
  | finite negative x => x.toNat?.map fun n => if negative then -(n : Int) else n
  | _ => none

/-- Equality of numbers: the zeros are equal, and what is no number equals nothing. -/
def equals : Binary64 → Binary64 → Bool
  | finite s x, finite t y => x == y && (s == t || x.isZero)
  | infinite s, infinite t => s == t
  | _, _ => false

theorem isFinite_negate (x : Binary64) : x.negate.isFinite = x.isFinite := by
  cases x <;> rfl

end Binary64

end DirectiveQuery
