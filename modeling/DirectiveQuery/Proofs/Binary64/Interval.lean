import Mathlib.Algebra.Order.Field.Rat
import Mathlib.Data.Rat.Cast.Order
import Mathlib.Tactic.Linarith
import Mathlib.Tactic.NormNum
import Mathlib.Tactic.Ring
import DirectiveQuery.Binary64.Shortest
import DirectiveQuery.Proofs.Binary64.Integers

/-
  The interval of a magnitude: the rationals that read as it, in quarter units. The test of the
  search is membership in that interval (`admits_iff`). On the finest grid the point below a
  magnitude always lies in its interval, so the search ends with a point that passed the test,
  and the shortest decimal of a magnitude lies in its interval (`reads_shortest`).
-/
namespace DirectiveQuery

/-- The quarter units in the number one. -/
def quartersPerOne : Nat := 4 * Magnitude.unitsPerOne

theorem quartersPerOne_eq : quartersPerOne = Nat.pow 2 1076 := by
  rw [quartersPerOne, Magnitude.unitsPerOne, Nat.pow_eq, Nat.pow_eq, show 1076 = 2 + 1074 from rfl,
    Nat.pow_add]

theorem quartersPerOne_pos : 0 < quartersPerOne := by
  have hunit : 0 < Magnitude.unitsPerOne := Nat.pow_pos (by decide)
  exact Nat.mul_pos (by decide) hunit

/-- The quarter units in a decimal. -/
def Decimal.quarters (d : Decimal) : ℚ := d.digits * 10 ^ d.exponent * quartersPerOne

namespace Magnitude

/-- A number of quarter units reads as `x`: it lies in the interval of `x`, to which the ends
belong when the significand is even. -/
def Reads (x : Magnitude) (q : ℚ) : Prop :=
  (x.lower < q ∧ q < x.upper) ∨ (x.significand % 2 = 0 ∧ (q = x.lower ∨ q = x.upper))

theorem admits_iff {x : Magnitude} {n d : Nat} (hd : 0 < d) :
    x.admits n d = true ↔ x.Reads (n / d) := by
  have hd' : (0 : ℚ) < d := by exact_mod_cast hd
  unfold admits Reads
  simp only [Bool.or_eq_true, Bool.and_eq_true, decide_eq_true_eq, beq_iff_eq, lt_div_iff₀ hd',
    div_lt_iff₀ hd', div_eq_iff hd'.ne']
  exact_mod_cast Iff.rfl

theorem lower_le_upper (x : Magnitude) : x.lower ≤ x.upper := by
  simp only [lower, upper]
  omega

theorem Reads.lower_le {x : Magnitude} {q : ℚ} (h : x.Reads q) : (x.lower : ℚ) ≤ q := by
  rcases h with ⟨h, -⟩ | ⟨-, h | h⟩
  · exact h.le
  · exact h.ge
  · rw [h]
    exact_mod_cast x.lower_le_upper

/-! ## Ends -/

theorem quarters_eq (x : Magnitude) : x.quarters = 4 * (x.significand * 2 ^ x.scale) := by
  rw [quarters, units_eq]

theorem upper_eq (x : Magnitude) : x.upper = x.quarters + 2 * 2 ^ x.scale := by
  rw [upper, Nat.pow_eq]

/-- Nonzero magnitudes are two quarter units at least above the lower end of their interval. -/
theorem lower_add_two_le {x : Magnitude} (hx : x.significand ≠ 0) :
    x.lower + 2 ≤ x.quarters := by
  have hpos : 0 < 2 ^ x.scale := Nat.two_pow_pos x.scale
  have hle : 1 * 2 ^ x.scale ≤ x.significand * 2 ^ x.scale :=
    Nat.mul_le_mul_right _ (Nat.pos_of_ne_zero hx)
  have hquarters := x.quarters_eq
  simp only [lower, Nat.pow_eq]
  split
  · next h =>
    have hstep : 2 ^ 1 ≤ 2 ^ x.scale := Nat.pow_le_pow_right (by decide) (by omega)
    omega
  · omega

theorem two_le_lower {x : Magnitude} (hx : x.significand ≠ 0) : 2 ≤ x.lower := by
  have hpos : 0 < 2 ^ x.scale := Nat.two_pow_pos x.scale
  have hle : 1 * 2 ^ x.scale ≤ x.significand * 2 ^ x.scale :=
    Nat.mul_le_mul_right _ (Nat.pos_of_ne_zero hx)
  have hquarters := x.quarters_eq
  simp only [lower, Nat.pow_eq]
  split <;> omega

theorem upper_lt (x : Magnitude) : x.upper < 2 ^ 1024 * quartersPerOne := by
  have hm : x.significand < 2 ^ 53 := x.significand_lt
  have hpos : 0 < 2 ^ x.scale := Nat.two_pow_pos x.scale
  have hle := Nat.pow_le_pow_right (show 0 < 2 by decide) x.scale_le
  have hmul : x.significand * 2 ^ x.scale ≤ (2 ^ 53 - 1) * 2 ^ x.scale :=
    Nat.mul_le_mul_right _ (by omega)
  calc x.upper = 4 * (x.significand * 2 ^ x.scale) + 2 * 2 ^ x.scale := by
        rw [upper_eq, quarters_eq]
    _ < 2 ^ 55 * 2 ^ x.scale := by omega
    _ ≤ 2 ^ 55 * 2 ^ 2045 := Nat.mul_le_mul_left _ hle
    _ = 2 ^ 1024 * quartersPerOne := by
        rw [quartersPerOne_eq, Nat.pow_eq, ← Nat.pow_add, ← Nat.pow_add]

/-! ## Grids -/

theorem gridStep_ofNat (e : Nat) : gridStep (.ofNat e) = (10 ^ e * quartersPerOne, 1) := by
  rw [gridStep, ← quartersPerOne_eq, Nat.pow_eq]

theorem gridStep_negSucc (e : Nat) :
    gridStep (.negSucc e) = (quartersPerOne, 10 ^ (e + 1)) := by
  rw [gridStep, ← quartersPerOne_eq, Nat.pow_eq]

theorem gridStep_pos (e : Int) : 0 < (gridStep e).1 ∧ 0 < (gridStep e).2 := by
  cases e with
  | ofNat e =>
    rw [gridStep_ofNat]
    exact ⟨Nat.mul_pos (Nat.pow_pos (by decide)) quartersPerOne_pos, Nat.one_pos⟩
  | negSucc e =>
    rw [gridStep_negSucc]
    exact ⟨quartersPerOne_pos, Nat.pow_pos (by decide)⟩

/-- A point of a grid, as a number of quarter units. -/
theorem gridStep_quarters (n : Nat) (e : Int) :
    ((n * (gridStep e).1 : Nat) : ℚ) / (gridStep e).2 = Decimal.quarters ⟨n, e⟩ := by
  unfold Decimal.quarters
  cases e with
  | ofNat e =>
    rw [gridStep_ofNat, Int.ofNat_eq_natCast, zpow_natCast]
    push_cast
    rw [div_one, mul_assoc]
  | negSucc e =>
    rw [gridStep_negSucc, zpow_negSucc]
    push_cast
    ring

theorem reads_of_admits {x : Magnitude} {n : Nat} {e : Int}
    (h : x.admits (n * (gridStep e).1) (gridStep e).2 = true) :
    x.Reads (Decimal.quarters ⟨n, e⟩) := by
  rw [← gridStep_quarters]
  exact (admits_iff (gridStep_pos e).2).1 h

/-- What is found on a grid lies in the interval. -/
theorem reads_of_onGrid? {x : Magnitude} {tie : Tie} {e : Int} {n : Nat}
    (h : x.onGrid? tie e = some n) : x.Reads (Decimal.quarters ⟨n, e⟩) := by
  apply reads_of_admits
  simp only [onGrid?] at h
  split at h
  · next hbelow habove =>
    split at h
    · cases h
      exact hbelow
    · split at h
      · cases h
        exact habove
      · cases tie with
        | up =>
          cases h
          exact habove
        | toEven =>
          simp only [Option.some.injEq] at h
          split at h <;> subst h
          · exact hbelow
          · exact habove
  · next hbelow _ =>
    cases h
    exact hbelow
  · next _ habove =>
    cases h
    exact habove
  · cases h

/-- A grid whose step is shorter than a quarter unit has a point in the interval of every nonzero
magnitude: the one below the magnitude. -/
theorem exists_onGrid? {x : Magnitude} (hx : x.significand ≠ 0) (tie : Tie) {e : Int}
    (he : (gridStep e).1 < (gridStep e).2) : ∃ n, x.onGrid? tie e = some n := by
  obtain ⟨hstep, hden⟩ := gridStep_pos e
  have hlower := lower_add_two_le hx
  have hupper : x.quarters < x.upper := by
    have hpos : 0 < 2 ^ x.scale := Nat.two_pow_pos x.scale
    rw [upper_eq]
    omega
  simp only [onGrid?]
  generalize (gridStep e).1 = step at *
  generalize (gridStep e).2 = den at *
  generalize hbelow : x.quarters * den / step = below
  have hdiv : below * step + x.quarters * den % step = x.quarters * den := by
    rw [← hbelow, Nat.mul_comm]
    exact Nat.div_add_mod _ _
  have hmod : x.quarters * den % step < step := Nat.mod_lt _ hstep
  have hadmits : x.admits (below * step) den = true := by
    have hlow : (x.lower + 2) * den ≤ x.quarters * den := Nat.mul_le_mul_right _ hlower
    have hhigh : (x.quarters + 1) * den ≤ x.upper * den := Nat.mul_le_mul_right _ hupper
    rw [Nat.add_mul] at hlow hhigh
    have hbetween : x.lower * den < below * step ∧ below * step < x.upper * den := by omega
    unfold admits
    simp [hbetween]
  rw [hadmits]
  cases x.admits ((below + 1) * step) den with
  | false => exact ⟨below, rfl⟩
  | true =>
    dsimp only
    split
    · exact ⟨_, rfl⟩
    · split
      · exact ⟨_, rfl⟩
      · cases tie <;> exact ⟨_, rfl⟩

theorem quartersPerOne_lt : quartersPerOne < 10 ^ (323 + 1) := by
  rw [quartersPerOne_eq]
  decide +kernel

theorem finest_step_lt : (gridStep finestExponent).1 < (gridStep finestExponent).2 := by
  rw [show finestExponent = .negSucc 323 from rfl, gridStep_negSucc]
  exact quartersPerOne_lt

/-! ## The search -/

theorem reads_searchGrids {x : Magnitude} (hx : x.significand ≠ 0) (tie : Tie) (count : Nat) :
    x.Reads (x.searchGrids tie (count + 1)).quarters := by
  induction count with
  | zero =>
    obtain ⟨n, hn⟩ := exists_onGrid? hx tie finest_step_lt
    have hgrid : x.onGrid? tie (finestExponent + (0 : Nat)) = some n := hn
    rw [searchGrids, hgrid]
    exact reads_of_onGrid? hgrid
  | succ count ih =>
    rw [searchGrids]
    split
    · next n hn => exact reads_of_onGrid? hn
    · exact ih

theorem finest_le_coarsest (x : Magnitude) : finestExponent ≤ x.coarsestExponent := by
  have hlength : (Text.decimalDigits (unitsPerOne / x.units)).length ≤ 323 + 1 := by
    refine (Nat.length_toDigits_le_iff (by decide) (by decide)).2 ?_
    have hlt := quartersPerOne_lt
    rw [quartersPerOne] at hlt
    have hle : unitsPerOne / x.units ≤ unitsPerOne := Nat.div_le_self _ _
    omega
  simp only [coarsestExponent, finestExponent]
  split <;> omega

/-- The shortest decimal of a magnitude lies in its interval. -/
theorem reads_shortest {x : Magnitude} (hx : x.significand ≠ 0) (tie : Tie) :
    x.Reads (x.shortest tie).quarters := by
  have hzero : x.isZero = false := by simpa [isZero] using hx
  have hle := x.finest_le_coarsest
  obtain ⟨count, hcount⟩ : ∃ count,
      (x.coarsestExponent - finestExponent + 1).toNat = count + 1 :=
    ⟨(x.coarsestExponent - finestExponent).toNat, by omega⟩
  rw [shortest, hzero, if_neg Bool.false_ne_true, hcount]
  exact reads_searchGrids hx tie count

end Magnitude

end DirectiveQuery
