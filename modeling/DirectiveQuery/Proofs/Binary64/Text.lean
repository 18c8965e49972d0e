import Mathlib.Algebra.Order.Field.Power
import Mathlib.Data.Rat.Floor
import Mathlib.Tactic.NormNum
import DirectiveQuery.Binary64.Format
import DirectiveQuery.Proofs.Text.Digits

/-
  Texts of decimals. The digits of a decimal say between which powers of ten it lies
  (`leading_bounds`), so whether the text from which a count is read has an exponent is a matter of
  two bounds on the number itself (`text_count`). Without an exponent, a decimal with a fraction
  has its floor before the point (`positionalText_fraction`), and one without a fraction is
  written with its digits and zeros behind them (`text_natural`).
-/
namespace DirectiveQuery

namespace Decimal

variable {d : Decimal}

/-- The rational number that a decimal is. -/
def value (d : Decimal) : ℚ := d.digits * 10 ^ d.exponent

theorem value_nonneg (d : Decimal) : 0 ≤ d.value := by
  rw [value]
  positivity

theorem value_natural (n : Nat) : value ⟨n, 0⟩ = n := by
  rw [value, zpow_zero, mul_one]

/-- A decimal without a fraction is a natural number. -/
theorem value_of_exponent (he : 0 ≤ d.exponent) :
    d.value = ((d.digits * 10 ^ d.exponent.toNat : Nat) : ℚ) := by
  rw [value]
  conv => lhs; rw [← Int.toNat_of_nonneg he, zpow_natCast]
  push_cast
  rfl

/-- The power of ten of the first digit. -/
def leading (d : Decimal) : Int := (Text.decimalDigits d.digits).length + d.exponent - 1

theorem leading_bounds (hd : d.digits ≠ 0) :
    (10 : ℚ) ^ d.leading ≤ d.value ∧ d.value < (10 : ℚ) ^ (d.leading + 1) := by
  have hten : (0 : ℚ) < 10 ^ d.exponent := by positivity
  have hpos : 0 < (Text.decimalDigits d.digits).length :=
    List.length_pos_iff.2 (Text.decimalDigits_ne_nil _)
  obtain ⟨hlow, hhigh⟩ := Text.decimalDigits_bounds hd
  have hlow' : (10 : ℚ) ^ ((Text.decimalDigits d.digits).length - 1) ≤ d.digits := by
    exact_mod_cast hlow
  have hhigh' : (d.digits : ℚ) < 10 ^ (Text.decimalDigits d.digits).length := by
    exact_mod_cast hhigh
  have hfirst : d.leading =
      (((Text.decimalDigits d.digits).length - 1 : Nat) : Int) + d.exponent := by
    rw [leading]
    omega
  have hnext : d.leading + 1 = ((Text.decimalDigits d.digits).length : Int) + d.exponent := by
    rw [leading]
    omega
  rw [hnext, hfirst, zpow_add₀ (by norm_num), zpow_add₀ (by norm_num), zpow_natCast, zpow_natCast,
    value]
  exact ⟨mul_le_mul_of_nonneg_right hlow' hten.le, mul_lt_mul_of_pos_right hhigh' hten⟩

/-- In the text of a count, digits alone are written from one millionth on and below 10^21, and
for zero. -/
theorem text_count (d : Decimal) : d.text .count =
    if d.digits = 0 ∨ (10 : ℚ) ^ (-6 : Int) ≤ d.value ∧ d.value < (10 : ℚ) ^ (21 : Int) then
      positionalText (Text.decimalDigits d.digits) (d.leading + 1) false
    else exponentText (Text.decimalDigits d.digits) d.leading := by
  have hpoint : ((Text.decimalDigits d.digits).length : Int) + d.exponent = d.leading + 1 := by
    rw [leading]
    omega
  have hrange : d.digits ≠ 0 → ((-6 ≤ d.leading ∧ d.leading ≤ 20) ↔
      (10 : ℚ) ^ (-6 : Int) ≤ d.value ∧ d.value < (10 : ℚ) ^ (21 : Int)) := by
    intro hd
    obtain ⟨hlow, hhigh⟩ := leading_bounds hd
    refine and_congr ⟨fun h => ?_, fun h => ?_⟩ ⟨fun h => ?_, fun h => ?_⟩
    · exact (zpow_le_zpow_right₀ (by norm_num) h).trans hlow
    · have hlt := (zpow_lt_zpow_iff_right₀ (by norm_num)).1 (h.trans_lt hhigh)
      omega
    · exact hhigh.trans_le (zpow_le_zpow_right₀ (by norm_num) (by omega))
    · have hlt := (zpow_lt_zpow_iff_right₀ (by norm_num)).1 (hlow.trans_lt h)
      omega
  unfold text
  dsimp only [NumberFormat.count]
  rw [hpoint, add_sub_cancel_right]
  by_cases hd : d.digits = 0
  · rw [if_pos (by simp [hd]), if_pos (.inl hd)]
  · refine if_congr ?_ rfl rfl
    rw [or_iff_right hd, ← hrange hd]
    simp [hd]

theorem exponentText_mem (digits : List Char) (exponent : Int) :
    'e' ∈ exponentText digits exponent := by
  simp [exponentText]

/-- From 10^21 on, the text has an exponent. -/
theorem mem_text_of_large (h : (10 : ℚ) ^ (21 : Int) ≤ d.value) : 'e' ∈ d.text .count := by
  have hd : d.digits ≠ 0 := by
    intro hd
    rw [value, hd, Nat.cast_zero, zero_mul] at h
    exact absurd h (by norm_num)
  have hlarge : ¬(d.digits = 0 ∨
      (10 : ℚ) ^ (-6 : Int) ≤ d.value ∧ d.value < (10 : ℚ) ^ (21 : Int)) := by
    rintro (hzero | ⟨-, hlt⟩)
    · exact hd hzero
    · exact absurd hlt (not_lt.2 h)
  rw [text_count, if_neg hlarge]
  exact exponentText_mem _ _

/-- What stands before and after the point, for a decimal with a fraction. -/
theorem positionalText_fraction (he : d.exponent < 0) : ∃ whole fraction,
    positionalText (Text.decimalDigits d.digits) (d.leading + 1) false =
      whole ++ '.' :: fraction ∧ whole ≠ [] ∧ (∀ c ∈ whole ++ fraction, c.isDigit) ∧
      Text.numberOfDigits 10 whole = ⌊d.value⌋₊ := by
  have hdigits : ∀ c ∈ Text.decimalDigits d.digits, c.isDigit := fun c hc =>
    Text.isDigit_of_mem_decimalDigits hc
  have hnumber := Text.numberOfDigits_decimalDigits d.digits
  have hlt := Text.numberOfDigits_lt hdigits
  obtain ⟨k, hk⟩ : ∃ k : Nat, d.exponent = -(k : Int) := ⟨d.exponent.natAbs, by omega⟩
  have hpoint : d.leading + 1 = (Text.decimalDigits d.digits).length - (k : Int) := by
    rw [leading, hk]
    omega
  have hfloor : ⌊d.value⌋₊ = d.digits / 10 ^ k := by
    have hquotient : d.value = (d.digits : ℚ) / ((10 ^ k : Nat) : ℚ) := by
      rw [value, hk, zpow_neg, zpow_natCast, ← div_eq_mul_inv, Nat.cast_pow, Nat.cast_ofNat]
    rw [hquotient, Rat.natFloor_natCast_div_natCast]
  rw [hpoint, hfloor]
  rw [hnumber] at hlt
  generalize Text.decimalDigits d.digits = ds at *
  unfold positionalText
  split
  · next hle =>
    refine ⟨['0'], List.replicate (ds.length - k : Int).natAbs '0' ++ ds, rfl,
      List.cons_ne_nil _ _, ?_, ?_⟩
    · have hzero : ∀ c ∈ ['0'], c.isDigit := List.forall_mem_singleton.2 (by decide)
      exact List.forall_mem_append.2 ⟨hzero, List.forall_mem_append.2
        ⟨fun c hc => Text.isDigit_of_mem_zeros hc, hdigits⟩⟩
    · have hsmall : d.digits < 10 ^ k :=
        Nat.lt_of_lt_of_le hlt (Nat.pow_le_pow_right (by decide) (by omega))
      rw [Nat.div_eq_of_lt hsmall]
      decide
  · next hpos =>
    have hbefore : (ds.length - k : Int).toNat = ds.length - k := by omega
    rw [hbefore]
    dsimp only
    rw [if_neg (by omega)]
    refine ⟨_, _, rfl, ?_, ?_, ?_⟩
    · rw [ne_eq, List.take_eq_nil_iff, not_or, ← List.length_eq_zero_iff]
      omega
    · rwa [List.take_append_drop]
    · rw [Text.numberOfDigits_take hdigits, hnumber, Nat.sub_sub_self (by omega)]

/-- The text of a decimal with a fraction has a point or an exponent. -/
theorem mem_text_of_fraction (he : d.exponent < 0) :
    '.' ∈ d.text .count ∨ 'e' ∈ d.text .count := by
  rw [text_count]
  split
  · obtain ⟨whole, fraction, htext, -⟩ := positionalText_fraction he
    rw [htext]
    exact .inl (List.mem_append_right _ List.mem_cons_self)
  · exact .inr (exponentText_mem _ _)

/-- A decimal without a fraction is written with its digits and zeros behind them. -/
theorem text_natural (he : 0 ≤ d.exponent) (hlt : d.digits * 10 ^ d.exponent.toNat < 10 ^ 21) :
    d.text .count =
      Text.decimalDigits d.digits ++ List.replicate d.exponent.toNat '0' := by
  have hvalue := value_of_exponent he
  have hrange : d.digits = 0 ∨
      (10 : ℚ) ^ (-6 : Int) ≤ d.value ∧ d.value < (10 : ℚ) ^ (21 : Int) := by
    by_cases hzero : d.digits = 0
    · exact .inl hzero
    have hone : (1 : ℚ) ≤ d.value := by
      rw [hvalue]
      exact_mod_cast Nat.mul_pos (Nat.pos_of_ne_zero hzero) (Nat.pow_pos (by decide))
    refine .inr ⟨le_trans (by norm_num) hone, ?_⟩
    rw [hvalue]
    exact_mod_cast hlt
  have hpos : 0 < (Text.decimalDigits d.digits).length :=
    List.length_pos_iff.2 (Text.decimalDigits_ne_nil _)
  rw [text_count, if_pos hrange, leading, sub_add_cancel, positionalText, if_neg (by omega),
    if_pos (by omega)]
  have hzeros : ((Text.decimalDigits d.digits).length + d.exponent).toNat -
      (Text.decimalDigits d.digits).length = d.exponent.toNat := by omega
  rw [hzeros]
  exact List.append_nil _

end Decimal

end DirectiveQuery
