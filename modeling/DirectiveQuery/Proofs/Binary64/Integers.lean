import Mathlib.Algebra.Group.Nat.Defs
import DirectiveQuery.Binary64.Reading
import DirectiveQuery.Filter.Value

/-
  Whole numbers of the format. The reader fixes the scale that leaves 53 binary digits
  (`log2_sub`) and rounds. A magnitude in normal form is read back exactly from its units
  (`nearest?_units`): nothing is rounded. Every natural number through 2^53 is a magnitude, so
  reading it as a decimal numeral gives it back, with either sign.
-/
namespace DirectiveQuery

theorem roundHalfEven_mul (q : Nat) {d : Nat} (hd : 0 < d) : roundHalfEven (q * d) d = q := by
  have hq : q * d / d = q := Nat.mul_div_cancel q hd
  have hr : q * d % d = 0 := Nat.mul_mod_left q d
  unfold roundHalfEven
  dsimp only
  rw [hq, hr, if_pos (by omega)]

theorem two_pow_mul_two_pow {a b c d : Nat} (h : a + b = c + d) :
    2 ^ a * 2 ^ b = 2 ^ c * 2 ^ d := by
  rw [← Nat.pow_add, ← Nat.pow_add, h]

namespace Magnitude

theorem units_eq (x : Magnitude) : x.units = x.significand * 2 ^ x.scale := by
  rw [units, Nat.pow_eq]

theorem unitsPerOne_eq : unitsPerOne = 2 ^ 1074 := Nat.pow_eq

theorem unitsPerOne_pos : 0 < unitsPerOne := by
  rw [unitsPerOne_eq]
  exact Nat.two_pow_pos 1074

/-- The scale that leaves 53 binary digits, or zero if there are no more than those. -/
theorem log2_sub {n d t : Nat} (hd : 0 < d) (hlow : t = 0 ∨ 2 ^ (52 + t) * d ≤ n)
    (hhigh : n < 2 ^ (53 + t) * d) : Nat.log2 (n / d) - 52 = t := by
  have hlt : n / d < 2 ^ (53 + t) := (Nat.div_lt_iff_lt_mul hd).2 hhigh
  rcases Nat.eq_zero_or_pos t with rfl | ht
  · by_cases hzero : n / d = 0
    · rw [hzero]
      rfl
    · have hlog : Nat.log2 (n / d) < 53 := (Nat.log2_lt hzero).2 hlt
      omega
  · have hge : 2 ^ (52 + t) ≤ n / d := (Nat.le_div_iff_mul_le hd).2 (hlow.resolve_left (by omega))
    have hpos : 0 < 2 ^ (52 + t) := Nat.two_pow_pos _
    have hlog : Nat.log2 (n / d) = 52 + t := by
      refine (Nat.log2_eq_iff (by omega)).2 ⟨hge, ?_⟩
      rwa [show 52 + t + 1 = 53 + t by omega]
    omega

theorem nearest?_eq {x : Magnitude} {n d t : Nat} (hscale : Nat.log2 (n / d) - 52 = t)
    (hround : (roundHalfEven n (d * 2 ^ t) = x.significand ∧ t = x.scale) ∨
      (roundHalfEven n (d * 2 ^ t) = 2 ^ 53 ∧ x.significand = 2 ^ 52 ∧ t + 1 = x.scale)) :
    nearest? n d = some x := by
  have hlt : x.significand < 2 ^ 53 := x.significand_lt
  unfold nearest?
  dsimp only
  simp only [hscale, Nat.pow_eq]
  rcases hround with ⟨hround, rfl⟩ | ⟨hround, hm, ht⟩
  · rw [hround, if_neg (by omega)]
    exact ofParts?_eq x
  · rw [hround, if_pos rfl, ← hm, ht]
    exact ofParts?_eq x

/-- A normal magnitude is nearest to itself. -/
theorem nearest?_units {x : Magnitude} (hx : 2 ^ 52 ≤ x.significand) :
    nearest? x.units 1 = some x := by
  have hpos : 0 < 2 ^ x.scale := Nat.two_pow_pos x.scale
  have hlow : 2 ^ (52 + x.scale) * 1 ≤ x.units := by
    rw [Nat.mul_one, Nat.pow_add, units_eq]
    exact Nat.mul_le_mul_right _ hx
  have hhigh : x.units < 2 ^ (53 + x.scale) * 1 := by
    rw [Nat.mul_one, Nat.pow_add, units_eq]
    exact Nat.mul_lt_mul_of_pos_right x.significand_lt hpos
  have hround : roundHalfEven x.units (1 * 2 ^ x.scale) = x.significand := by
    rw [Nat.one_mul, units_eq, roundHalfEven_mul _ hpos]
  exact nearest?_eq (log2_sub Nat.one_pos (.inr hlow) hhigh) (.inl ⟨hround, rfl⟩)

/-- A natural number through 2^53 is a normal magnitude, unless it is zero. -/
theorem exists_units {n : Nat} (hn : 0 < n) (h : n ≤ 2 ^ 53) :
    ∃ x : Magnitude, 2 ^ 52 ≤ x.significand ∧ x.units = n * unitsPerOne := by
  by_cases hlt : n < 2 ^ 53
  · have hne : n ≠ 0 := by omega
    have hk : n.log2 < 53 := (Nat.log2_lt hne).2 hlt
    have hlow : 2 ^ n.log2 ≤ n := Nat.log2_self_le hne
    have hhigh : n < 2 ^ (n.log2 + 1) := Nat.lt_log2_self
    have hs : 2 ^ 52 ≤ n * 2 ^ (52 - n.log2) := by
      have h1 : 2 ^ n.log2 * 2 ^ (52 - n.log2) = 2 ^ 52 := by
        rw [← Nat.pow_add, show n.log2 + (52 - n.log2) = 52 by omega]
      rw [← h1]
      exact Nat.mul_le_mul_right _ hlow
    have ht : n * 2 ^ (52 - n.log2) < 2 ^ 53 := by
      have h1 : 2 ^ (n.log2 + 1) * 2 ^ (52 - n.log2) = 2 ^ 53 := by
        rw [← Nat.pow_add, show n.log2 + 1 + (52 - n.log2) = 53 by omega]
      rw [← h1]
      exact Nat.mul_lt_mul_of_pos_right hhigh (Nat.two_pow_pos _)
    refine ⟨⟨n * 2 ^ (52 - n.log2), n.log2 + 1022, ht, by omega, .inr hs⟩, hs, ?_⟩
    have hexponent : 52 - n.log2 + (n.log2 + 1022) = 1074 := by omega
    rw [units_eq, unitsPerOne_eq]
    dsimp only
    rw [Nat.mul_assoc, ← Nat.pow_add, hexponent]
  · obtain rfl : n = 2 ^ 53 := Nat.le_antisymm h (Nat.le_of_not_lt hlt)
    refine ⟨⟨2 ^ 52, 1075, by decide, by decide, .inr (Nat.le_refl _)⟩, Nat.le_refl _, ?_⟩
    rw [units_eq, unitsPerOne_eq]
    apply two_pow_mul_two_pow
    decide

theorem toNat?_of_units {x : Magnitude} {n : Nat} (h : x.units = n * unitsPerOne) :
    x.toNat? = some n := by
  rw [toNat?, h, Nat.mul_mod_left, if_pos rfl, Nat.mul_div_cancel n unitsPerOne_pos]

theorem ofDecimal?_natural {n : Nat} (hn : n ≠ 0) :
    ofDecimal? n 0 = nearest? (n * unitsPerOne) 1 := by
  unfold ofDecimal?
  rw [if_neg hn]
  show (if 309 ≤ 0 then none else nearest? (n * Nat.pow 10 0 * unitsPerOne) 1) = _
  rw [if_neg (by decide), Nat.pow_eq, Nat.pow_zero, Nat.mul_one]

/-- Natural numbers through 2^53 are read exactly. -/
theorem ofDecimal?_exact {n : Nat} (h : n ≤ 2 ^ 53) :
    ∃ x, ofDecimal? n 0 = some x ∧ x.toNat? = some n := by
  by_cases hn : n = 0
  · subst hn
    refine ⟨zero, rfl, toNat?_of_units ?_⟩
    rw [Nat.zero_mul, units, zero, Nat.zero_mul]
  · obtain ⟨x, hx, hunits⟩ := exists_units (Nat.pos_of_ne_zero hn) h
    exact ⟨x, by rw [ofDecimal?_natural hn, ← hunits, nearest?_units hx], toNat?_of_units hunits⟩

end Magnitude

namespace Value

theorem isWord_iff {n : Int} :
    isWord n = true ↔ -((2 ^ 63 : Nat) : Int) ≤ n ∧ n < (2 ^ 63 : Nat) := by
  rw [isWord, Bool.and_eq_true, decide_eq_true_eq, decide_eq_true_eq, Nat.pow_eq]

/-- A natural number through 2^53 that is read from its digits is an integer value, and so is
its negation. -/
theorem ofNumber_ofDecimal {n : Nat} (h : n ≤ 2 ^ 53) :
    ofNumber (Binary64.ofDecimal false n 0) = integer n ∧
      ofNumber (Binary64.ofDecimal false n 0).negate = integer (-n) := by
  obtain ⟨x, hx, hn⟩ := Magnitude.ofDecimal?_exact h
  have hread : Binary64.ofDecimal false n 0 = .finite false x := by
    unfold Binary64.ofDecimal
    rw [hx]
  rw [hread]
  have hword : isWord (n : Int) = true := isWord_iff.2 (by omega)
  have hminus : isWord (-(n : Int)) = true := isWord_iff.2 (by omega)
  constructor
  · simp [ofNumber, Binary64.toInt?, hn, hword]
  · simp [ofNumber, Binary64.negate, Binary64.toInt?, hn, hminus]

end Value

end DirectiveQuery
