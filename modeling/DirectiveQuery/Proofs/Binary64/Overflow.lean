import DirectiveQuery.Proofs.Binary64.Rounding

/-
  Which decimals are beyond the format. The reader fixes a scale and rounds, and it has no
  magnitude exactly if the scale is too large, or becomes so when rounding brings the 54th digit.
  Both come down to one bound on the number itself (`nearest?_eq_none_iff`): half a step beyond
  the largest magnitude, where the step is that of the largest scale. The cases of the decimal
  reader that are settled without a power of ten lie on the same side of that bound as the number
  does (`ofDecimal?_eq_none_iff`).
-/
namespace DirectiveQuery

section Rounding

variable {n d : Nat}

theorem roundHalfEven_le (hd : 0 < d) : 2 * (roundHalfEven n d * d) ≤ 2 * n + d := by
  have hdiv : n / d * d + n % d = n := Nat.div_add_mod' n d
  have hmod : n % d < d := Nat.mod_lt n hd
  unfold roundHalfEven
  dsimp only
  split
  · omega
  · split
    · rw [Nat.add_mul]
      omega
    · split
      · omega
      · rw [Nat.add_mul]
        omega

theorem le_roundHalfEven (hd : 0 < d) : 2 * n ≤ 2 * (roundHalfEven n d * d) + d := by
  have hdiv : n / d * d + n % d = n := Nat.div_add_mod' n d
  have hmod : n % d < d := Nat.mod_lt n hd
  unfold roundHalfEven
  dsimp only
  split
  · omega
  · split
    · rw [Nat.add_mul]
      omega
    · split
      · omega
      · rw [Nat.add_mul]
        omega

/-- Rounding passes no whole number. -/
theorem roundHalfEven_le_of_le (hd : 0 < d) {m : Nat} (h : n ≤ m * d) :
    roundHalfEven n d ≤ m := by
  have hround := @roundHalfEven_le n d hd
  by_contra hgt
  have hmul : (m + 1) * d ≤ roundHalfEven n d * d := Nat.mul_le_mul_right _ (by omega)
  rw [Nat.add_mul] at hmul
  omega

theorem le_roundHalfEven_of_le (hd : 0 < d) {m : Nat} (h : m * d ≤ n) :
    m ≤ roundHalfEven n d := by
  have hround := @le_roundHalfEven n d hd
  by_contra hlt
  have hmul : (roundHalfEven n d + 1) * d ≤ m * d := Nat.mul_le_mul_right _ (by omega)
  rw [Nat.add_mul] at hmul
  omega

end Rounding

namespace Magnitude

/-- Half a step beyond the largest magnitude. -/
def overflow : Nat := (2 ^ 54 - 1) * 2 ^ 970

section Nearest

variable {n d : Nat}

/-- The scale that the reader fixes leaves 53 binary digits at most, and no fewer unless it is
zero. -/
theorem scale_bounds (hd : 0 < d) {s : Nat} (hs : Nat.log2 (n / d) - 52 = s) :
    (s = 0 ∨ 2 ^ 52 * (d * 2 ^ s) ≤ n) ∧ n < 2 ^ 53 * (d * 2 ^ s) := by
  have hlt : n / d < 2 ^ (53 + s) := by
    by_cases hzero : n / d = 0
    · rw [hzero]
      exact Nat.two_pow_pos _
    · exact (Nat.log2_lt hzero).1 (by omega)
  have hhigh := (Nat.div_lt_iff_lt_mul hd).1 hlt
  rw [show 2 ^ (53 + s) * d = 2 ^ 53 * (d * 2 ^ s) by ring] at hhigh
  refine ⟨?_, hhigh⟩
  by_cases hzero : s = 0
  · exact .inl hzero
  have hne : n / d ≠ 0 := by
    intro h
    rw [h] at hs
    exact hzero hs.symm
  have hge : 2 ^ (52 + s) ≤ n / d := (Nat.le_log2 hne).1 (by omega)
  have hlow := (Nat.le_div_iff_mul_le hd).1 hge
  rw [show 2 ^ (52 + s) * d = 2 ^ 52 * (d * 2 ^ s) by ring] at hlow
  exact .inr hlow

/-- Rounding at that scale leaves 53 binary digits, or makes the power of two behind them. -/
theorem significand_bounds (hd : 0 < d) {s : Nat} (hs : Nat.log2 (n / d) - 52 = s) :
    (s = 0 ∨ 2 ^ 52 ≤ roundHalfEven n (d * 2 ^ s)) ∧ roundHalfEven n (d * 2 ^ s) ≤ 2 ^ 53 := by
  obtain ⟨hlow, hhigh⟩ := scale_bounds hd hs
  have hstep : 0 < d * 2 ^ s := Nat.mul_pos hd (Nat.two_pow_pos _)
  exact ⟨hlow.imp id (le_roundHalfEven_of_le hstep),
    roundHalfEven_le_of_le hstep (Nat.le_of_lt hhigh)⟩

theorem ofParts?_eq_none_iff {m s : Nat} (hm : m < 2 ^ 53) (hs : s = 0 ∨ 2 ^ 52 ≤ m) :
    ofParts? m s = none ↔ 2045 < s := by
  unfold ofParts?
  split
  · next h => exact iff_of_false nofun (Nat.not_lt.2 h.2.1)
  · next h => exact iff_of_true rfl (Nat.lt_of_not_le fun hle => h ⟨hm, hle, hs⟩)

/-- No magnitude is nearest exactly from half a step beyond the largest one on. -/
theorem nearest?_eq_none_iff (hd : 0 < d) :
    nearest? n d = none ↔ (2 ^ 54 - 1) * (d * 2 ^ 2044) ≤ n := by
  generalize hs : Nat.log2 (n / d) - 52 = s
  obtain ⟨hlow, hhigh⟩ := scale_bounds hd hs
  obtain ⟨hmlow, hmhigh⟩ := significand_bounds hd hs
  have hstep : 0 < d * 2 ^ s := Nat.mul_pos hd (Nat.two_pow_pos _)
  have hround := @roundHalfEven_le n _ hstep
  -- The steps of the scales, each twice as long as the one before.
  obtain ⟨step, hsteps⟩ : ∃ step : Nat → Nat, ∀ t, d * 2 ^ t = step t := ⟨_, fun _ => rfl⟩
  have hmono : ∀ {t u : Nat}, t ≤ u → step t ≤ step u := fun h => by
    rw [← hsteps, ← hsteps]
    exact Nat.mul_le_mul_left _ (Nat.pow_le_pow_right (by decide) h)
  have hdouble : ∀ t, step (t + 1) = 2 * step t := fun t => by
    rw [← hsteps, ← hsteps]
    ring
  have htop : step 2045 = 2 * step 2044 := hdouble 2044
  have hbeyond : step 2046 = 2 * step 2045 := hdouble 2045
  unfold nearest?
  dsimp only
  simp only [hs, Nat.pow_eq]
  simp only [hsteps] at *
  have hbelow : s ≤ 2044 → ¬(2 ^ 54 - 1) * step 2044 ≤ n := fun h => by
    have hle := hmono h
    omega
  split
  · next hm =>
    rw [ofParts?_eq_none_iff (by decide) (.inr (Nat.le_refl _))]
    rw [hm] at hround
    constructor
    · intro h
      have hle := hmono (show 2045 ≤ s by omega)
      omega
    · intro h
      by_contra hle
      exact hbelow (by omega) h
  · next hm =>
    rw [ofParts?_eq_none_iff (by omega) hmlow]
    constructor
    · intro h
      have hle := hmono (show 2046 ≤ s by omega)
      omega
    · intro h
      by_contra hle
      have hlast : s = 2045 := by
        by_contra hne
        exact hbelow (by omega) h
      rw [hlast] at hm hstep hhigh
      exact hm (roundHalfEven_eq hstep (by omega) (by omega) fun _ => by decide)

end Nearest

/-! ## Decimals -/

theorem overflow_units : overflow * unitsPerOne = (2 ^ 54 - 1) * 2 ^ 2044 := by
  rw [overflow, unitsPerOne_eq, Nat.mul_assoc, show 2044 = 970 + 1074 from rfl, Nat.pow_add]

theorem two_pow_le_overflow : 2 ^ 970 ≤ overflow :=
  Nat.le_mul_of_pos_left _ (by decide)

theorem overflow_lt : overflow < 2 ^ 1024 := by
  have hpos : 0 < 2 ^ 970 := Nat.two_pow_pos _
  calc overflow < 2 ^ 54 * 2 ^ 970 := Nat.mul_lt_mul_of_pos_right (by decide) hpos
    _ = 2 ^ 1024 := by rw [show 1024 = 54 + 970 from rfl, Nat.pow_add]

/-- A decimal is beyond the format exactly if it is at least half a step beyond the largest
magnitude. -/
theorem ofDecimal?_eq_none_iff {digits : Nat} {exponent : Int} :
    ofDecimal? digits exponent = none ↔ (overflow : ℚ) ≤ digits * 10 ^ exponent := by
  have hpos : 0 < overflow := Nat.lt_of_lt_of_le (Nat.two_pow_pos _) two_pow_le_overflow
  unfold ofDecimal?
  split
  · next h =>
    rw [h, Nat.cast_zero, zero_mul]
    exact iff_of_false nofun (not_le.2 (by exact_mod_cast hpos))
  · next hdigits =>
    cases exponent with
    | ofNat e =>
      dsimp only
      rw [Int.ofNat_eq_natCast, zpow_natCast]
      split
      · next he =>
        refine iff_of_true rfl ?_
        have hle : overflow ≤ digits * 10 ^ e := Nat.le_trans (Nat.le_of_lt overflow_lt)
          (Nat.le_trans (Nat.le_of_lt (two_pow_lt_ten_pow he))
            (Nat.le_mul_of_pos_left _ (Nat.pos_of_ne_zero hdigits)))
        exact_mod_cast hle
      · rw [nearest?_eq_none_iff Nat.one_pos, Nat.one_mul, ← overflow_units, Nat.pow_eq,
          Nat.mul_le_mul_right_iff unitsPerOne_pos]
        exact_mod_cast Iff.rfl
    | negSucc e =>
      dsimp only
      have hten : (0 : ℚ) < 10 ^ (e + 1) := by positivity
      rw [zpow_negSucc, ← div_eq_mul_inv, le_div_iff₀ hten]
      split
      · next he =>
        refine iff_of_false nofun (not_le.2 ?_)
        have hlt : digits < overflow * 10 ^ (e + 1) := calc
          digits ≤ digits * quartersPerOne := Nat.le_mul_of_pos_right _ quartersPerOne_pos
          _ < 10 ^ (e + 1) := lt_ten_pow he
          _ ≤ overflow * 10 ^ (e + 1) := Nat.le_mul_of_pos_left _ hpos
        exact_mod_cast hlt
      · have hpower : 0 < 10 ^ (e + 1) := Nat.pow_pos (by decide)
        rw [Nat.pow_eq, nearest?_eq_none_iff hpower, Nat.mul_comm (10 ^ (e + 1)), ← Nat.mul_assoc,
          ← overflow_units, Nat.mul_right_comm, Nat.mul_le_mul_right_iff unitsPerOne_pos]
        exact_mod_cast Iff.rfl

end Magnitude

/-! ## Numerals -/

/-- The number that a numeral denotes. -/
def Numeral.value (numeral : Numeral) : ℚ :=
  Text.numberOfDigits 10 (numeral.whole ++ numeral.fraction) *
    10 ^ (numeral.exponent - numeral.fraction.length)

/-- A numeral is read as an infinity exactly if it denotes such a number, whatever its sign. -/
theorem Numeral.isFinite_toBinary64 (numeral : Numeral) (negative : Bool) :
    (numeral.toBinary64 negative).isFinite = true ↔ numeral.value < Magnitude.overflow := by
  rw [← not_le, value, ← Magnitude.ofDecimal?_eq_none_iff, toBinary64, Binary64.ofDecimal]
  split
  · next x hx => simp [hx, Binary64.isFinite]
  · next hx => simp [hx, Binary64.isFinite]

end DirectiveQuery
