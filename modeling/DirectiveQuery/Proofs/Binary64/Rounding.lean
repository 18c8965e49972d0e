import DirectiveQuery.Proofs.Binary64.Interval

/-
  What lies in the interval of a magnitude is read as it (`ofDecimal?_of_reads`), so the shortest
  decimal of a number is read back as the number. The scale that the reader fixes is the one of
  the magnitude, except just below a power of two, in the short half of its interval: there it is
  one less, and rounding brings the 54th digit.
-/
namespace DirectiveQuery

/-- Rounding gives the whole number that is at most a half away, and even if it is a half. -/
theorem roundHalfEven_eq {m n d : Nat} (hd : 0 < d) (hlow : 2 * (m * d) ≤ 2 * n + d)
    (hhigh : 2 * n ≤ 2 * (m * d) + d)
    (htie : 2 * (m * d) = 2 * n + d ∨ 2 * n = 2 * (m * d) + d → m % 2 = 0) :
    roundHalfEven n d = m := by
  have hdiv : n / d * d + n % d = n := Nat.div_add_mod' n d
  have hmod : n % d < d := Nat.mod_lt n hd
  have hge : n / d ≤ m := by
    by_contra hlt
    have hmul : (m + 1) * d ≤ n / d * d := Nat.mul_le_mul_right d (by omega)
    rw [Nat.add_mul] at hmul
    omega
  have hle : m ≤ n / d + 1 := by
    by_contra hlt
    have hmul : (n / d + 2) * d ≤ m * d := Nat.mul_le_mul_right d (by omega)
    rw [Nat.add_mul] at hmul
    omega
  unfold roundHalfEven
  dsimp only
  obtain hm | hm : m = n / d ∨ m = n / d + 1 := by omega
  · rw [← hm] at hdiv ⊢
    split
    · rfl
    · rw [if_neg (by omega), if_pos (htie (by omega))]
  · have hdiv' : m * d + n % d = n + d := by
      rw [hm, Nat.add_mul]
      omega
    split
    · omega
    · split
      · exact hm.symm
      · have heven : m % 2 = 0 := htie (by omega)
        rw [if_neg (by omega)]
        exact hm.symm

namespace Magnitude

theorem admits_ends {x : Magnitude} {n d : Nat} (h : x.admits n d = true) :
    x.lower * d ≤ n ∧ n ≤ x.upper * d ∧
      (n = x.lower * d ∨ n = x.upper * d → x.significand % 2 = 0) := by
  have hle : x.lower * d ≤ x.upper * d := Nat.mul_le_mul_right d x.lower_le_upper
  simp only [admits, Bool.or_eq_true, Bool.and_eq_true, decide_eq_true_eq, beq_iff_eq] at h
  omega

theorem upper_mul (x : Magnitude) (d : Nat) :
    x.upper * d = 4 * (x.significand * (d * 2 ^ x.scale)) + 2 * (d * 2 ^ x.scale) := by
  rw [upper_eq, quarters_eq]
  ring

/-- Outside the powers of two, the lower end is half a step down. -/
theorem lower_mul {x : Magnitude} (hx : x.significand ≠ 0)
    (h : x.scale = 0 ∨ x.significand ≠ 2 ^ 52) (d : Nat) :
    x.lower * d + 2 * (d * 2 ^ x.scale) = 4 * (x.significand * (d * 2 ^ x.scale)) := by
  have hle : 1 * 2 ^ x.scale ≤ x.significand * 2 ^ x.scale :=
    Nat.mul_le_mul_right _ (Nat.pos_of_ne_zero hx)
  have hlower : x.lower + 2 * 2 ^ x.scale = 4 * (x.significand * 2 ^ x.scale) := by
    simp only [lower, Nat.pow_eq, quarters_eq]
    split <;> omega
  calc x.lower * d + 2 * (d * 2 ^ x.scale) = (x.lower + 2 * 2 ^ x.scale) * d := by ring
    _ = 4 * (x.significand * (d * 2 ^ x.scale)) := by
      rw [hlower]
      ring

/-- Below a power of two, the lower end is a quarter of a step down. -/
theorem lower_mul_of_power {x : Magnitude} (ht : x.scale ≠ 0) (h : x.significand = 2 ^ 52)
    (d : Nat) : x.lower * d + d * 2 ^ x.scale = 4 * (2 ^ 52 * (d * 2 ^ x.scale)) := by
  have hlower : x.lower + 2 ^ x.scale = 4 * (2 ^ 52 * 2 ^ x.scale) := by
    simp only [lower, Nat.pow_eq, quarters_eq]
    rw [if_pos ⟨h, ht⟩, h]
    omega
  calc x.lower * d + d * 2 ^ x.scale = (x.lower + 2 ^ x.scale) * d := by ring
    _ = 4 * (2 ^ 52 * (d * 2 ^ x.scale)) := by
      rw [hlower]
      ring

/-- At most half a step away from `x`, the scale is that of `x`, and rounding gives `x`. -/
theorem nearest?_of_near {x : Magnitude} {n d : Nat} (hd : 0 < d)
    (hpower : x.scale = 0 ∨ x.significand ≠ 2 ^ 52 ∨ 2 ^ 52 * (d * 2 ^ x.scale) ≤ n)
    (hlow : 2 * (x.significand * (d * 2 ^ x.scale)) ≤ 2 * n + d * 2 ^ x.scale)
    (hhigh : 2 * n ≤ 2 * (x.significand * (d * 2 ^ x.scale)) + d * 2 ^ x.scale)
    (htie : 2 * (x.significand * (d * 2 ^ x.scale)) = 2 * n + d * 2 ^ x.scale ∨
      2 * n = 2 * (x.significand * (d * 2 ^ x.scale)) + d * 2 ^ x.scale →
        x.significand % 2 = 0) :
    nearest? n d = some x := by
  have hlt : x.significand < 2 ^ 53 := x.significand_lt
  have hstep : 0 < d * 2 ^ x.scale := Nat.mul_pos hd (Nat.two_pow_pos _)
  have hround := roundHalfEven_eq hstep hlow hhigh htie
  refine nearest?_eq (log2_sub hd ?_ ?_) (.inl ⟨hround, rfl⟩)
  · rcases x.normal with hzero | hnormal
    · exact .inl hzero
    · rw [Nat.pow_eq] at hnormal
      rw [show 2 ^ (52 + x.scale) * d = 2 ^ 52 * (d * 2 ^ x.scale) by ring]
      rcases hpower with hzero | hne | hge
      · exact .inl hzero
      · have hmul : (2 ^ 52 + 1) * (d * 2 ^ x.scale) ≤ x.significand * (d * 2 ^ x.scale) :=
          Nat.mul_le_mul_right _ (by omega)
        rw [Nat.add_mul] at hmul
        exact .inr (by omega)
      · exact .inr hge
  · have hmul : x.significand * (d * 2 ^ x.scale) ≤ (2 ^ 53 - 1) * (d * 2 ^ x.scale) :=
      Nat.mul_le_mul_right _ (by omega)
    rw [show 2 ^ (53 + x.scale) * d = 2 ^ 53 * (d * 2 ^ x.scale) by ring]
    omega

/-- Less than a quarter of a step below a power of two, the scale is one less, and rounding gives
the power of two. -/
theorem nearest?_below_power {x : Magnitude} {n d t : Nat} (hd : 0 < d) (ht : t + 1 = x.scale)
    (h : x.significand = 2 ^ 52) (hlow : 2 ^ 54 * (d * 2 ^ t) ≤ 2 * n + d * 2 ^ t)
    (hhigh : n < 2 ^ 53 * (d * 2 ^ t)) : nearest? n d = some x := by
  have hstep : 0 < d * 2 ^ t := Nat.mul_pos hd (Nat.two_pow_pos _)
  have hround : roundHalfEven n (d * 2 ^ t) = 2 ^ 53 :=
    roundHalfEven_eq hstep (by omega) (by omega) fun _ => by decide
  refine nearest?_eq (log2_sub hd (.inr ?_) ?_) (.inr ⟨hround, h, ht⟩)
  · rw [show 2 ^ (52 + t) * d = 2 ^ 52 * (d * 2 ^ t) by ring]
    omega
  · rw [show 2 ^ (53 + t) * d = 2 ^ 53 * (d * 2 ^ t) by ring]
    exact hhigh

/-- What lies in the interval of a nonzero magnitude is nearest to it. -/
theorem nearest?_of_admits {x : Magnitude} (hx : x.significand ≠ 0) {n d : Nat} (hd : 0 < d)
    (h : x.admits (4 * n) d = true) : nearest? n d = some x := by
  obtain ⟨hlow, hhigh, htie⟩ := admits_ends h
  rw [upper_mul] at hhigh htie
  by_cases hpower : x.scale = 0 ∨ x.significand ≠ 2 ^ 52
  · have hlower := lower_mul hx hpower d
    refine nearest?_of_near hd ?_ (by omega) (by omega) fun _ => htie (by omega)
    tauto
  · obtain ⟨hscale, hm⟩ : x.scale ≠ 0 ∧ x.significand = 2 ^ 52 := by tauto
    have hlower := lower_mul_of_power hscale hm d
    have hstep : 0 < d * 2 ^ x.scale := Nat.mul_pos hd (Nat.two_pow_pos _)
    rw [hm] at hhigh htie
    -- Above the power of two, half a step counts; below it the reader takes the scale below.
    by_cases hge : 2 ^ 52 * (d * 2 ^ x.scale) ≤ n
    · refine nearest?_of_near hd (.inr (.inr hge)) ?_ ?_ fun _ => ?_
      · rw [hm]
        omega
      · rw [hm]
        omega
      · rw [hm]
        decide
    · obtain ⟨t, ht⟩ : ∃ t, t + 1 = x.scale := ⟨x.scale - 1, by omega⟩
      have hdouble : d * 2 ^ x.scale = 2 * (d * 2 ^ t) := by
        rw [← ht]
        ring
      rw [hdouble] at hlower hge
      exact nearest?_below_power hd ht hm (by omega) (by omega)

/-! ## Decimals -/

theorem two_pow_lt_ten_pow {e : Nat} (he : 309 ≤ e) : 2 ^ 1024 < 10 ^ e := by
  have hlt : 2 ^ 1024 < 10 ^ 309 := by decide +kernel
  exact Nat.lt_of_lt_of_le hlt (Nat.pow_le_pow_right (by decide) he)

theorem two_pow_le_ten_pow (e : Nat) : 2 ^ (3 * e) ≤ 10 ^ e := by
  rw [Nat.pow_mul]
  exact Nat.pow_le_pow_left (by decide) e

/-- Large exponents take every decimal beyond all magnitudes. -/
theorem exponent_lt {x : Magnitude} {n e : Nat} (hn : n ≠ 0)
    (h : n * (10 ^ e * quartersPerOne) ≤ x.upper) : e < 309 := by
  by_contra he
  have hlt := Nat.mul_lt_mul_of_pos_right (two_pow_lt_ten_pow (Nat.le_of_not_lt he))
    quartersPerOne_pos
  exact Nat.lt_irrefl _ (calc
    x.upper < 2 ^ 1024 * quartersPerOne := x.upper_lt
    _ < 10 ^ e * quartersPerOne := hlt
    _ ≤ n * (10 ^ e * quartersPerOne) := Nat.le_mul_of_pos_left _ (Nat.pos_of_ne_zero hn)
    _ ≤ x.upper := h)

/-- Small exponents take every decimal below a quarter unit. -/
theorem lt_ten_pow {n e : Nat} (h : Nat.log2 n + 1076 < 3 * e) :
    n * quartersPerOne < 10 ^ e := by
  have hn : n < 2 ^ (Nat.log2 n + 1) := Nat.lt_log2_self
  calc n * quartersPerOne < 2 ^ (Nat.log2 n + 1) * quartersPerOne :=
        Nat.mul_lt_mul_of_pos_right hn quartersPerOne_pos
    _ = 2 ^ (Nat.log2 n + 1 + 1076) := by rw [quartersPerOne_eq, Nat.pow_eq, ← Nat.pow_add]
    _ ≤ 2 ^ (3 * e) := Nat.pow_le_pow_right (by decide) (by omega)
    _ ≤ 10 ^ e := two_pow_le_ten_pow e

theorem digits_ne_zero {x : Magnitude} (hx : x.significand ≠ 0) {d : Decimal}
    (h : x.Reads d.quarters) : d.digits ≠ 0 := by
  intro hd
  have hlow := h.lower_le
  rw [Decimal.quarters, hd, Nat.cast_zero, zero_mul, zero_mul] at hlow
  have hzero : x.lower ≤ 0 := by exact_mod_cast hlow
  have htwo := two_le_lower hx
  omega

/-- A decimal in the interval of a nonzero magnitude is read as it. -/
theorem ofDecimal?_of_reads {x : Magnitude} (hx : x.significand ≠ 0) {d : Decimal}
    (h : x.Reads d.quarters) : ofDecimal? d.digits d.exponent = some x := by
  obtain ⟨digits, exponent⟩ := d
  have hdigits : digits ≠ 0 := digits_ne_zero hx h
  rw [← gridStep_quarters] at h
  have hadmits := (admits_iff (gridStep_pos exponent).2).2 h
  obtain ⟨hlow, hhigh, -⟩ := admits_ends hadmits
  have hmul := Nat.mul_le_mul_right (gridStep exponent).2 (two_le_lower hx)
  unfold ofDecimal?
  rw [if_neg hdigits]
  cases exponent with
  | ofNat e =>
    rw [gridStep_ofNat, quartersPerOne] at hadmits
    rw [gridStep_ofNat, Nat.mul_one] at hhigh
    dsimp only at hadmits hhigh ⊢
    have he : e < 309 := exponent_lt hdigits hhigh
    rw [if_neg (by omega)]
    refine nearest?_of_admits hx Nat.one_pos ?_
    rwa [Nat.pow_eq, show 4 * (digits * 10 ^ e * unitsPerOne) =
      digits * (10 ^ e * (4 * unitsPerOne)) by ring]
  | negSucc e =>
    rw [gridStep_negSucc] at hadmits hlow hmul
    dsimp only at hadmits hlow hmul ⊢
    have he : ¬ Nat.log2 digits + 1076 < 3 * (e + 1) := by
      intro he
      have hlt := lt_ten_pow he
      omega
    rw [if_neg he]
    rw [quartersPerOne] at hadmits
    refine nearest?_of_admits hx (Nat.pow_pos (by decide)) ?_
    rwa [Nat.pow_eq, show 4 * (digits * unitsPerOne) = digits * (4 * unitsPerOne) by ring]

theorem eq_zero {x : Magnitude} (hx : x.significand = 0) : x = zero := by
  obtain ⟨significand, scale, _, _, hnormal⟩ := x
  obtain rfl : significand = 0 := hx
  obtain rfl : scale = 0 := hnormal.resolve_right (by decide)
  rfl

theorem shortest_zero (tie : Tie) : zero.shortest tie = ⟨0, 0⟩ := by
  have hzero : zero.isZero = true := rfl
  rw [shortest, if_pos hzero]

theorem digits_of_shortest_zero {d : Decimal} {tie : Tie}
    (h : d.quarters = (zero.shortest tie).quarters) : d.digits = 0 := by
  have hzero : (zero.shortest tie).quarters = 0 := by
    rw [shortest_zero, Decimal.quarters, Nat.cast_zero, zero_mul, zero_mul]
  have hten : (10 : ℚ) ^ d.exponent ≠ 0 := zpow_ne_zero _ (by norm_num)
  have hone : (quartersPerOne : ℚ) ≠ 0 := by exact_mod_cast quartersPerOne_pos.ne'
  rw [hzero, Decimal.quarters] at h
  have hdigits := (mul_eq_zero.1 ((mul_eq_zero.1 h).resolve_right hone)).resolve_right hten
  exact_mod_cast hdigits

/-- A shortest decimal without digits is written without an exponent. -/
theorem digits_shortest (x : Magnitude) (tie : Tie) :
    (x.shortest tie).digits ≠ 0 ∨ (x.shortest tie).exponent = 0 := by
  by_cases hx : x.significand = 0
  · obtain rfl := eq_zero hx
    exact .inr (by rw [shortest_zero])
  · exact .inl (digits_ne_zero hx (reads_shortest hx tie))

/-- The shortest decimal of a magnitude is read as it, however it is written. -/
theorem ofDecimal?_shortest (x : Magnitude) (tie : Tie) {d : Decimal}
    (h : d.quarters = (x.shortest tie).quarters) : ofDecimal? d.digits d.exponent = some x := by
  by_cases hx : x.significand = 0
  · obtain rfl := eq_zero hx
    have hdigits : d.digits = 0 := digits_of_shortest_zero h
    unfold ofDecimal?
    rw [if_pos hdigits]
  · exact ofDecimal?_of_reads hx (h ▸ reads_shortest hx tie)

end Magnitude

end DirectiveQuery
