import DirectiveQuery.Proofs.Binary64.Whole

/-
  Magnitudes with a fraction, and the whole numbers around them. The interval of a magnitude has
  no gaps and contains the magnitude (`Reads.between`, `reads_self`), so what lies between a
  magnitude and its shortest decimal is read as the magnitude. A natural number is read as a whole
  magnitude, so none lies between a magnitude with a fraction and its shortest decimal: both have
  the same floor (`floor_shortest`). For the same reason the shortest decimal of a magnitude is on
  the same side of any number that is read as another one; what is left are the numbers read
  from the bounds themselves, which are evaluated (`written_lt_iff`, `value_shortest_ge`).
-/
namespace DirectiveQuery

theorem cast_quartersPerOne_pos : (0 : ℚ) < quartersPerOne := by
  exact_mod_cast quartersPerOne_pos

theorem Magnitude.cast_unitsPerOne_pos : (0 : ℚ) < unitsPerOne := by
  exact_mod_cast unitsPerOne_pos

namespace Magnitude

variable {x y : Magnitude} {v : Nat} {tie : Tie}

/-- The rational number that the magnitude is. -/
def value (x : Magnitude) : ℚ := x.units / unitsPerOne

theorem value_nonneg (x : Magnitude) : 0 ≤ x.value :=
  div_nonneg (Nat.cast_nonneg _) (Nat.cast_nonneg _)

theorem quarters_eq_value (x : Magnitude) : (x.quarters : ℚ) = x.value * quartersPerOne := by
  rw [quarters, quartersPerOne, value, Nat.cast_mul, Nat.cast_mul, mul_left_comm,
    div_mul_cancel₀ _ cast_unitsPerOne_pos.ne']

theorem value_eq_div {a b : Nat} (hb : b ≠ 0) (h : x.units * b = a * unitsPerOne) :
    x.value = a / b := by
  have hb' : (b : ℚ) ≠ 0 := by exact_mod_cast hb
  rw [value, div_eq_div_iff cast_unitsPerOne_pos.ne' hb', ← Nat.cast_mul, ← Nat.cast_mul, h]

theorem toNat?_eq_some_iff_value : x.toNat? = some v ↔ x.value = v := by
  rw [toNat?_eq_some_iff, value, div_eq_iff cast_unitsPerOne_pos.ne']
  exact_mod_cast Iff.rfl

theorem significand_ne_zero (hx : x.toNat? = none) : x.significand ≠ 0 := by
  intro hzero
  have hwhole : zero.toNat? = some 0 := toNat?_of_units (by rw [units, zero, Nat.zero_mul,
    Nat.zero_mul])
  rw [eq_zero hzero, hwhole] at hx
  cases hx

/-- From 2^53 on, no magnitude has a fraction. -/
theorem value_lt (hx : x.toNat? = none) : x.value < 2 ^ 53 := by
  have hscale : x.scale < 1074 := by
    by_contra hle
    have hwhole : x.toNat? = some (x.significand * 2 ^ (x.scale - 1074)) := by
      rw [toNat?_eq_some_iff, units_eq, unitsPerOne_eq, Nat.mul_assoc, ← Nat.pow_add,
        Nat.sub_add_cancel (Nat.le_of_not_lt hle)]
    rw [hx] at hwhole
    cases hwhole
  have hunits : x.units < 2 ^ 53 * unitsPerOne := by
    rw [units_eq, unitsPerOne_eq]
    exact Nat.mul_lt_mul_of_lt_of_le x.significand_lt
      (Nat.pow_le_pow_right (by decide) hscale.le) (Nat.two_pow_pos _)
  rw [value, div_lt_iff₀ cast_unitsPerOne_pos]
  exact_mod_cast hunits

/-- A magnitude with a fraction is written with one. -/
theorem exponent_shortest_lt (hx : x.toNat? = none) (tie : Tie) :
    (x.shortest tie).exponent < 0 := by
  by_contra hnot
  have hexponent : 0 ≤ (x.shortest tie).exponent := not_lt.1 hnot
  have hread : ofDecimal? ((x.shortest tie).digits * 10 ^ (x.shortest tie).exponent.toNat) 0 =
      some x := by
    refine ofDecimal?_shortest x tie (d := ⟨_, 0⟩) ?_
    rw [Decimal.quarters_eq, Decimal.value_natural, Decimal.quarters_eq,
      Decimal.value_of_exponent hexponent]
  obtain ⟨v, hv⟩ := exists_toNat?_of_ofDecimal? hread
  rw [hx] at hv
  cases hv

/-! ## The interval has no gaps -/

theorem Reads.le_upper {q : ℚ} (h : x.Reads q) : q ≤ x.upper := by
  rcases h with ⟨-, h⟩ | ⟨-, h | h⟩
  · exact h.le
  · rw [h]
    exact_mod_cast x.lower_le_upper
  · exact h.le

theorem Reads.between {p q r : ℚ} (hp : x.Reads p) (hr : x.Reads r) (hpq : p ≤ q) (hqr : q ≤ r) :
    x.Reads q := by
  rcases hpq.eq_or_lt with rfl | hpq
  · exact hp
  rcases hqr.eq_or_lt with rfl | hqr
  · exact hr
  exact .inl ⟨hp.lower_le.trans_lt hpq, hqr.trans_le hr.le_upper⟩

theorem reads_self (hx : x.significand ≠ 0) : x.Reads (x.value * quartersPerOne) := by
  have hlow := lower_add_two_le hx
  have hpos : 0 < 2 ^ x.scale := Nat.two_pow_pos x.scale
  have hup := x.upper_eq
  rw [← quarters_eq_value]
  exact .inl ⟨by exact_mod_cast (by omega), by exact_mod_cast (by omega)⟩

theorem reads_decimal (hx : x.significand ≠ 0) (tie : Tie) :
    x.Reads ((x.shortest tie).value * quartersPerOne) := by
  rw [← Decimal.quarters_eq]
  exact reads_shortest hx tie

/-- A decimal between a magnitude and its shortest decimal, on either side, is read as it. -/
theorem ofDecimal?_of_between (tie : Tie) (hx : x.significand ≠ 0) {d : Decimal}
    (h : x.value ≤ d.value ∧ d.value ≤ (x.shortest tie).value ∨
      (x.shortest tie).value ≤ d.value ∧ d.value ≤ x.value) :
    ofDecimal? d.digits d.exponent = some x := by
  apply ofDecimal?_of_reads hx
  rw [Decimal.quarters_eq]
  have hone := cast_quartersPerOne_pos.le
  rcases h with ⟨hlow, hhigh⟩ | ⟨hlow, hhigh⟩
  · exact (reads_self hx).between (reads_decimal hx tie) (mul_le_mul_of_nonneg_right hlow hone)
      (mul_le_mul_of_nonneg_right hhigh hone)
  · exact (reads_decimal hx tie).between (reads_self hx) (mul_le_mul_of_nonneg_right hlow hone)
      (mul_le_mul_of_nonneg_right hhigh hone)

/-- A natural number between a magnitude and its shortest decimal is read as it. -/
theorem ofDecimal?_of_natural_between (tie : Tie) (hx : x.significand ≠ 0) {n : Nat}
    (h : x.value ≤ n ∧ n ≤ (x.shortest tie).value ∨
      (x.shortest tie).value ≤ n ∧ n ≤ x.value) : ofDecimal? n 0 = some x := by
  rw [← Decimal.value_natural n] at h
  exact ofDecimal?_of_between tie hx h

/-! ## Fractions -/

/-- No natural number lies between a magnitude with a fraction and its shortest decimal. -/
theorem floor_shortest (hx : x.toNat? = none) (tie : Tie) :
    ⌊(x.shortest tie).value⌋₊ = ⌊x.value⌋₊ := by
  have hzero := significand_ne_zero hx
  have hnone : ∀ n : Nat, ¬(x.value ≤ n ∧ n ≤ (x.shortest tie).value ∨
      (x.shortest tie).value ≤ n ∧ n ≤ x.value) := by
    intro n h
    obtain ⟨v, hv⟩ := exists_toNat?_of_ofDecimal? (ofDecimal?_of_natural_between tie hzero h)
    rw [hx] at hv
    cases hv
  have hpos := (x.shortest tie).value_nonneg
  rcases lt_trichotomy ⌊(x.shortest tie).value⌋₊ ⌊x.value⌋₊ with hlt | heq | hgt
  · exact absurd (.inr ⟨(Nat.floor_lt hpos).1 hlt |>.le, Nat.floor_le x.value_nonneg⟩)
      (hnone ⌊x.value⌋₊)
  · exact heq
  · exact absurd (.inl ⟨(Nat.floor_lt x.value_nonneg).1 hgt |>.le, Nat.floor_le hpos⟩)
      (hnone ⌊(x.shortest tie).value⌋₊)

/-! ## Whole numbers -/

/-- A whole magnitude is read from the number that it is. -/
theorem ofDecimal?_of_toNat? (hv : x.toNat? = some v) : ofDecimal? v 0 = some x := by
  by_cases hx : x.significand = 0
  · rw [(toNat?_zero_iff hv).2 hx, eq_zero hx]
    rfl
  · refine ofDecimal?_of_reads hx (d := ⟨v, 0⟩) ?_
    rw [Decimal.quarters_eq, Decimal.value_natural, ← toNat?_eq_some_iff_value.1 hv]
    exact reads_self hx

/-- The first magnitude that is no count, and what it is written as. -/
theorem written_word : (ofDecimal? (2 ^ 64) 0).map written = some 18446744073709552000 := by
  decide +kernel

theorem ofDecimal?_word : (ofDecimal? (2 ^ 64) 0).bind toNat? = some (2 ^ 64) := by
  decide +kernel

theorem written_two_pow : (ofDecimal? (2 ^ 53) 0).map written = some (2 ^ 53) := by
  decide +kernel

/-- What a whole magnitude is written as is a count exactly if the magnitude is one. -/
theorem written_lt_iff (hv : x.toNat? = some v) : x.written < 2 ^ 64 ↔ v < 2 ^ 64 := by
  by_cases heq : v = 2 ^ 64
  · have hread := ofDecimal?_of_toNat? hv
    have hwritten := written_word
    rw [← heq, hread, Option.map_some, Option.some.injEq] at hwritten
    omega
  by_cases hx : x.significand = 0
  · rw [(toNat?_zero_iff hv).2 hx, eq_zero hx, written_zero]
  -- the bound itself does not lie between the two, since it is read as another magnitude
  have hbound : ¬(v ≤ 2 ^ 64 ∧ 2 ^ 64 ≤ x.written ∨ x.written ≤ 2 ^ 64 ∧ 2 ^ 64 ≤ v) := by
    intro h
    have hread : ofDecimal? (2 ^ 64) 0 = some x := by
      refine ofDecimal?_of_natural_between .up hx ?_
      rw [value_shortest hv, toNat?_eq_some_iff_value.1 hv]
      exact_mod_cast h
    have hself := ofDecimal?_word
    rw [hread, Option.bind_some, hv] at hself
    exact heq (Option.some.inj hself)
  omega

/-- Through 2^53, whole numbers are written as they are. -/
theorem written_eq_of_le (hv : x.toNat? = some v) (hle : v ≤ 2 ^ 53) : x.written = v := by
  rcases hle.eq_or_lt with heq | hlt
  · have hread := ofDecimal?_of_toNat? hv
    have hwritten := written_two_pow
    rw [← heq, hread, Option.map_some, Option.some.injEq] at hwritten
    omega
  · exact written_eq hv hlt

/-! ## The smallest number that is written without an exponent -/

theorem shortest_millionth :
    (ofDecimal? 1 (-6)).map (·.shortest .up) = some ⟨1, -6⟩ := by
  decide +kernel

/-- A magnitude is written as one millionth at least, if it is one at least or is read from it. -/
theorem value_shortest_ge (h : 10 ^ (-6 : Int) ≤ x.value ∨ ofDecimal? 1 (-6) = some x) :
    10 ^ (-6 : Int) ≤ (x.shortest .up).value := by
  have hmillionth : Decimal.value ⟨1, -6⟩ = 10 ^ (-6 : Int) := by
    rw [Decimal.value, Nat.cast_one, one_mul]
  have hread : ofDecimal? 1 (-6) = some x → 10 ^ (-6 : Int) ≤ (x.shortest .up).value := by
    intro hx
    have hshortest := shortest_millionth
    rw [hx, Option.map_some, Option.some.injEq] at hshortest
    rw [hshortest, hmillionth]
  rcases h with hle | hx
  · by_contra hlt
    refine hlt (hread (ofDecimal?_of_between (d := ⟨1, -6⟩) .up ?_ (.inr ?_)))
    · rintro hzero
      rw [eq_zero hzero, value, units, zero, Nat.zero_mul, Nat.cast_zero, zero_div] at hle
      exact absurd hle (by norm_num)
    · rw [hmillionth]
      exact ⟨(not_le.1 hlt).le, hle⟩
  · exact hread hx

end Magnitude

end DirectiveQuery
