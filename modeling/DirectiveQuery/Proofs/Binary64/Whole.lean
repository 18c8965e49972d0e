import DirectiveQuery.Proofs.Binary64.Overflow
import DirectiveQuery.Proofs.Binary64.Text

/-
  Whole numbers, read and written. A natural number is read as a whole magnitude: through 2^53
  it is that number, and from there on no magnitude has a fraction
  (`exists_toNat?_of_ofDecimal?`), so that it is that number if 53 binary digits are enough for it
  (`toNat?_eq_self_iff`). The grid of the whole numbers has a point in the interval of a
  whole magnitude, which is the magnitude itself, so its shortest decimal is found on that grid
  or on a coarser one and has no fraction either. It is therefore a natural number (`written`),
  which reads as the magnitude but need not be equal to it; below 2^53, where the interval is no
  longer than one, it is.
-/
namespace DirectiveQuery

theorem Decimal.quarters_eq (d : Decimal) : d.quarters = d.value * quartersPerOne := rfl

namespace Magnitude

/-! ## Reading natural numbers -/

theorem toNat?_eq_some_iff {x : Magnitude} {v : Nat} :
    x.toNat? = some v ↔ x.units = v * unitsPerOne := by
  refine ⟨fun h => ?_, toNat?_of_units⟩
  unfold toNat? at h
  split at h
  · next hmod =>
    cases h
    exact (Nat.div_mul_cancel (Nat.dvd_of_mod_eq_zero hmod)).symm
  · cases h

theorem toNat?_zero_iff {x : Magnitude} {v : Nat} (hv : x.toNat? = some v) :
    v = 0 ↔ x.significand = 0 := by
  have hunits := toNat?_eq_some_iff.1 hv
  rw [units_eq] at hunits
  constructor
  · rintro rfl
    rw [Nat.zero_mul] at hunits
    exact (Nat.mul_eq_zero.1 hunits).resolve_right (Nat.two_pow_pos _).ne'
  · intro hx
    rw [hx, Nat.zero_mul] at hunits
    exact (Nat.mul_eq_zero.1 hunits.symm).resolve_right unitsPerOne_pos.ne'

/-- The nearest magnitude is a whole number of steps of the scale that the reader fixes, and has
that scale or the next one. -/
theorem nearest?_eq_some {n d : Nat} {x : Magnitude} (h : nearest? n d = some x) :
    ∃ s, Nat.log2 (n / d) - 52 = s ∧ x.units = roundHalfEven n (d * 2 ^ s) * 2 ^ s ∧
      s ≤ x.scale ∧ x.scale ≤ s + 1 := by
  have hparts : ∀ {m s : Nat}, ofParts? m s = some x → x.units = m * 2 ^ s ∧ x.scale = s := by
    intro m s h
    unfold ofParts? at h
    split at h
    · cases h
      exact ⟨units_eq _, rfl⟩
    · cases h
  unfold nearest? at h
  dsimp only at h
  generalize Nat.log2 (n / d) - 52 = s at *
  rw [Nat.pow_eq] at h
  split at h
  · next hcarry =>
    obtain ⟨hunits, hs⟩ := hparts h
    rw [Nat.pow_eq] at hcarry
    refine ⟨s, rfl, ?_, by omega⟩
    rw [hunits, hcarry, Nat.pow_eq]
    ring
  · obtain ⟨hunits, hs⟩ := hparts h
    exact ⟨s, rfl, hunits, by omega⟩

/-- Natural numbers are read as whole magnitudes. -/
theorem exists_toNat?_of_ofDecimal? {n : Nat} {x : Magnitude} (h : ofDecimal? n 0 = some x) :
    ∃ v, x.toNat? = some v := by
  by_cases hle : n ≤ 2 ^ 53
  · obtain ⟨y, hy, hv⟩ := ofDecimal?_exact hle
    rw [h] at hy
    cases hy
    exact ⟨n, hv⟩
  · rw [ofDecimal?_natural (by omega)] at h
    obtain ⟨s, hs, -, hscale, -⟩ := nearest?_eq_some h
    rw [Nat.div_one, unitsPerOne_eq] at hs
    have hlog : 53 + 1074 ≤ Nat.log2 (n * 2 ^ 1074) := by
      refine (Nat.le_log2 (Nat.mul_ne_zero (by omega) (Nat.two_pow_pos _).ne')).2 ?_
      rw [Nat.pow_add]
      exact Nat.mul_le_mul_right _ (by omega)
    have hsplit : x.scale = (x.scale - 1074) + 1074 := by omega
    refine ⟨x.significand * 2 ^ (x.scale - 1074), toNat?_eq_some_iff.2 ?_⟩
    rw [units_eq, unitsPerOne_eq, Nat.mul_assoc, ← Nat.pow_add, ← hsplit]

/-- Rounding passes no power of two. -/
theorem toNat?_le_two_pow {n v k : Nat} {x : Magnitude} (h : ofDecimal? n 0 = some x)
    (hv : x.toNat? = some v) (hn : n < 2 ^ k) : v ≤ 2 ^ k := by
  by_cases hzero : n = 0
  · rw [hzero] at h
    cases h
    rw [(toNat?_zero_iff hv).2 rfl]
    exact Nat.zero_le _
  rw [ofDecimal?_natural hzero] at h
  obtain ⟨s, hs, hunits, -⟩ := nearest?_eq_some h
  rw [toNat?_eq_some_iff.1 hv, Nat.one_mul] at hunits
  have hlt : n * unitsPerOne < 2 ^ k * unitsPerOne :=
    Nat.mul_lt_mul_of_pos_right hn unitsPerOne_pos
  have hlog : Nat.log2 (n * unitsPerOne / 1) < k + 1074 := by
    rw [Nat.div_one, Nat.log2_lt (Nat.mul_ne_zero hzero unitsPerOne_pos.ne'), Nat.pow_add,
      ← unitsPerOne_eq]
    exact hlt
  -- The power is itself a whole number of steps.
  have hsplit : 2 ^ k * unitsPerOne = 2 ^ (k + 1074 - s) * 2 ^ s := by
    rw [← Nat.pow_add, Nat.sub_add_cancel (by omega), Nat.pow_add, ← unitsPerOne_eq]
  refine Nat.le_of_mul_le_mul_right ?_ unitsPerOne_pos
  rw [hunits, hsplit]
  rw [hsplit] at hlt
  exact Nat.mul_le_mul_right _ (roundHalfEven_le_of_le (Nat.two_pow_pos s) (Nat.le_of_lt hlt))

/-- A natural number with 53 binary digits at most, behind which only zeros stand, is a normal
magnitude, unless it is zero. -/
theorem exists_units_mul {m e : Nat} (hm : 0 < m) (hlt : m < 2 ^ 53) (hword : m * 2 ^ e < 2 ^ 64) :
    ∃ x : Magnitude, 2 ^ 52 ≤ x.significand ∧ x.units = m * 2 ^ e * unitsPerOne := by
  obtain ⟨y, hy, hunits⟩ := exists_units hm (Nat.le_of_lt hlt)
  have hproduct : y.significand * 2 ^ (y.scale + e) = m * 2 ^ e * unitsPerOne := by
    rw [Nat.pow_add, ← Nat.mul_assoc, ← units_eq, hunits, Nat.mul_right_comm]
  have hscale : y.scale + e ≤ 2045 := by
    have hlow : 2 ^ (52 + (y.scale + e)) < 2 ^ (64 + 1074) := calc
      2 ^ (52 + (y.scale + e)) = 2 ^ 52 * 2 ^ (y.scale + e) := Nat.pow_add ..
      _ ≤ y.significand * 2 ^ (y.scale + e) := Nat.mul_le_mul_right _ hy
      _ = m * 2 ^ e * unitsPerOne := hproduct
      _ < 2 ^ 64 * unitsPerOne := Nat.mul_lt_mul_of_pos_right hword unitsPerOne_pos
      _ = 2 ^ (64 + 1074) := by rw [Nat.pow_add, ← unitsPerOne_eq]
    have hexponent := (Nat.pow_lt_pow_iff_right (by decide)).1 hlow
    omega
  refine ⟨⟨y.significand, y.scale + e, y.significand_lt, hscale, .inr hy⟩, hy, ?_⟩
  rw [units_eq]
  exact hproduct

/-- A natural number of 64 bits is read as itself exactly if it has 53 binary digits at most,
behind which only zeros stand. -/
theorem toNat?_eq_self_iff {n : Nat} {x : Magnitude} (hn : n < 2 ^ 64)
    (h : ofDecimal? n 0 = some x) :
    x.toNat? = some n ↔ ∃ m e, m < 2 ^ 53 ∧ n = m * 2 ^ e := by
  constructor
  · intro hv
    have hunits := toNat?_eq_some_iff.1 hv
    rw [units_eq, unitsPerOne_eq] at hunits
    rcases Nat.le_total 1074 x.scale with hle | hle
    · refine ⟨x.significand, x.scale - 1074, x.significand_lt, ?_⟩
      refine Nat.eq_of_mul_eq_mul_right (Nat.two_pow_pos 1074) ?_
      rw [← hunits, Nat.mul_assoc, ← Nat.pow_add, Nat.sub_add_cancel hle]
    · have hsignificand : x.significand = n * 2 ^ (1074 - x.scale) := by
        refine Nat.eq_of_mul_eq_mul_right (Nat.two_pow_pos x.scale) ?_
        rw [hunits, Nat.mul_assoc, ← Nat.pow_add, Nat.sub_add_cancel hle]
      refine ⟨n, 0, Nat.lt_of_le_of_lt ?_ x.significand_lt, by rw [Nat.pow_zero, Nat.mul_one]⟩
      rw [hsignificand]
      exact Nat.le_mul_of_pos_right _ (Nat.two_pow_pos _)
  · rintro ⟨m, e, hm, rfl⟩
    rcases Nat.eq_zero_or_pos m with rfl | hpos
    · rw [Nat.zero_mul] at h ⊢
      cases h
      exact toNat?_eq_some_iff.2 (by rw [units_eq, Nat.zero_mul, zero, Nat.zero_mul])
    · obtain ⟨y, hy, hunits⟩ := exists_units_mul hpos hm hn
      have hne : m * 2 ^ e ≠ 0 := (Nat.mul_pos hpos (Nat.two_pow_pos e)).ne'
      have hread := nearest?_units hy
      rw [hunits, ← ofDecimal?_natural hne, h] at hread
      cases hread
      exact toNat?_eq_some_iff.2 hunits
/-! ## The grid of the whole numbers -/

theorem admits_quarters (x : Magnitude) (hx : x.significand ≠ 0) {d : Nat} (hd : 0 < d) :
    x.admits (x.quarters * d) d = true := by
  have hlow := lower_add_two_le hx
  have hpos : 0 < 2 ^ x.scale := Nat.two_pow_pos x.scale
  have hup := x.upper_eq
  have hl : x.lower * d < x.quarters * d := Nat.mul_lt_mul_of_pos_right (by omega) hd
  have hu : x.quarters * d < x.upper * d := Nat.mul_lt_mul_of_pos_right (by omega) hd
  unfold admits
  simp [hl, hu]

/-- A magnitude that lies on a grid is found there. -/
theorem onGrid?_self {x : Magnitude} (hx : x.significand ≠ 0) (tie : Tie) {e : Int} {v : Nat}
    (h : x.quarters * (gridStep e).2 = v * (gridStep e).1) : x.onGrid? tie e = some v := by
  obtain ⟨hstep, hden⟩ := gridStep_pos e
  have hself := admits_quarters x hx hden
  unfold onGrid?
  generalize gridStep e = grid at *
  obtain ⟨step, den⟩ := grid
  dsimp only at *
  rw [h] at hself
  rw [h, Nat.mul_div_cancel v hstep, Nat.mul_mod_left, hself, Nat.mul_zero, if_pos hstep]
  cases x.admits ((v + 1) * step) den <;> rfl

theorem onGrid?_zero {x : Magnitude} (hx : x.significand ≠ 0) {v : Nat} (hv : x.toNat? = some v)
    (tie : Tie) : x.onGrid? tie 0 = some v := by
  apply onGrid?_self hx
  rw [show (0 : Int) = .ofNat 0 from rfl, gridStep_ofNat, Nat.pow_zero, Nat.one_mul, quarters,
    toNat?_eq_some_iff.1 hv, quartersPerOne]
  ring

/-- The search of a whole magnitude ends on that grid at the latest. -/
theorem exponent_searchGrids {x : Magnitude} (hx : x.significand ≠ 0) {v : Nat}
    (hv : x.toNat? = some v) (tie : Tie) (count : Nat) :
    0 ≤ (x.searchGrids tie (count + 325)).exponent := by
  induction count with
  | zero =>
    have hgrid : x.onGrid? tie (finestExponent + (324 : Nat)) = some v := onGrid?_zero hx hv tie
    rw [searchGrids, hgrid]
    exact Int.le_refl 0
  | succ count ih =>
    rw [show count + 1 + 325 = count + 325 + 1 by omega, searchGrids]
    split
    · simp only [finestExponent]
      omega
    · exact ih

theorem exponent_shortest {x : Magnitude} {v : Nat} (hv : x.toNat? = some v) (tie : Tie) :
    0 ≤ (x.shortest tie).exponent := by
  by_cases hx : x.significand = 0
  · obtain rfl := eq_zero hx
    rw [shortest_zero]
  · have hzero : x.isZero = false := by simpa [isZero] using hx
    have hwhole : x.units / unitsPerOne ≠ 0 := by
      rw [toNat?_eq_some_iff.1 hv, Nat.mul_div_cancel v unitsPerOne_pos]
      exact fun h => hx ((toNat?_zero_iff hv).1 h)
    obtain ⟨count, hcount⟩ : ∃ count,
        (x.coarsestExponent - finestExponent + 1).toNat = count + 325 := by
      refine ⟨(x.coarsestExponent - finestExponent + 1).toNat - 325, ?_⟩
      simp only [coarsestExponent, finestExponent]
      rw [if_neg hwhole]
      omega
    rw [shortest, hzero, if_neg Bool.false_ne_true, hcount]
    exact exponent_searchGrids hx hv tie count

/-! ## The shortest decimal as a natural number -/

/-- The number that the shortest decimal of a whole magnitude is, with the tie broken upwards as
it is in texts of counts. -/
def written (x : Magnitude) : Nat :=
  (x.shortest .up).digits * 10 ^ (x.shortest .up).exponent.toNat

variable {x : Magnitude} {v : Nat}

theorem value_shortest (hv : x.toNat? = some v) : (x.shortest .up).value = x.written :=
  Decimal.value_of_exponent (exponent_shortest hv .up)

theorem quarters_written (hv : x.toNat? = some v) :
    (x.shortest .up).quarters = (x.written * quartersPerOne : Nat) := by
  rw [Decimal.quarters_eq, value_shortest hv, Nat.cast_mul]

/-- It reads as the magnitude. -/
theorem ofDecimal?_written (hv : x.toNat? = some v) : ofDecimal? x.written 0 = some x := by
  refine ofDecimal?_shortest x .up (d := ⟨x.written, 0⟩) ?_
  rw [Decimal.quarters_eq, Decimal.quarters_eq, Decimal.value_natural, value_shortest hv]

theorem written_zero : zero.written = 0 := by
  rw [written, shortest_zero, Nat.zero_mul]

theorem written_bounds (hx : x.significand ≠ 0) (hv : x.toNat? = some v) :
    x.lower ≤ x.written * quartersPerOne ∧ x.written * quartersPerOne ≤ x.upper := by
  have h := reads_shortest hx .up
  rw [quarters_written hv] at h
  rcases h with ⟨hl, hu⟩ | ⟨-, h | h⟩
  · exact ⟨by exact_mod_cast hl.le, by exact_mod_cast hu.le⟩
  · have heq : x.written * quartersPerOne = x.lower := by exact_mod_cast h
    exact ⟨heq.ge, heq.le.trans x.lower_le_upper⟩
  · have heq : x.written * quartersPerOne = x.upper := by exact_mod_cast h
    exact ⟨x.lower_le_upper.trans heq.ge, heq.le⟩

/-- The steps of whole magnitudes below 2^53 are no longer than one. -/
theorem two_pow_scale_le (hv : x.toNat? = some v) (hlt : v < 2 ^ 53) :
    2 ^ x.scale ≤ unitsPerOne := by
  have hless : x.units < 2 ^ 53 * unitsPerOne := by
    rw [toNat?_eq_some_iff.1 hv]
    exact Nat.mul_lt_mul_of_pos_right hlt unitsPerOne_pos
  rw [unitsPerOne_eq] at hless ⊢
  refine Nat.pow_le_pow_right (by decide) (Nat.le_of_not_lt fun hgt => ?_)
  have hnormal : Nat.pow 2 52 ≤ x.significand := x.normal.resolve_left (by omega)
  rw [Nat.pow_eq] at hnormal
  have hdouble : 2 * 2 ^ 1074 ≤ 2 ^ x.scale := by
    rw [← Nat.pow_succ']
    exact Nat.pow_le_pow_right (by decide) hgt
  have hle : 2 ^ 52 * (2 * 2 ^ 1074) ≤ x.units := by
    rw [units_eq]
    exact Nat.mul_le_mul hnormal hdouble
  generalize 2 ^ 1074 = u at hle hless
  omega

/-- Below 2^53, whole numbers are written as they are. -/
theorem written_eq (hv : x.toNat? = some v) (hlt : v < 2 ^ 53) : x.written = v := by
  by_cases hx : x.significand = 0
  · rw [(toNat?_zero_iff hv).2 hx, eq_zero hx, written_zero]
  have hunits := toNat?_eq_some_iff.1 hv
  have hscale := two_pow_scale_le hv hlt
  obtain ⟨hlow, hhigh⟩ := written_bounds hx hv
  have hupper := x.upper_eq
  have hlower : x.quarters ≤ x.lower + 2 * 2 ^ x.scale := by
    simp only [lower, Nat.pow_eq]
    split <;> omega
  rw [quarters, hunits] at hupper hlower
  rw [quartersPerOne] at hlow hhigh
  have hpos := unitsPerOne_pos
  generalize unitsPerOne = u at *
  have hle : x.written ≤ v := by
    by_contra hgt
    have hmul : (v + 1) * (4 * u) ≤ x.written * (4 * u) := Nat.mul_le_mul_right _ (by omega)
    rw [Nat.add_mul, Nat.mul_left_comm] at hmul
    omega
  have hge : v ≤ x.written := by
    by_contra hgt
    have hmul : (x.written + 1) * (4 * u) ≤ v * (4 * u) := Nat.mul_le_mul_right _ (by omega)
    rw [Nat.add_mul, Nat.mul_left_comm v] at hmul
    omega
  exact Nat.le_antisymm hle hge

/-- What a whole magnitude is written as is at most twice the magnitude. -/
theorem written_le (hv : x.toNat? = some v) : x.written ≤ 2 * v := by
  by_cases hx : x.significand = 0
  · obtain rfl := eq_zero hx
    rw [written_zero]
    exact Nat.zero_le _
  have hstep : 2 ^ x.scale ≤ x.significand * 2 ^ x.scale :=
    Nat.le_mul_of_pos_left _ (Nat.pos_of_ne_zero hx)
  have hunits := toNat?_eq_some_iff.1 hv
  rw [units_eq] at hunits
  refine Nat.le_of_mul_le_mul_right ?_ quartersPerOne_pos
  calc x.written * quartersPerOne ≤ x.upper := (written_bounds hx hv).2
    _ = 4 * (x.significand * 2 ^ x.scale) + 2 * 2 ^ x.scale := by rw [upper_eq, quarters_eq]
    _ ≤ 8 * (x.significand * 2 ^ x.scale) := by omega
    _ = 2 * v * quartersPerOne := by
        rw [hunits, quartersPerOne]
        ring

/-- A number that is read from 64 bits is written without an exponent. -/
theorem written_lt {n : Nat} (hn : n < 2 ^ 64) (h : ofDecimal? n 0 = some x) :
    x.written < 10 ^ 21 := by
  obtain ⟨v, hv⟩ := exists_toNat?_of_ofDecimal? h
  have hle := written_le hv
  have hword := toNat?_le_two_pow h hv hn
  omega

end Magnitude

/-- The text from which a count is read is, for a whole number, digits of the number that it is
written as. -/
theorem Binary64.text_count {x : Magnitude} {v : Nat} (hv : x.toNat? = some v)
    (hlt : x.written < 10 ^ 21) :
    (Binary64.finite false x).text .count ≠ [] ∧
      (∀ c ∈ (Binary64.finite false x).text .count, c.isDigit) ∧
      Text.numberOfDigits 10 ((Binary64.finite false x).text .count) = x.written := by
  have htext : (Binary64.finite false x).text .count =
      Text.decimalDigits (x.shortest .up).digits ++
        List.replicate (x.shortest .up).exponent.toNat '0' :=
    Decimal.text_natural (Magnitude.exponent_shortest hv .up) hlt
  have hdigits : ∀ c ∈ Text.decimalDigits (x.shortest .up).digits, c.isDigit = true := fun c hc =>
    Text.isDigit_of_mem_decimalDigits hc
  rw [htext]
  refine ⟨?_, ?_, ?_⟩
  · simp [Text.decimalDigits_ne_nil]
  · exact List.forall_mem_append.2 ⟨hdigits, fun c hc => Text.isDigit_of_mem_zeros hc⟩
  · rw [Text.numberOfDigits_append_zeros hdigits, Text.numberOfDigits_decimalDigits, Nat.mul_comm]
    rfl

end DirectiveQuery
