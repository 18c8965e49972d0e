import DirectiveQuery.Proofs.Binary64.Fraction
import DirectiveQuery.Proofs.Compile.Count

/-
  Counts from numbers. A count is read from the text of a number, which has the fewest digits
  that are read back. The text of a whole number below 2^64 is digits of a number that is read as
  it (`readCount?_whole`); the text of a larger one is digits of a larger number, or has an
  exponent. The text of any other number has a point or an exponent, and the digits before the
  point are those of its floor (`readCount?_fraction`). So a strict reading takes the whole
  numbers below 2^64 and nothing else.
-/
namespace DirectiveQuery

/-- The rational number that a number of the format is, if it is finite. -/
def Binary64.value? : Binary64 → Option ℚ
  | finite negative x => some (if negative then -x.value else x.value)
  | _ => none

section

variable {x : Magnitude} {v : Nat}

/-- A whole number: what a reading takes from its text, however strict it is. -/
theorem readCount?_whole (hv : x.toNat? = some v) (hlt : v < 2 ^ 64) (mode : IntegerMode) :
    readCount? mode ((Binary64.finite false x).text .count) = some x.written := by
  have hwritten := (Magnitude.written_lt_iff hv).2 hlt
  obtain ⟨hne, hdigits, hnumber⟩ := Binary64.text_count hv (by omega)
  rw [readCount?_of_isDigit mode hne hdigits, hnumber, if_pos hwritten]

/-- Whole numbers from 2^64 on are refused by a strict reading. -/
theorem readCount?_beyond (hv : x.toNat? = some v) (hge : 2 ^ 64 ≤ v) :
    readCount? .strict ((Binary64.finite false x).text .count) = none := by
  by_cases hlarge : x.written < 10 ^ 21
  · obtain ⟨hne, hdigits, hnumber⟩ := Binary64.text_count hv hlarge
    have hwritten := mt (Magnitude.written_lt_iff hv).1 (Nat.not_lt.2 hge)
    rw [readCount?_of_isDigit .strict hne hdigits, hnumber, if_neg hwritten]
  · have hvalue : (10 : ℚ) ^ (21 : Int) ≤ (x.shortest .up).value := by
      rw [Magnitude.value_shortest hv]
      exact_mod_cast Nat.le_of_not_lt hlarge
    exact readCount?_strict_of_mem (Decimal.mem_text_of_large hvalue) (by decide) (by decide)
      (by decide) (by decide)

theorem lt_of_readCount?_strict {w : Nat} (hv : x.toNat? = some v)
    (h : readCount? .strict ((Binary64.finite false x).text .count) = some w) : v < 2 ^ 64 := by
  by_contra hge
  rw [readCount?_beyond hv (Nat.le_of_not_lt hge)] at h
  cases h

/-- A number with a fraction is refused by a strict reading; a lenient one takes its floor, if
the text has no exponent. -/
theorem readCount?_fraction (hx : x.toNat? = none) :
    readCount? .strict ((Binary64.finite false x).text .count) = none ∧
      ((10 : ℚ) ^ (-6 : Int) ≤ x.value ∨ Magnitude.ofDecimal? 1 (-6) = some x →
        readCount? .lenient ((Binary64.finite false x).text .count) = some ⌊x.value⌋₊) := by
  have hexponent := Magnitude.exponent_shortest_lt hx .up
  constructor
  · rcases Decimal.mem_text_of_fraction hexponent with hpoint | hpower
    · exact readCount?_strict_of_mem hpoint (by decide) (by decide) (by decide) (by decide)
    · exact readCount?_strict_of_mem hpower (by decide) (by decide) (by decide) (by decide)
  · intro h
    have hlow := Magnitude.value_shortest_ge h
    have hfloor := Magnitude.floor_shortest hx .up
    have hsmall : ⌊x.value⌋₊ < 2 ^ 53 :=
      (Nat.floor_lt x.value_nonneg).2 (by exact_mod_cast Magnitude.value_lt hx)
    have hhigh : (x.shortest .up).value < (10 : ℚ) ^ (21 : Int) := by
      rw [← hfloor, Nat.floor_lt (Decimal.value_nonneg _)] at hsmall
      exact hsmall.trans (by norm_num)
    obtain ⟨whole, fraction, htext, hne, hdigits, hnumber⟩ :=
      Decimal.positionalText_fraction hexponent
    obtain ⟨hwhole, hrest⟩ := List.forall_mem_append.1 hdigits
    have hcount : (Binary64.finite false x).text .count = whole ++ '.' :: fraction := by
      show (x.shortest .up).text .count = _
      rw [Decimal.text_count, if_pos (.inr ⟨hlow, hhigh⟩), htext]
    have hblank : ∀ c ∈ '.' :: fraction, Text.isBlank c = false :=
      List.forall_mem_cons.2
        ⟨by decide, fun c hc => Text.isBlank_eq_false_of_isDigit (hrest c hc)⟩
    have hpoint : ∀ c ∈ ('.' :: fraction).head?, c.isDigit = false ∧ c ≠ 'x' ∧ c ≠ 'X' := by
      rintro c ⟨⟩
      decide
    rw [hcount, readCount?_lenient_append hne hwhole hblank hpoint, hnumber, hfloor,
      if_pos (by omega)]

end

/-! ## Zero with a minus sign -/

theorem readCount?_minusZero (mode : IntegerMode) :
    readCount? mode ((Binary64.finite true .zero).text .count) = some 0 := by
  have htext : (Binary64.finite true .zero).text .count = ['-', '0'] := by decide
  rw [htext]
  cases mode <;> decide

namespace Binary64

/-- A number that is not negative is a magnitude, or zero with a minus sign. -/
theorem eq_of_value?_nonneg {n : Binary64} {q : ℚ} (hn : n.value? = some q) (hq : 0 ≤ q) :
    (∃ x, n = finite false x ∧ x.value = q) ∨ n = finite true .zero ∧ q = 0 := by
  cases n with
  | nan => cases hn
  | infinite => cases hn
  | finite negative x =>
    cases negative with
    | false => exact .inl ⟨x, rfl, Option.some.inj hn⟩
    | true =>
      have hvalue : -x.value = q := Option.some.inj hn
      have hzero : x.value = 0 := le_antisymm (by linarith) x.value_nonneg
      have hwhole : x.toNat? = some 0 := by
        rw [Magnitude.toNat?_eq_some_iff_value, hzero, Nat.cast_zero]
      rw [Magnitude.eq_zero ((Magnitude.toNat?_zero_iff hwhole).1 rfl), ← hvalue, hzero, neg_zero]
      exact .inr ⟨rfl, rfl⟩

/-- What a whole magnitude is written as is read as it, with the sign of a zero aside. -/
theorem equals_written {x : Magnitude} {v : Nat} (hv : x.toNat? = some v) :
    (ofDecimal false x.written 0).equals (finite false x) = true := by
  rw [ofDecimal, Magnitude.ofDecimal?_written hv]
  simp [equals]

end Binary64

namespace Arguments

variable {d : Directive} {mode : IntegerMode} {n : Binary64} {s : Span} {v : Nat}

theorem count_number_eq_ok : count d mode [.literal (.number n) s] = .ok v ↔
    readCount? mode (n.text .count) = some v := by
  simp [count_eq_ok, Expression.countText?]

theorem count_number_of_none (h : readCount? mode (n.text .count) = none) :
    count d mode [.literal (.number n) s] = .error (.invalidIntegerArgument d s.start) := by
  simp only [count, Expression.countText?, Option.bind_some, h]
  rfl

/-- Counts from numbers that are finite and not negative. A strict reading takes the whole numbers
below 2^64; a lenient one takes the same counts from them, which are read as the numbers, and
are the numbers through 2^53. A number with a fraction is refused by a strict reading, and a
lenient one takes its floor, unless it is below one millionth and not read from that. -/
theorem count_number {q : ℚ} (hn : n.value? = some q) (hq : 0 ≤ q) (d : Directive) (s : Span) :
    ((∃ v, count d .strict [.literal (.number n) s] = .ok v) ↔ ∃ k : Nat, q = k ∧ k < 2 ^ 64) ∧
    (∀ v, count d .strict [.literal (.number n) s] = .ok v →
      count d .lenient [.literal (.number n) s] = .ok v ∧
      (Binary64.ofDecimal false v 0).equals n = true ∧ (q ≤ 2 ^ 53 → (v : ℚ) = q)) ∧
    ((¬∃ k : Nat, q = k) →
      count d .strict [.literal (.number n) s] = .error (.invalidIntegerArgument d s.start) ∧
      (1 / 10 ^ 6 ≤ q ∨ n = .ofDecimal false 1 (-6) →
        count d .lenient [.literal (.number n) s] = .ok ⌊q⌋₊)) := by
  simp only [count_number_eq_ok]
  rcases Binary64.eq_of_value?_nonneg hn hq with ⟨x, rfl, rfl⟩ | ⟨rfl, rfl⟩
  · cases hx : x.toNat? with
    | none =>
      have hwhole : ¬∃ k : Nat, x.value = k := fun ⟨k, hk⟩ => by
        rw [Magnitude.toNat?_eq_some_iff_value.2 hk] at hx
        cases hx
      obtain ⟨hstrict, hlenient⟩ := readCount?_fraction hx
      simp only [hstrict, reduceCtorEq, exists_false, false_iff, false_implies, implies_true,
        true_and]
      refine ⟨fun ⟨k, hk, _⟩ => hwhole ⟨k, hk⟩, fun _ => ⟨count_number_of_none hstrict, ?_⟩⟩
      intro h
      refine hlenient (h.imp (fun hle => ?_) fun heq => ?_)
      · rw [zpow_neg, ← one_div]
        exact_mod_cast hle
      · unfold Binary64.ofDecimal at heq
        split at heq
        · next hy =>
          cases heq
          exact hy
        · cases heq
    | some v =>
      have hvalue := Magnitude.toNat?_eq_some_iff_value.1 hx
      refine ⟨⟨fun ⟨w, hw⟩ => ⟨v, hvalue, lt_of_readCount?_strict hx hw⟩,
        fun ⟨k, hk, hlt⟩ => ?_⟩, fun w hw => ?_, fun hnot => absurd ⟨v, hvalue⟩ hnot⟩
      · have heq : v = k := by exact_mod_cast hvalue.symm.trans hk
        exact ⟨_, readCount?_whole hx (heq ▸ hlt) .strict⟩
      · have hlt := lt_of_readCount?_strict hx hw
        rw [readCount?_whole hx hlt, Option.some.injEq] at hw ⊢
        subst hw
        refine ⟨rfl, Binary64.equals_written hx, fun hle => ?_⟩
        rw [hvalue] at hle ⊢
        exact_mod_cast Magnitude.written_eq_of_le hx (by exact_mod_cast hle)
  · simp only [readCount?_minusZero, Option.some.injEq]
    refine ⟨iff_of_true ⟨0, rfl⟩ ⟨0, rfl, by decide⟩, ?_, fun hnot => absurd ⟨0, rfl⟩ hnot⟩
    rintro v rfl
    exact ⟨rfl, by decide, fun _ => rfl⟩

/-- Two and a half has a floor, and 2^53 is the last whole number that is surely kept. -/
theorem count_number_samples :
    (Binary64.ofDecimal false 25 (-1)).value? = some (5 / 2) ∧ (0 : ℚ) ≤ 5 / 2 ∧
    (Binary64.ofDecimal false (2 ^ 53) 0).value? = some (2 ^ 53) ∧ (0 : ℚ) ≤ 2 ^ 53 ∧
    (¬∃ k : Nat, (5 / 2 : ℚ) = k) ∧ (1 / 10 ^ 6 : ℚ) ≤ 5 / 2 ∧ ∀ s,
      count .limit .strict [.literal (.number (.ofDecimal false 25 (-1))) s] =
        .error (.invalidIntegerArgument .limit s.start) ∧
      count .limit .lenient [.literal (.number (.ofDecimal false 25 (-1))) s] = .ok 2 ∧
      count .limit .lenient [.literal (.number (.ofDecimal false (2 ^ 53) 0)) s] =
        .ok (2 ^ 53) := by
  have hhalf : (Binary64.ofDecimal false 25 (-1)).value? = some (5 / 2) := by
    have hunits : (Magnitude.ofDecimal? 25 (-1)).map (fun x => x.units * 2) =
        some (5 * Magnitude.unitsPerOne) := by decide +kernel
    obtain ⟨x, hx, hx2⟩ := Option.map_eq_some_iff.1 hunits
    have hvalue := Magnitude.value_eq_div two_ne_zero hx2
    rw [Nat.cast_ofNat, Nat.cast_ofNat] at hvalue
    rw [Binary64.ofDecimal, hx]
    exact congrArg some hvalue
  have hwhole : (Binary64.ofDecimal false (2 ^ 53) 0).value? = some (2 ^ 53) := by
    obtain ⟨x, hx, hv⟩ := Magnitude.ofDecimal?_exact (Nat.le_refl (2 ^ 53))
    rw [Binary64.ofDecimal, hx]
    refine congrArg some ((Magnitude.toNat?_eq_some_iff_value.1 hv).trans ?_)
    norm_num
  have hfraction : ¬∃ k : Nat, (5 / 2 : ℚ) = k := by
    rintro ⟨k, hk⟩
    have htwice : 5 = 2 * k := by
      exact_mod_cast (div_eq_iff (two_ne_zero' ℚ)).1 hk |>.trans (mul_comm _ _)
    omega
  refine ⟨hhalf, by norm_num, hwhole, by norm_num, hfraction, by norm_num, fun s => ?_⟩
  obtain ⟨-, -, hnone⟩ := count_number hhalf (by norm_num) .limit s
  obtain ⟨hstrict, hlenient⟩ := hnone hfraction
  have hfloor : ⌊(5 / 2 : ℚ)⌋₊ = 2 := (Nat.floor_eq_iff (by norm_num)).2 (by norm_num)
  rw [hfloor] at hlenient
  obtain ⟨hsome, hkept, -⟩ := count_number hwhole (by norm_num) .limit s
  obtain ⟨v, hv⟩ := hsome.2 ⟨2 ^ 53, by norm_num, by decide⟩
  obtain ⟨hsame, -, hequal⟩ := hkept v hv
  have hexact : v = 2 ^ 53 := by exact_mod_cast hequal le_rfl
  exact ⟨hstrict, hlenient (.inl (by norm_num)), hsame.trans (congrArg Except.ok hexact)⟩

end Arguments

end DirectiveQuery
