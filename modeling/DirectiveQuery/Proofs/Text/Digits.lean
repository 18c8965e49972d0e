import Mathlib.Algebra.Group.Nat.Defs
import Mathlib.Data.List.Induction
import Mathlib.Data.Nat.Digits.Defs
import DirectiveQuery.Text.Digits

/-
  Digits. The decimal digits of a number are read back as that number, and there is at least one
  of them. In any base up to sixteen a digit has its place among the digits as its value, and the
  number of a run of digits is the sum of their values by powers of the base (`IsNumeral`).
-/
namespace DirectiveQuery.Text

theorem hexValue?_of_isDigit {c : Char} (h : c.isDigit) : hexValue? c = some (c.toNat - 48) := by
  unfold hexValue?
  rw [if_pos h]

theorem isDigit_of_mem_decimalDigits {n : Nat} {c : Char} (h : c ∈ decimalDigits n) :
    c.isDigit :=
  Nat.isDigit_of_mem_toDigits (by decide) (by decide) h

theorem decimalDigits_ne_nil (n : Nat) : decimalDigits n ≠ [] := Nat.toDigits_ne_nil

theorem takeWhile_of_isDigit {ds : List Char} (hd : ∀ c ∈ ds, c.isDigit) :
    ds.takeWhile Char.isDigit = ds := by
  have h := @List.takeWhile_append_of_pos _ Char.isDigit ds [] hd
  rwa [List.takeWhile_nil, List.append_nil] at h

theorem foldl_digits {ds : List Char} (hd : ∀ c ∈ ds, c.isDigit) (n : Nat) :
    ds.foldl (fun n c => 10 * n + (hexValue? c).getD 0) n = Nat.ofDigitChars 10 ds n := by
  induction ds generalizing n with
  | nil => rw [List.foldl_nil, Nat.ofDigitChars_nil]
  | cons d ds ih =>
    have h := hexValue?_of_isDigit (hd d List.mem_cons_self)
    rw [List.foldl_cons, ih fun c hc => hd c (List.mem_cons_of_mem _ hc), h,
      Nat.ofDigitChars_cons]
    rfl

theorem numberOfDigits_eq {ds : List Char} (hd : ∀ c ∈ ds, c.isDigit) :
    numberOfDigits 10 ds = Nat.ofDigitChars 10 ds 0 := foldl_digits hd 0

theorem numberOfDigits_decimalDigits (n : Nat) : numberOfDigits 10 (decimalDigits n) = n := by
  rw [numberOfDigits_eq fun c hc => isDigit_of_mem_decimalDigits hc]
  exact Nat.ofDigitChars_ten_toDigits

theorem isDigit_of_mem_zeros {k : Nat} {c : Char} (h : c ∈ List.replicate k '0') : c.isDigit := by
  obtain rfl := List.eq_of_mem_replicate h
  decide

/-- Zeros before the digits do not matter. -/
theorem numberOfDigits_zeros_append {ds : List Char} (hd : ∀ c ∈ ds, c.isDigit) (k : Nat) :
    numberOfDigits 10 (List.replicate k '0' ++ ds) = numberOfDigits 10 ds := by
  have hall : ∀ c ∈ List.replicate k '0' ++ ds, c.isDigit := fun c hc =>
    (List.mem_append.1 hc).elim isDigit_of_mem_zeros (hd c)
  rw [numberOfDigits_eq hall, numberOfDigits_eq hd, Nat.ofDigitChars_append,
    Nat.ofDigitChars_replicate_zero, Nat.mul_zero]

/-- Each zero behind the digits multiplies by ten. -/
theorem numberOfDigits_append_zeros {ds : List Char} (hd : ∀ c ∈ ds, c.isDigit) (k : Nat) :
    numberOfDigits 10 (ds ++ List.replicate k '0') = 10 ^ k * numberOfDigits 10 ds := by
  have hall : ∀ c ∈ ds ++ List.replicate k '0', c.isDigit := fun c hc =>
    (List.mem_append.1 hc).elim (hd c) isDigit_of_mem_zeros
  rw [numberOfDigits_eq hall, numberOfDigits_eq hd, Nat.ofDigitChars_append,
    Nat.ofDigitChars_replicate_zero]

/-- A text of digits in two parts. -/
theorem numberOfDigits_append {ds es : List Char} (hd : ∀ c ∈ ds, c.isDigit)
    (he : ∀ c ∈ es, c.isDigit) :
    numberOfDigits 10 (ds ++ es) = 10 ^ es.length * numberOfDigits 10 ds + numberOfDigits 10 es := by
  have hall : ∀ c ∈ ds ++ es, c.isDigit := List.forall_mem_append.2 ⟨hd, he⟩
  rw [numberOfDigits_eq hall, numberOfDigits_eq hd, numberOfDigits_eq he, Nat.ofDigitChars_append,
    ← Nat.ofDigitChars_eq_ofDigitChars_zero]

theorem numberOfDigits_lt {ds : List Char} (hd : ∀ c ∈ ds, c.isDigit) :
    numberOfDigits 10 ds < 10 ^ ds.length := by
  induction ds using List.reverseRecOn with
  | nil => decide
  | append_singleton ds c ih =>
    obtain ⟨hds, hc⟩ := List.forall_mem_append.1 hd
    have hlt := ih hds
    have hdigit : c.isDigit := hc c List.mem_cons_self
    have hle : c.toNat ≤ 57 := (Char.isDigit_iff_toNat.1 hdigit).2
    have hlast : numberOfDigits 10 [c] = c.toNat - 48 := by
      rw [numberOfDigits, List.foldl_cons, List.foldl_nil, hexValue?_of_isDigit hdigit,
        Nat.mul_zero, Nat.zero_add]
      rfl
    rw [numberOfDigits_append hds hc, hlast, List.length_append, List.length_singleton,
      Nat.pow_succ]
    omega

/-- The first digits are those of the quotient by a power of ten. -/
theorem numberOfDigits_take {ds : List Char} (hd : ∀ c ∈ ds, c.isDigit) (k : Nat) :
    numberOfDigits 10 (ds.take k) = numberOfDigits 10 ds / 10 ^ (ds.length - k) := by
  have htake : ∀ c ∈ ds.take k, c.isDigit := fun c hc => hd c (List.mem_of_mem_take hc)
  have hdrop : ∀ c ∈ ds.drop k, c.isDigit := fun c hc => hd c (List.mem_of_mem_drop hc)
  have hsplit := numberOfDigits_append htake hdrop
  rw [List.take_append_drop] at hsplit
  rw [hsplit, ← List.length_drop, Nat.mul_add_div (Nat.pow_pos (by decide)),
    Nat.div_eq_of_lt (numberOfDigits_lt hdrop), Nat.add_zero]

/-- The digits of a number say between which powers of ten it lies. -/
theorem decimalDigits_bounds {n : Nat} (hn : n ≠ 0) :
    10 ^ ((decimalDigits n).length - 1) ≤ n ∧ n < 10 ^ (decimalDigits n).length := by
  have hpos : 0 < (decimalDigits n).length := List.length_pos_iff.2 (decimalDigits_ne_nil n)
  refine ⟨?_, (Nat.length_toDigits_le_iff (by decide) hpos).1 (Nat.le_refl _)⟩
  by_cases hone : (decimalDigits n).length = 1
  · rw [hone]
    exact Nat.pos_of_ne_zero hn
  · by_contra hsmall
    have hle := (@Nat.length_toDigits_le_iff 10 n ((decimalDigits n).length - 1) (by decide)
      (by omega)).2 (by omega)
    rw [← decimalDigits] at hle
    omega

/-- Zero is the only number whose digits start with a zero. -/
theorem head?_decimalDigits {n : Nat} (hn : n ≠ 0) : (decimalDigits n).head? ≠ some '0' := by
  induction n using Nat.strongRecOn with
  | ind n ih =>
    unfold decimalDigits at ih ⊢
    by_cases hlt : n < 10
    · rw [Nat.toDigits_of_lt_base hlt]
      have hdigit : ∀ k < 10, k ≠ 0 → [k.digitChar].head? ≠ some '0' := by decide
      exact hdigit n hlt hn
    · rw [Nat.toDigits_of_base_le (by decide) (Nat.le_of_not_lt hlt), List.head?_append]
      have hsome : (Nat.toDigits 10 (n / 10)).head?.isSome :=
        List.isSome_head?.2 Nat.toDigits_ne_nil
      rw [Option.or_of_isSome hsome]
      exact ih (n / 10) (by omega) (by omega)

/-! ## Digits of any base -/

/-- The value of a digit: its place among the digits, with letters in either case. -/
def digitValue? (c : Char) : Option Nat :=
  ("0123456789abcdef".toList.idxOf? c).or ("0123456789ABCDEF".toList.idxOf? c)

/-- The character is a digit of the base. -/
def IsDigitOf (base : Nat) (c : Char) : Prop := ∃ v, digitValue? c = some v ∧ v < base

/-- The characters are digits of the base, the first one the most significant, and denote `n`. -/
def IsNumeral (base : Nat) (digits : List Char) (n : Nat) : Prop :=
  ∃ values : List Nat, digits.map digitValue? = values.map some ∧ (∀ v ∈ values, v < base) ∧
    Nat.ofDigits base values.reverse = n

theorem toNat_lt_of_hexValue? {c : Char} {n : Nat} (h : hexValue? c = some n) :
    c.toNat < 128 := by
  refine Nat.lt_of_not_le fun hc => ?_
  have hdigit : c.isDigit = false := by
    rw [← Bool.not_eq_true, Char.isDigit_iff_toNat, show '9'.toNat = 57 from rfl]
    omega
  have hnot : ∀ d : Char, d.toNat < 128 → ¬ c ≤ d := fun d hd hle =>
    absurd (UInt32.le_iff_toNat_le.1 (Char.le_def.1 hle)) (by show ¬ c.toNat ≤ d.toNat; omega)
  simp [hexValue?, hdigit, hnot 'f' (by decide), hnot 'F' (by decide)] at h

theorem digitValue?_eq_hexValue? (c : Char) : digitValue? c = hexValue? c := by
  by_cases hc : c.toNat < 128
  · have h : ∀ n : Fin 128, digitValue? (Char.ofNat n) = hexValue? (Char.ofNat n) := by
      decide +kernel
    simpa only [Char.ofNat_toNat] using h ⟨c.toNat, hc⟩
  · have hnot : ∀ cs : List Char, cs.all (·.toNat < 128) → cs.idxOf? c = none := fun cs h =>
      List.idxOf?_eq_none_iff.2 fun hm => hc (of_decide_eq_true (List.all_eq_true.1 h c hm))
    have hnone : hexValue? c = none := by
      cases h : hexValue? c with
      | none => rfl
      | some n => exact absurd (toNat_lt_of_hexValue? h) hc
    rw [digitValue?, hnot _ (by decide), hnot _ (by decide), hnone]
    rfl

theorem isDigitOf_sixteen {c : Char} : IsDigitOf 16 c ↔ (hexValue? c).isSome := by
  rw [IsDigitOf, digitValue?_eq_hexValue?, Option.isSome_iff_exists]
  exact exists_congr fun v => and_iff_left_of_imp hexValue?_lt

theorem isDigitOf_ten {c : Char} : IsDigitOf 10 c ↔ c.isDigit := by
  rw [IsDigitOf, digitValue?_eq_hexValue?]
  constructor
  · rintro ⟨v, hv, hlt⟩
    by_contra hc
    simp only [hexValue?, if_neg hc, Bool.and_eq_true, decide_eq_true_eq] at hv
    split at hv
    · next h =>
      have hle : 97 ≤ c.toNat := UInt32.le_iff_toNat_le.1 (Char.le_def.1 h.1)
      cases hv
      omega
    · split at hv
      · next h =>
        have hle : 65 ≤ c.toNat := UInt32.le_iff_toNat_le.1 (Char.le_def.1 h.1)
        cases hv
        omega
      · cases hv
  · intro hc
    refine ⟨_, hexValue?_of_isDigit hc, ?_⟩
    have hle : c.toNat ≤ 57 := (Char.isDigit_iff_toNat.1 hc).2
    omega

theorem numberOfDigits_eq_ofDigits (base : Nat) (digits : List Char) :
    numberOfDigits base digits =
      Nat.ofDigits base (digits.map fun c => (hexValue? c).getD 0).reverse := by
  rw [Nat.ofDigits_eq_foldr, List.foldr_reverse, List.foldl_map, numberOfDigits]
  simp only [Nat.add_comm, Nat.cast_id]

theorem isNumeral_iff {base n : Nat} {digits : List Char} : IsNumeral base digits n ↔
    (∀ c ∈ digits, IsDigitOf base c) ∧ numberOfDigits base digits = n := by
  rw [numberOfDigits_eq_ofDigits]
  constructor
  · rintro ⟨values, hvalues, hlt, rfl⟩
    refine ⟨fun c hc => ?_, ?_⟩
    · have hm : digitValue? c ∈ values.map some := hvalues ▸ List.mem_map_of_mem hc
      obtain ⟨v, hv, he⟩ := List.mem_map.1 hm
      exact ⟨v, he.symm, hlt v hv⟩
    · have hmap := congrArg (List.map (Option.getD · 0)) hvalues
      simp only [List.map_map, Function.comp_def, digitValue?_eq_hexValue?, Option.getD_some,
        List.map_id'] at hmap
      rw [hmap]
  · rintro ⟨hdigits, rfl⟩
    refine ⟨_, ?_, ?_, rfl⟩
    · rw [List.map_map]
      refine List.map_congr_left fun c hc => ?_
      obtain ⟨v, hv, -⟩ := hdigits c hc
      rw [hv, Function.comp_apply, ← digitValue?_eq_hexValue?, hv, Option.getD_some]
    · simp only [List.forall_mem_map]
      intro c hc
      obtain ⟨v, hv, hlt⟩ := hdigits c hc
      rwa [← digitValue?_eq_hexValue?, hv, Option.getD_some]

/-- The digits are all that the text starts with, and are followed by the rest. -/
def IsRun (base : Nat) (text digits rest : List Char) : Prop :=
  text = digits ++ rest ∧ (∀ c ∈ digits, IsDigitOf base c) ∧
    ∀ c ∈ rest.head?, ¬ IsDigitOf base c

theorem isRun_iff {base : Nat} {p : Char → Bool} (hp : ∀ c, p c ↔ IsDigitOf base c)
    {text digits rest : List Char} : IsRun base text digits rest ↔
      text.takeWhile p = digits ∧ text.dropWhile p = rest := by
  simp only [IsRun, ← hp]
  constructor
  · rintro ⟨rfl, hdigits, hrest⟩
    have hstop : rest.takeWhile p = [] ∧ rest.dropWhile p = rest := by
      cases rest with
      | nil => exact ⟨rfl, rfl⟩
      | cons c cs =>
        have hc : ¬ p c := hrest c rfl
        exact ⟨List.takeWhile_cons_of_neg hc, List.dropWhile_cons_of_neg hc⟩
    rw [List.takeWhile_append_of_pos hdigits, List.dropWhile_append_of_pos hdigits, hstop.1,
      hstop.2, List.append_nil]
    exact ⟨rfl, rfl⟩
  · rintro ⟨rfl, rfl⟩
    refine ⟨List.takeWhile_append_dropWhile.symm, fun c hc =>
      List.all_eq_true.1 List.all_takeWhile c hc, ?_⟩
    intro c hc
    have hhead := List.head?_dropWhile_not p text
    rw [Option.mem_def.1 hc] at hhead
    rw [hhead]
    exact Bool.false_ne_true

end DirectiveQuery.Text
