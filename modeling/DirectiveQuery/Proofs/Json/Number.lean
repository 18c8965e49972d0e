import DirectiveQuery.Json.Reading
import DirectiveQuery.Proofs.Binary64.Rounding
import DirectiveQuery.Proofs.Grammar.Number
import DirectiveQuery.Proofs.Text.Digits

/-
  Numbers in JSON texts. An integer of the range that is kept exact reads back as itself. A
  finite number is written as a numeral with a fraction or an exponent, so it never reads as an
  integer; the numeral denotes the shortest decimal of the number (`spells_text`), which reads
  back as the number, whatever follows it.
-/
namespace DirectiveQuery

open Token (IsDigits NoDigit isDigits_nil takeWhile_digits takeWhile_eq_nil dropWhile_eq_self)

/-- The decimal that a numeral denotes. -/
def Numeral.decimal (m : Numeral) : Decimal :=
  ⟨Text.numberOfDigits 10 (m.whole ++ m.fraction), m.exponent - m.fraction.length⟩

theorem Numeral.decimal_mk (whole fraction : List Char) (e : Int) :
    (Numeral.mk whole fraction e).decimal =
      ⟨Text.numberOfDigits 10 (whole ++ fraction), e - fraction.length⟩ := rfl

theorem Numeral.toBinary64_of_quarters {m : Numeral} {x : Magnitude} {tie : Tie}
    (h : m.decimal.quarters = (x.shortest tie).quarters) (negative : Bool) :
    m.toBinary64 negative = .finite negative x := by
  have hread : Magnitude.ofDecimal? (Text.numberOfDigits 10 (m.whole ++ m.fraction))
      (m.exponent - m.fraction.length) = some x := Magnitude.ofDecimal?_shortest x tie h
  rw [Numeral.toBinary64, Binary64.ofDecimal, hread]

namespace Json

/-! ## Reading numerals -/

/-- The text does not go on with a part of a number. -/
def NoNumber (text : List Char) : Prop :=
  ∀ c ∈ text.head?, c.isDigit = false ∧ c ≠ '.' ∧ c ≠ 'e' ∧ c ≠ 'E'

theorem NoNumber.noDigit {text : List Char} (h : NoNumber text) : NoDigit text :=
  fun c hc => (h c hc).1

/-- A point and the digits of a fraction, or nothing. -/
def fractionText (fraction : List Char) : List Char :=
  if fraction.isEmpty then [] else '.' :: fraction

/-- A letter and an exponent with its sign, or nothing. -/
def exponentText : Option Int → List Char
  | none => []
  | some e => 'e' :: (if 0 ≤ e then ['+'] else []) ++ Text.decimalText e

theorem takeWhile_run {ds rest : List Char} (hd : IsDigits ds) (hr : NoDigit rest) :
    (ds ++ rest).takeWhile Char.isDigit = ds := by
  rw [takeWhile_digits hd, takeWhile_eq_nil hr, List.append_nil]

theorem dropWhile_run {ds rest : List Char} (hd : IsDigits ds) (hr : NoDigit rest) :
    (ds ++ rest).dropWhile Char.isDigit = rest := by
  rw [List.dropWhile_append_of_pos hd, dropWhile_eq_self hr]

theorem isDigits_decimalDigits (n : Nat) : IsDigits (Text.decimalDigits n) := fun _ hc =>
  Text.isDigit_of_mem_decimalDigits hc

theorem readFraction?_fractionText {fraction rest : List Char} (hf : IsDigits fraction)
    (hd : NoDigit rest) (hpoint : ∀ c ∈ rest.head?, c ≠ '.') :
    readFraction? (fractionText fraction ++ rest) = some (fraction, rest) := by
  unfold fractionText
  cases fraction with
  | nil =>
    cases rest with
    | nil => rfl
    | cons c rest =>
      unfold readFraction?
      split
      · next heq => exact absurd (List.cons.inj heq).1 (hpoint c rfl)
      · rfl
  | cons f fs =>
    have htake := takeWhile_run hf hd
    have hdrop := dropWhile_run hf hd
    simp only [List.isEmpty_cons, Bool.false_eq_true, if_false, List.cons_append] at htake hdrop ⊢
    simp only [readFraction?, htake, hdrop, List.isEmpty_cons, Bool.false_eq_true, if_false]

theorem readExponent?_exponentText (exponent : Option Int) {rest : List Char}
    (hr : NoNumber rest) : readExponent? (exponentText exponent ++ rest) = some (exponent, rest) := by
  cases exponent with
  | none =>
    cases rest with
    | nil => rfl
    | cons c rest =>
      obtain ⟨-, -, he, hE⟩ := hr c rfl
      simp [exponentText, readExponent?, he, hE]
  | some e =>
    have hrun (n : Nat) := takeWhile_run (isDigits_decimalDigits n) hr.noDigit
    have hdrop (n : Nat) := dropWhile_run (isDigits_decimalDigits n) hr.noDigit
    have hne (n : Nat) : (Text.decimalDigits n).isEmpty = false :=
      List.isEmpty_eq_false_iff.2 (Text.decimalDigits_ne_nil n)
    cases e with
    | ofNat n =>
      simp [exponentText, readExponent?, Text.decimalText, Text.splitSign, hrun, hdrop, hne,
        Text.numberOfDigits_decimalDigits]
    | negSucc n =>
      have hsign : ¬ 0 ≤ Int.negSucc n := by omega
      simp [exponentText, readExponent?, Text.decimalText, Text.splitSign, hrun, hdrop, hne,
        Text.numberOfDigits_decimalDigits, hsign]
      omega

/-- The digits before the point: no zero is first among several. -/
structure IsWhole (whole : List Char) : Prop where
  digits : IsDigits whole
  ne_nil : whole ≠ []
  head : whole.length = 1 ∨ whole.head? ≠ some '0'

theorem noDigit_fractionText {fraction : List Char} {exponent : Option Int} {rest : List Char}
    (hr : NoNumber rest) :
    NoDigit (fractionText fraction ++ (exponentText exponent ++ rest)) := by
  intro c hc
  cases fraction with
  | cons f fs =>
    obtain rfl := Option.some.inj hc
    decide
  | nil =>
    cases exponent with
    | none => exact (hr c hc).1
    | some e =>
      obtain rfl := Option.some.inj hc
      decide

theorem noPoint_exponentText (exponent : Option Int) {rest : List Char} (hr : NoNumber rest) :
    NoDigit (exponentText exponent ++ rest) ∧
      ∀ c ∈ (exponentText exponent ++ rest).head?, c ≠ '.' := by
  cases exponent with
  | none => exact ⟨hr.noDigit, fun c hc => (hr c hc).2.1⟩
  | some e =>
    constructor <;> intro c hc <;> obtain rfl := Option.some.inj hc <;> decide

/-- What the reader makes of a numeral of JSON, whatever follows it. -/
def numeralValue? (strict negative : Bool) (whole fraction : List Char) (exponent : Option Int) :
    Option Json :=
  match if fraction.isEmpty && exponent.isNone then integerOfDigits? negative whole else none with
  | some n => some (integer n)
  | none =>
    match (Numeral.mk whole fraction (exponent.getD 0)).toBinary64 negative with
    | .finite negative x => some (number negative x)
    | _ => if strict then none else some null

/-- A number without its sign, and what follows it. -/
def readUnsigned? (strict negative : Bool) (text : List Char) : Option (Json × List Char) :=
  let whole := text.takeWhile Char.isDigit
  if whole.isEmpty || (whole.length > 1 && whole.head? == some '0') then none
  else do
    let (fraction, afterFraction) ← readFraction? (text.dropWhile Char.isDigit)
    let (exponent, rest) ← readExponent? afterFraction
    (numeralValue? strict negative whole fraction exponent).map (·, rest)

theorem map_numeralValue? (strict negative : Bool) (whole fraction : List Char)
    (exponent : Option Int) (rest : List Char) :
    (numeralValue? strict negative whole fraction exponent).map (·, rest) =
      match if fraction.isEmpty && exponent.isNone then integerOfDigits? negative whole
        else none with
      | some n => some (integer n, rest)
      | none =>
        match (Numeral.mk whole fraction (exponent.getD 0)).toBinary64 negative with
        | .finite negative x => some (number negative x, rest)
        | _ => if strict then none else some (null, rest) := by
  unfold numeralValue?
  split
  · rfl
  · split
    · rfl
    · split <;> rfl

/-- A number is a sign and a number without a sign. -/
theorem readNumber?_minusSign (strict negative : Bool) {text : List Char}
    (h : ∀ c ∈ text.head?, c ≠ '-') :
    readNumber? strict (Text.minusSign negative ++ text) = readUnsigned? strict negative text := by
  unfold readNumber? readUnsigned?
  simp only [map_numeralValue?]
  cases negative with
  | true => rfl
  | false =>
    cases text with
    | nil => rfl
    | cons c text =>
      simp only [Text.minusSign, Bool.false_eq_true, if_false, List.nil_append, List.cons.injEq,
        h c rfl, false_and, imp_self, implies_true]
      rfl

theorem readNumber?_numeral (strict negative : Bool) (exponent : Option Int)
    {whole fraction rest : List Char} (hw : IsWhole whole) (hf : IsDigits fraction) (hr : NoNumber rest) :
    readNumber? strict (Text.minusSign negative ++
        (whole ++ (fractionText fraction ++ (exponentText exponent ++ rest)))) =
      (numeralValue? strict negative whole fraction exponent).map (·, rest) := by
  have htail : NoDigit (fractionText fraction ++ (exponentText exponent ++ rest)) :=
    noDigit_fractionText hr
  obtain ⟨hbehind, hpoint⟩ := noPoint_exponentText exponent hr
  have hguard : (whole.isEmpty || (whole.length > 1 && whole.head? == some '0')) = false := by
    rcases hw.head with hone | hhead
    · simp [hw.ne_nil, hone]
    · simp [hw.ne_nil, hhead]
  rw [readNumber?_minusSign strict negative]
  · unfold readUnsigned?
    simp only [takeWhile_run hw.digits htail, dropWhile_run hw.digits htail, hguard,
      Bool.false_eq_true, if_false, readFraction?_fractionText hf hbehind hpoint,
      Option.bind_eq_bind, Option.bind_some, readExponent?_exponentText exponent hr]
  · intro c hc
    exact (Token.noSign_of_isDigits hw.ne_nil hw.digits _ c hc).2

/-! ## Integers -/

/-- The integers that are kept exact when they are read. -/
def isExact (n : Int) : Bool := -(2 ^ 63 : Int) ≤ n && n < 2 ^ 64

theorem isWhole_decimalDigits (n : Nat) : IsWhole (Text.decimalDigits n) where
  digits := isDigits_decimalDigits n
  ne_nil := Text.decimalDigits_ne_nil n
  head := by
    rcases Nat.eq_zero_or_pos n with rfl | hn
    · exact .inl (by decide)
    · exact .inr (Text.head?_decimalDigits (by omega))

theorem integerOfDigits?_decimalDigits {negative : Bool} {n : Nat} {i : Int}
    (hi : (if negative then -(n : Int) else n) = i) (hzero : negative → n ≠ 0)
    (hn : isExact i) : integerOfDigits? negative (Text.decimalDigits n) = some i := by
  simp only [isExact, Bool.and_eq_true, decide_eq_true_eq] at hn
  simp only [integerOfDigits?, Text.numberOfDigits_decimalDigits, Nat.pow_eq]
  cases negative with
  | true =>
    have hne : n ≠ 0 := hzero rfl
    rw [if_pos rfl] at hi ⊢
    rw [if_neg (by simp only [Bool.or_eq_true, decide_eq_true_eq]; omega), hi]
  | false =>
    rw [if_neg Bool.false_ne_true] at hi ⊢
    rw [if_pos (by omega), hi]

/-- An integer of the exact range reads back from its text. -/
theorem readNumber?_decimalText (strict : Bool) {n : Int} (hn : isExact n) {rest : List Char}
    (hr : NoNumber rest) :
    readNumber? strict (Text.decimalText n ++ rest) = some (integer n, rest) := by
  obtain ⟨negative, k, htext, hvalue⟩ : ∃ negative k,
      Text.decimalText n = Text.minusSign negative ++ Text.decimalDigits k ∧
        integerOfDigits? negative (Text.decimalDigits k) = some n := by
    cases n with
    | ofNat k => exact ⟨false, k, rfl, integerOfDigits?_decimalDigits rfl nofun hn⟩
    | negSucc k =>
      exact ⟨true, k + 1, rfl, integerOfDigits?_decimalDigits rfl (fun _ => by omega) hn⟩
  have hread := readNumber?_numeral strict negative none (isWhole_decimalDigits k) isDigits_nil hr
  have hnumeral : numeralValue? strict negative (Text.decimalDigits k) [] none =
      some (integer n) := by
    simp only [numeralValue?, List.isEmpty_nil, Option.isNone_none, Bool.and_self, if_true, hvalue]
  rw [htext, List.append_assoc]
  rw [hnumeral] at hread
  exact hread

/-! ## Finite numbers -/

/-- A text of a decimal: a numeral with a fraction or an exponent that denotes it. -/
inductive Spells (d : Decimal) : List Char → Prop where
  | intro (exponent : Option Int) {whole fraction : List Char} (hw : IsWhole whole)
      (hf : IsDigits fraction) (hinexact : (fraction.isEmpty && exponent.isNone) = false)
      (hd : (Numeral.mk whole fraction (exponent.getD 0)).decimal.quarters = d.quarters) :
      Spells d (whole ++ (fractionText fraction ++ exponentText exponent))

/-- A zero behind the digits may be left out if the exponent is one greater. -/
theorem quarters_mul_ten (n k : Nat) (e : Int) :
    (Decimal.mk (10 ^ k * n) e).quarters = (Decimal.mk n (e + k)).quarters := by
  simp only [Decimal.quarters, Nat.cast_mul, Nat.cast_pow, Nat.cast_ofNat]
  rw [zpow_add₀ (by norm_num), zpow_natCast]
  ring

theorem isDigits_append {as bs : List Char} (ha : IsDigits as) (hb : IsDigits bs) :
    IsDigits (as ++ bs) := fun c hc => (List.mem_append.1 hc).elim (ha c) (hb c)

theorem isDigits_zeros (k : Nat) : IsDigits (List.replicate k '0') := fun _ hc =>
  Text.isDigit_of_mem_zeros hc

variable {ds : List Char} {n : Nat} {e : Int}

/-- A point before all digits, with zeros between. -/
theorem spells_below (hw : IsWhole ds) (hn : Text.numberOfDigits 10 ds = n)
    (h : ds.length + e ≤ 0) :
    Spells ⟨n, e⟩ ('0' :: '.' :: List.replicate (ds.length + e).natAbs '0' ++ ds) := by
  have hfraction : IsDigits (List.replicate (ds.length + e).natAbs '0' ++ ds) :=
    isDigits_append (isDigits_zeros _) hw.digits
  have hzero : IsWhole ['0'] := ⟨isDigits_zeros 1, by decide, .inl rfl⟩
  have hne : (List.replicate (ds.length + e).natAbs '0' ++ ds).isEmpty = false := by
    simp [hw.ne_nil]
  have hs : Spells ⟨n, e⟩ _ := .intro none hzero hfraction (by rw [hne]; rfl) (by
    have hvalue := Text.numberOfDigits_zeros_append hw.digits ((ds.length + e).natAbs + 1)
    rw [List.replicate_succ, List.cons_append] at hvalue
    rw [Numeral.decimal_mk, List.singleton_append, hvalue, hn, List.length_append,
      List.length_replicate, Option.getD_none]
    congr 2
    omega)
  simpa [fractionText, exponentText, hw.ne_nil] using hs

/-- A point behind all digits and zeros. -/
theorem spells_above (hw : IsWhole ds) (hn : Text.numberOfDigits 10 ds = n) (k : Nat)
    (hk : ds.head? ≠ some '0' ∨ k = 0) :
    Spells ⟨n, k⟩ (ds ++ List.replicate k '0' ++ ['.', '0']) := by
  have hwhole : IsWhole (ds ++ List.replicate k '0') := by
    refine ⟨isDigits_append hw.digits (isDigits_zeros k), by simp [hw.ne_nil], ?_⟩
    rcases hk with hhead | rfl
    · refine .inr ?_
      rwa [List.head?_append, Option.or_of_isSome (List.isSome_head?.2 hw.ne_nil)]
    · simpa using hw.head
  have hzero : IsDigits ['0'] := isDigits_zeros 1
  refine .intro none hwhole hzero rfl ?_
  have hvalue := Text.numberOfDigits_append_zeros hw.digits (k + 1)
  rw [List.replicate_succ', ← List.append_assoc, hn] at hvalue
  rw [Numeral.decimal_mk, hvalue, quarters_mul_ten, Option.getD_none, List.length_singleton]
  congr 2
  omega

/-- A point between the digits. -/
theorem spells_between (hw : IsWhole ds) (hn : Text.numberOfDigits 10 ds = n) {k : Nat}
    (hk : 0 < k) (hlt : k < ds.length) (he : (k : Int) = ds.length + e) :
    Spells ⟨n, e⟩ (ds.take k ++ '.' :: ds.drop k) := by
  have hwhole : IsWhole (ds.take k) := by
    refine ⟨fun c hc => hw.digits c (List.mem_of_mem_take hc), ?_, .inr ?_⟩
    · rw [Ne, List.take_eq_nil_iff]
      exact not_or.2 ⟨by omega, hw.ne_nil⟩
    · rw [List.head?_take, if_neg (by omega)]
      exact hw.head.resolve_left (by omega)
  have hfraction : IsDigits (ds.drop k) := fun c hc => hw.digits c (List.mem_of_mem_drop hc)
  have hne : (ds.drop k).isEmpty = false := by
    rw [List.isEmpty_eq_false_iff, Ne, List.drop_eq_nil_iff]
    omega
  have hs : Spells ⟨n, e⟩ _ := .intro none hwhole hfraction (by rw [hne]; rfl) (by
    rw [Numeral.decimal_mk, List.take_append_drop, hn, List.length_drop, Option.getD_none]
    congr 2
    omega)
  simpa [fractionText, exponentText, hne] using hs

theorem spells_positional (hw : IsWhole ds) (hn : Text.numberOfDigits 10 ds = n)
    (he : ds.head? ≠ some '0' ∨ e = 0) :
    Spells ⟨n, e⟩ (Decimal.positionalText ds (ds.length + e) true) := by
  unfold Decimal.positionalText
  split
  · next hpoint => exact spells_below hw hn hpoint
  · dsimp only
    split
    · obtain ⟨k, rfl⟩ : ∃ k : Nat, e = k := ⟨e.toNat, by omega⟩
      have hk : (ds.length + (k : Int)).toNat - ds.length = k := by
        rw [← Int.natCast_add, Int.toNat_natCast, Nat.add_sub_cancel_left]
      rw [hk]
      exact spells_above hw hn k (he.imp_right Int.natCast_eq_zero.1)
    · exact spells_between hw hn (by omega) (by omega) (by omega)

/-- One digit before the point, and an exponent. -/
theorem spells_exponent (hw : IsWhole ds) (hn : Text.numberOfDigits 10 ds = n) :
    Spells ⟨n, e⟩ (Decimal.exponentText ds (ds.length + e - 1)) := by
  obtain ⟨first, others, rfl⟩ := List.exists_cons_of_ne_nil hw.ne_nil
  have hfirst : IsWhole [first] :=
    ⟨fun c hc => hw.digits c (List.mem_of_mem_take (i := 1) hc), by simp, .inl rfl⟩
  have hothers : IsDigits others := fun c hc => hw.digits c (List.mem_cons_of_mem _ hc)
  have hs : Spells ⟨n, e⟩ _ :=
    .intro (some ((first :: others).length + e - 1)) hfirst hothers
      (by rw [Option.isNone_some, Bool.and_false]) (by
        rw [Numeral.decimal_mk, List.singleton_append, hn, Option.getD_some, List.length_cons]
        congr 2
        omega)
  cases others <;> simpa [fractionText, exponentText, Decimal.exponentText] using hs

/-- The text of a decimal spells it. -/
theorem spells_text (d : Decimal) (hd : d.digits ≠ 0 ∨ d.exponent = 0) :
    Spells d (d.text .json) := by
  have hw := isWhole_decimalDigits d.digits
  have hn := Text.numberOfDigits_decimalDigits d.digits
  unfold Decimal.text
  dsimp only [NumberFormat.json]
  split
  · exact spells_positional hw hn (hd.imp_left Text.head?_decimalDigits)
  · exact spells_exponent hw hn

theorem exists_spells_numberText (negative : Bool) (x : Magnitude) :
    ∃ text, numberText negative x = Text.minusSign negative ++ text ∧
      Spells (x.shortest .toEven) text :=
  ⟨_, rfl, spells_text (x.shortest .toEven) (x.digits_shortest .toEven)⟩

/-- A finite number reads back from its text. -/
theorem readNumber?_numberText (strict negative : Bool) (x : Magnitude) {rest : List Char}
    (hr : NoNumber rest) :
    readNumber? strict (numberText negative x ++ rest) = some (number negative x, rest) := by
  obtain ⟨_, htext, exponent, hw, hf, hinexact, hd⟩ := exists_spells_numberText negative x
  simp only [htext, List.append_assoc]
  rw [readNumber?_numeral strict negative exponent hw hf hr, numeralValue?, hinexact,
    Numeral.toBinary64_of_quarters hd]
  rfl

end Json

end DirectiveQuery
