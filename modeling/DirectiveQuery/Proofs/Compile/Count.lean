import Mathlib.Algebra.Group.Nat.Defs
import DirectiveQuery.Compile.Count
import DirectiveQuery.Proofs.Text.Blank
import DirectiveQuery.Proofs.Text.Digits

/-
  Counts from their digits. A reading is described once by the digits that it takes
  (`readCount?_eq_some_iff`). The digits of a number below 2^64 are read as that number, however
  strict the reading is, and what a strict reading accepts a lenient one reads alike. Which count
  a text writes is also said without any way to read it (`WritesCount`): as what stands between
  its blanks, a sign, and a run of digits whose number is not bounded by anything.
  `readCount?_writes`: that count is read, and nothing else is.
-/
namespace DirectiveQuery

namespace Text

theorem isBlank_eq_false_of_isDigit {c : Char} (h : c.isDigit) : isBlank c = false := by
  obtain ⟨hlow, hhigh⟩ := Char.isDigit_iff_toNat.1 h
  rw [show '0'.toNat = 48 from rfl] at hlow
  rw [show '9'.toNat = 57 from rfl] at hhigh
  unfold isBlank
  simp only [Bool.or_eq_false_iff, Bool.and_eq_false_iff, decide_eq_false_iff_not,
    beq_eq_false_iff_ne]
  refine ⟨⟨⟨⟨⟨⟨⟨⟨⟨⟨?_, ?_⟩, ?_⟩, ?_⟩, ?_⟩, ?_⟩, ?_⟩, ?_⟩, ?_⟩, ?_⟩, ?_⟩ <;> omega

theorem dropWhile_isBlank {text : List Char} (h : ∀ c ∈ text, isBlank c = false) :
    text.dropWhile isBlank = text := by
  cases text with
  | nil => rfl
  | cons c cs => exact List.dropWhile_cons_of_neg (by rw [h c List.mem_cons_self]; decide)

theorem trim_eq_self {text : List Char} (h : ∀ c ∈ text, isBlank c = false) :
    trim text = text := by
  have hreverse : ∀ c ∈ text.reverse, isBlank c = false := fun c hc =>
    h c (List.mem_reverse.1 hc)
  unfold trim trimEnd trimStart
  rw [dropWhile_isBlank h, dropWhile_isBlank hreverse, List.reverse_reverse]

theorem splitSign_of_head? {text : List Char} (h : ∀ c ∈ text.head?, c.isDigit) :
    splitSign text = (false, text) := by
  unfold splitSign
  split
  · exact absurd (h '-' rfl) (by decide)
  · exact absurd (h '+' rfl) (by decide)
  · rfl

theorem splitSign_of_isDigit {text : List Char} (h : ∀ c ∈ text, c.isDigit) :
    splitSign text = (false, text) :=
  splitSign_of_head? fun c hc => h c (List.mem_of_head? hc)

end Text

theorem afterHexMark?_of_second {d : Char} {text : List Char}
    (h : ∀ c ∈ text.head?, c ≠ 'x' ∧ c ≠ 'X') : afterHexMark? (d :: text) = none := by
  unfold afterHexMark?
  split
  · next heq =>
    cases heq
    exact absurd rfl (h 'x' rfl).1
  · next heq =>
    cases heq
    exact absurd rfl (h 'X' rfl).2
  · rfl

theorem afterHexMark?_of_isDigit {text : List Char} (h : ∀ c ∈ text, c.isDigit) :
    afterHexMark? text = none := by
  cases text with
  | nil => rfl
  | cons d ds =>
    refine afterHexMark?_of_second fun c hc => ?_
    have hdigit : c.isDigit := h c (List.mem_cons_of_mem _ (List.mem_of_head? hc))
    constructor <;> rintro rfl <;> exact absurd hdigit (by decide)

/-- What a count is: the number that its digits denote, if there are any, they fill the text of a
strict reading, the number is below 2^64, and it is zero behind a minus sign. -/
theorem readCount?_eq_some_iff {mode : IntegerMode} {text : List Char} {n : Nat} :
    readCount? mode text = some n ↔
      let (negative, unsigned) := Text.splitSign (Text.trim text)
      let (digits, base) := countDigits mode unsigned
      digits ≠ [] ∧ (mode = .strict → digits.length = unsigned.length) ∧
        Text.numberOfDigits base digits = n ∧ n < 2 ^ 64 ∧ (negative = true → n = 0) := by
  unfold readCount?
  generalize Text.splitSign (Text.trim text) = signed
  obtain ⟨negative, unsigned⟩ := signed
  dsimp only
  generalize countDigits mode unsigned = run
  obtain ⟨digits, base⟩ := run
  dsimp only
  generalize Text.numberOfDigits base digits = count
  simp only [Nat.pow_eq, Bool.or_eq_true, Bool.and_eq_true, List.isEmpty_iff, decide_eq_true_eq]
  split
  · next h =>
    refine iff_of_false nofun ?_
    rintro ⟨hne, hall, -⟩
    exact h.elim hne fun ⟨hstrict, hlength⟩ => hlength (hall hstrict)
  · next h =>
    obtain ⟨hne, hall⟩ := not_or.1 h
    split
    · next hbound =>
      refine iff_of_false nofun ?_
      rintro ⟨-, -, rfl, hlt, hzero⟩
      exact hbound.elim (Nat.not_le_of_lt hlt) fun ⟨hnegative, hpos⟩ => hpos (hzero hnegative)
    · next hbound =>
      obtain ⟨hlt, hzero⟩ := not_or.1 hbound
      rw [Option.some.injEq]
      constructor
      · rintro rfl
        exact ⟨hne, fun hstrict => Decidable.not_not.1 fun hl => hall ⟨hstrict, hl⟩, rfl,
          Nat.lt_of_not_le hlt, fun hnegative => Decidable.not_not.1 fun hz =>
            hzero ⟨hnegative, hz⟩⟩
      · rintro ⟨-, -, h, -⟩
        exact h

theorem readCount?_lt {mode : IntegerMode} {text : List Char} {n : Nat}
    (h : readCount? mode text = some n) : n < 2 ^ 64 := by
  rw [readCount?_eq_some_iff] at h
  exact h.2.2.2.1

/-- One argument gives a count, if it has a text and the text is read. -/
theorem Arguments.count_eq_ok {directive : Directive} {mode : IntegerMode}
    {arguments : Arguments} {n : Nat} : arguments.count directive mode = .ok n ↔
      ∃ argument text, arguments = [argument] ∧ argument.countText? = some text ∧
        readCount? mode text = some n := by
  match arguments with
  | [] => simp [count]
  | [argument] =>
    simp only [count, List.cons.injEq, and_true, exists_and_left, exists_eq_left',
      ← Option.bind_eq_some_iff]
    split
    · next m hm => rw [hm, Except.ok.injEq, Option.some.injEq]
    · next hm => simp [hm]
  | _ :: _ :: _ => simp [count]

/-- Digits are read as the number that they denote, if it is below 2^64, however strict the
reading is. -/
theorem readCount?_of_isDigit (mode : IntegerMode) {ds : List Char} (hne : ds ≠ [])
    (hds : ∀ c ∈ ds, c.isDigit) : readCount? mode ds =
      if Text.numberOfDigits 10 ds < 2 ^ 64 then some (Text.numberOfDigits 10 ds) else none := by
  have htrim : Text.trim ds = ds :=
    Text.trim_eq_self fun c hc => Text.isBlank_eq_false_of_isDigit (hds c hc)
  have hcount : countDigits mode ds = (ds, 10) := by
    unfold countDigits
    rw [afterHexMark?_of_isDigit hds, Text.takeWhile_of_isDigit hds]
    cases mode <;> rfl
  have hempty : ds.isEmpty = false := by simpa using hne
  unfold readCount?
  rw [htrim, Text.splitSign_of_isDigit hds]
  dsimp only
  rw [hcount]
  dsimp only
  rw [hempty, Bool.false_or, if_neg (by simp)]
  by_cases h : Text.numberOfDigits 10 ds < 2 ^ 64
  · rw [if_pos h, if_neg (by simp; omega)]
  · rw [if_neg h, if_pos (by simp; omega)]

/-- Every number below 2^64 is read from its digits. -/
theorem readCount?_decimalDigits (mode : IntegerMode) {n : Nat} (hn : n < 2 ^ 64) :
    readCount? mode (Text.decimalDigits n) = some n := by
  rw [readCount?_of_isDigit mode (Text.decimalDigits_ne_nil n) fun c hc =>
    Text.isDigit_of_mem_decimalDigits hc, Text.numberOfDigits_decimalDigits, if_pos hn]

/-- A strict reading takes digits only, but for blanks around them and a sign. -/
theorem readCount?_strict_of_mem {text : List Char} {c : Char} (hc : c ∈ text)
    (hdigit : c.isDigit = false) (hblank : Text.isBlank c = false) (hminus : c ≠ '-')
    (hplus : c ≠ '+') : readCount? .strict text = none := by
  cases hread : readCount? .strict text with
  | none => rfl
  | some n =>
    rw [readCount?_eq_some_iff] at hread
    obtain ⟨-, hlength, -⟩ := hread
    have htrim : c ∈ Text.trim text := by
      obtain ⟨before, after, htext, hbefore, hafter, -⟩ := Text.isAmongBlanks_trim text
      rw [htext, List.mem_append, List.mem_append] at hc
      rcases hc with hc | hc | hc
      · rw [hbefore c hc] at hblank
        cases hblank
      · exact hc
      · rw [hafter c hc] at hblank
        cases hblank
    have hunsigned : c ∈ (Text.splitSign (Text.trim text)).2 := by
      unfold Text.splitSign
      split
      · next h => exact (List.mem_cons.1 (h ▸ htrim)).resolve_left hminus
      · next h => exact (List.mem_cons.1 (h ▸ htrim)).resolve_left hplus
      · exact htrim
    have htake : (Text.splitSign (Text.trim text)).2.takeWhile Char.isDigit =
        (Text.splitSign (Text.trim text)).2 :=
      (List.takeWhile_prefix _).eq_of_length (hlength rfl)
    rw [← htake] at hunsigned
    rw [List.mem_takeWhile_imp hunsigned] at hdigit
    cases hdigit

/-- A lenient reading takes the digits before anything that is no mark of hexadecimal digits. -/
theorem readCount?_lenient_append {ds rest : List Char} (hne : ds ≠ [])
    (hds : ∀ c ∈ ds, c.isDigit) (hrest : ∀ c ∈ rest, Text.isBlank c = false)
    (hhead : ∀ c ∈ rest.head?, c.isDigit = false ∧ c ≠ 'x' ∧ c ≠ 'X') :
    readCount? .lenient (ds ++ rest) =
      if Text.numberOfDigits 10 ds < 2 ^ 64 then some (Text.numberOfDigits 10 ds) else none := by
  obtain ⟨d, ds, rfl⟩ := List.exists_cons_of_ne_nil hne
  have htrim : Text.trim (d :: ds ++ rest) = d :: ds ++ rest :=
    Text.trim_eq_self (List.forall_mem_append.2
      ⟨fun c hc => Text.isBlank_eq_false_of_isDigit (hds c hc), hrest⟩)
  have hsign : Text.splitSign (d :: ds ++ rest) = (false, d :: ds ++ rest) := by
    apply Text.splitSign_of_head?
    rintro c ⟨⟩
    exact hds d List.mem_cons_self
  have hmark : afterHexMark? (d :: ds ++ rest) = none := by
    -- the second character is a digit, or the one that follows the digits
    apply afterHexMark?_of_second
    intro c hc
    cases ds with
    | nil => exact (hhead c hc).2
    | cons e es =>
      cases hc
      have he : c.isDigit := hds c (List.mem_cons_of_mem _ List.mem_cons_self)
      constructor <;> rintro rfl <;> exact absurd he (by decide)
  have htake : (d :: ds ++ rest).takeWhile Char.isDigit = d :: ds := by
    rw [List.takeWhile_append_of_pos hds]
    cases rest with
    | nil => exact List.append_nil _
    | cons c cs =>
      rw [List.takeWhile_cons_of_neg (by rw [(hhead c rfl).1]; decide), List.append_nil]
  have hcount : countDigits .lenient (d :: ds ++ rest) = (d :: ds, 10) := by
    unfold countDigits
    rw [hmark, htake]
  apply Option.ext
  intro n
  rw [readCount?_eq_some_iff, htrim, hsign]
  dsimp only
  rw [hcount]
  dsimp only
  split
  · next hlt =>
    rw [Option.some.injEq]
    constructor
    · rintro ⟨-, -, h, -⟩
      exact h
    · rintro rfl
      exact ⟨hne, nofun, rfl, hlt, nofun⟩
  · next hge =>
    refine iff_of_false ?_ nofun
    rintro ⟨-, -, rfl, hlt, -⟩
    exact hge hlt

/-! ## Counts as they are written -/

/-- At most one sign before the rest of the text; `negative` says whether it is a minus. -/
inductive IsSigned : (text : List Char) → (negative : Bool) → (unsigned : List Char) → Prop
  | minus (unsigned : List Char) : IsSigned ('-' :: unsigned) true unsigned
  | plus (unsigned : List Char) : IsSigned ('+' :: unsigned) false unsigned
  | bare {unsigned : List Char} : unsigned.head? ≠ some '-' → unsigned.head? ≠ some '+' →
      IsSigned unsigned false unsigned

theorem splitSign_eq_iff {text unsigned : List Char} {negative : Bool} :
    Text.splitSign text = (negative, unsigned) ↔ IsSigned text negative unsigned := by
  constructor
  · intro h
    unfold Text.splitSign at h
    split at h
    · cases h
      exact .minus _
    · cases h
      exact .plus _
    · next hminus hplus =>
      cases h
      refine .bare (fun h => ?_) fun h => ?_
      · obtain ⟨rest, rfl⟩ := List.head?_eq_some_iff.1 h
        exact hminus rest rfl
      · obtain ⟨rest, rfl⟩ := List.head?_eq_some_iff.1 h
        exact hplus rest rfl
  · rintro (_ | _ | ⟨hminus, hplus⟩)
    · rfl
    · rfl
    · unfold Text.splitSign
      split
      · exact absurd rfl hminus
      · exact absurd rfl hplus
      · rfl

/-- The text is a mark of hexadecimal digits and what follows it. -/
def IsMarked (text after : List Char) : Prop := ∃ x ∈ ['x', 'X'], text = '0' :: x :: after

theorem afterHexMark?_eq_some_iff {text after : List Char} :
    afterHexMark? text = some after ↔ IsMarked text after := by
  constructor
  · intro h
    unfold afterHexMark? at h
    split at h
    · cases h
      exact ⟨'x', by decide, rfl⟩
    · cases h
      exact ⟨'X', by decide, rfl⟩
    · cases h
  · rintro ⟨x, hx, rfl⟩
    obtain rfl | rfl : x = 'x' ∨ x = 'X' := by simpa using hx
    · rfl
    · rfl

/-- The digits of a count and their base, in a text without a sign. Only a lenient reading sees
the mark of hexadecimal digits. -/
inductive IsCountRun : (mode : IntegerMode) → (text : List Char) → (base : Nat) →
    (digits rest : List Char) → Prop
  | hexadecimal {text after digits rest : List Char} : IsMarked text after →
      Text.IsRun 16 after digits rest → IsCountRun .lenient text 16 digits rest
  | decimal {mode : IntegerMode} {text digits rest : List Char} :
      (mode = .lenient → ∀ after, ¬ IsMarked text after) →
      Text.IsRun 10 text digits rest → IsCountRun mode text 10 digits rest

theorem countDigits_eq_iff {mode : IntegerMode} {text digits : List Char} {base : Nat} :
    countDigits mode text = (digits, base) ↔ ∃ rest, IsCountRun mode text base digits rest := by
  have hdecimal : ∀ {rest}, Text.IsRun 10 text digits rest ↔
      text.takeWhile Char.isDigit = digits ∧ text.dropWhile Char.isDigit = rest :=
    Text.isRun_iff fun _ => Text.isDigitOf_ten.symm
  have hhex : ∀ {after rest}, Text.IsRun 16 after digits rest ↔
      (after.takeWhile fun c => (Text.hexValue? c).isSome) = digits ∧
        (after.dropWhile fun c => (Text.hexValue? c).isSome) = rest :=
    Text.isRun_iff fun _ => Text.isDigitOf_sixteen.symm
  constructor
  · intro h
    unfold countDigits at h
    split at h
    · next after hafter =>
      cases h
      exact ⟨_, .hexadecimal (afterHexMark?_eq_some_iff.1 hafter) (hhex.2 ⟨rfl, rfl⟩)⟩
    · next hnot =>
      cases h
      refine ⟨_, .decimal ?_ (hdecimal.2 ⟨rfl, rfl⟩)⟩
      rintro rfl after hafter
      exact hnot after rfl (afterHexMark?_eq_some_iff.2 hafter)
  · rintro ⟨rest, ⟨hmark, hrun⟩ | ⟨hmark, hrun⟩⟩
    · unfold countDigits
      rw [afterHexMark?_eq_some_iff.2 hmark]
      exact Prod.ext (hhex.1 hrun).1 rfl
    · unfold countDigits
      split
      · next after hafter => exact absurd (afterHexMark?_eq_some_iff.1 hafter) (hmark rfl after)
      · exact Prod.ext (hdecimal.1 hrun).1 rfl

theorem IsCountRun.isDigitOf {mode : IntegerMode} {text digits rest : List Char} {base : Nat}
    (h : IsCountRun mode text base digits rest) : ∀ c ∈ digits, Text.IsDigitOf base c := by
  cases h with
  | hexadecimal _ hrun | decimal _ hrun => exact hrun.2.1

theorem IsCountRun.eq_append {text digits rest : List Char} {base : Nat}
    (h : IsCountRun .strict text base digits rest) : text = digits ++ rest := by
  cases h with
  | decimal _ hrun => exact hrun.1

/-- The text writes the count: between blanks and behind at most one sign it has digits, which
are all there is for a strict reading; they denote the count, which is below 2^64, and zero if the
sign is a minus. -/
def WritesCount (mode : IntegerMode) (text : List Char) (n : Nat) : Prop :=
  ∃ inner negative unsigned base digits rest,
    Text.IsAmongBlanks inner text ∧ IsSigned inner negative unsigned ∧
    IsCountRun mode unsigned base digits rest ∧ digits ≠ [] ∧ (mode = .strict → rest = []) ∧
    Text.IsNumeral base digits n ∧ n < 2 ^ 64 ∧ (negative = true → n = 0)

/-- What is read from a text is the count that it writes; a text that writes none is not read. -/
theorem readCount?_writes (mode : IntegerMode) (text : List Char) (n : Nat) :
    readCount? mode text = some n ↔ WritesCount mode text n := by
  rw [readCount?_eq_some_iff]
  constructor
  · intro h
    obtain ⟨hne, hfull, hn, hlt, hzero⟩ := h
    obtain ⟨rest, hrun⟩ := countDigits_eq_iff.1 (Eq.refl (countDigits mode _))
    refine ⟨_, _, _, _, _, rest, Text.isAmongBlanks_trim text, splitSign_eq_iff.1 rfl, hrun, hne,
      ?_, Text.isNumeral_iff.2 ⟨hrun.isDigitOf, hn⟩, hlt, hzero⟩
    rintro rfl
    have hlength := congrArg List.length hrun.eq_append
    rw [List.length_append, ← hfull rfl] at hlength
    exact List.length_eq_zero_iff.1 (by omega)
  · rintro ⟨inner, negative, unsigned, base, digits, rest, hinner, hsign, hrun, hne, hfull, hn,
      hlt, hzero⟩
    rw [Text.trim_eq_iff.2 hinner, splitSign_eq_iff.2 hsign]
    dsimp only
    rw [countDigits_eq_iff.2 ⟨rest, hrun⟩]
    refine ⟨hne, ?_, (Text.isNumeral_iff.1 hn).2, hlt, hzero⟩
    rintro rfl
    rw [hrun.eq_append, hfull rfl, List.append_nil]

end DirectiveQuery
