import DirectiveQuery.Proofs.Grammar.Scanning

/-
  Numbers at the head of a text. The scanner takes the digits, the fraction and the exponent
  one after the other, each as far as it goes; `number_finds` says that this gives the longest
  number that is there.
-/
namespace DirectiveQuery.Token

open Lexeme

/-- The text does not go on with a digit. -/
def NoDigit (text : List Char) : Prop := ∀ c ∈ text.head?, c.isDigit = false

theorem isDigits_nil : IsDigits [] := fun _ hc => absurd hc List.not_mem_nil

theorem isDigits_takeWhile (text : List Char) : IsDigits (text.takeWhile Char.isDigit) :=
  fun c hc => List.all_eq_true.1 List.all_takeWhile c hc

theorem takeWhile_digits {ds : List Char} (hd : IsDigits ds) (rest : List Char) :
    (ds ++ rest).takeWhile Char.isDigit = ds ++ rest.takeWhile Char.isDigit :=
  List.takeWhile_append_of_pos hd

theorem takeWhile_eq_nil {text : List Char} (h : NoDigit text) :
    text.takeWhile Char.isDigit = [] := by
  cases text with
  | nil => rfl
  | cons c cs => exact List.takeWhile_cons_of_neg (by simp [h c rfl])

theorem dropWhile_eq_self {text : List Char} (h : NoDigit text) :
    text.dropWhile Char.isDigit = text := by
  cases text with
  | nil => rfl
  | cons c cs => exact List.dropWhile_cons_of_neg (by simp [h c rfl])

theorem noDigit_dropWhile (text : List Char) : NoDigit (text.dropWhile Char.isDigit) := by
  intro c hc
  have h := List.head?_dropWhile_not Char.isDigit text
  rw [hc] at h
  simpa using h

/-! ## Exponents -/

theorem noDigit_of_isExponent {x rest : List Char} (hx : IsExponent x)
    (hr : x = [] → NoDigit rest) : NoDigit (x ++ rest) := by
  cases hx with
  | absent => exact hr rfl
  | present he =>
    intro c hc
    obtain rfl := Option.some.inj hc
    simp only [List.mem_cons, List.not_mem_nil, or_false] at he
    rcases he with rfl | rfl <;> decide

/-- What the scanner makes of a letter, a sign and the text behind them. -/
theorem exponentPart_sign {e : Char} {sign rest : List Char} (hs : sign ∈ [[], ['+'], ['-']])
    (hr : sign = [] → ∀ c ∈ rest.head?, c ≠ '+' ∧ c ≠ '-') :
    exponentPart (e :: (sign ++ rest)) =
      if (e = 'e' || e = 'E') && !(rest.takeWhile Char.isDigit).isEmpty
      then e :: (sign ++ rest.takeWhile Char.isDigit) else [] := by
  simp only [List.mem_cons, List.not_mem_nil, or_false] at hs
  rcases hs with rfl | rfl | rfl
  · cases rest with
    | nil => rfl
    | cons c rest =>
      obtain ⟨hp, hm⟩ := hr rfl c rfl
      simp [exponentPart, hp, hm]
  · rfl
  · rfl

theorem exists_sign (text : List Char) : ∃ sign rest, sign ∈ [[], ['+'], ['-']] ∧
    text = sign ++ rest ∧ (sign = [] → ∀ c ∈ rest.head?, c ≠ '+' ∧ c ≠ '-') := by
  cases text with
  | nil => exact ⟨[], [], by simp⟩
  | cons c rest =>
    by_cases hp : c = '+'
    · exact ⟨['+'], rest, by simp [hp]⟩
    · by_cases hm : c = '-'
      · exact ⟨['-'], rest, by simp [hm]⟩
      · exact ⟨[], c :: rest, by simp [hp, hm]⟩

theorem isExponent_exponentPart (text : List Char) : IsExponent (exponentPart text) := by
  cases text with
  | nil => exact .absent
  | cons e text =>
    obtain ⟨sign, rest, hs, rfl, hr⟩ := exists_sign text
    rw [exponentPart_sign hs hr]
    split
    · next h =>
      simp only [Bool.and_eq_true, Bool.or_eq_true, decide_eq_true_eq, Bool.not_eq_true',
        List.isEmpty_eq_false_iff] at h
      exact .present (by simpa using h.1) hs h.2 (isDigits_takeWhile _)
    · exact .absent

theorem exponentPart_isPrefix (text : List Char) : exponentPart text <+: text := by
  cases text with
  | nil => exact List.nil_prefix
  | cons e text =>
    obtain ⟨sign, rest, hs, rfl, hr⟩ := exists_sign text
    rw [exponentPart_sign hs hr]
    split
    · rw [List.cons_prefix_cons, List.prefix_append_right_inj]
      exact ⟨rfl, List.takeWhile_prefix _⟩
    · exact List.nil_prefix

theorem noSign_of_isDigits {ds : List Char} (hne : ds ≠ []) (hd : IsDigits ds)
    (rest : List Char) : ∀ c ∈ (ds ++ rest).head?, c ≠ '+' ∧ c ≠ '-' := by
  obtain ⟨d, ds, rfl⟩ := List.exists_cons_of_ne_nil hne
  intro c hc
  obtain rfl := Option.some.inj hc
  have h := hd d (by simp)
  constructor <;> rintro rfl <;> revert h <;> decide

theorem exponentPart_present {e : Char} {sign ds : List Char} (he : e ∈ ['e', 'E'])
    (hs : sign ∈ [[], ['+'], ['-']]) (hne : ds ≠ []) (hd : IsDigits ds) (rest : List Char) :
    exponentPart (e :: (sign ++ ds) ++ rest) =
      e :: (sign ++ (ds ++ rest.takeWhile Char.isDigit)) := by
  have hc : (e = 'e' || e = 'E') = true := by simpa using he
  rw [List.cons_append, List.append_assoc,
    exponentPart_sign hs fun _ => noSign_of_isDigits hne hd rest, takeWhile_digits hd, hc]
  exact if_pos (by simp [hne])

/-! ## Mantissas -/

/-- A point and digits, or nothing. -/
def IsFraction (text : List Char) : Prop := text = [] ∨ ∃ fs, IsDigits fs ∧ text = '.' :: fs

theorem isMantissa_append {ds f : List Char} (hd : IsDigits ds) (hf : IsFraction f)
    (hne : ds ≠ [] ∨ 1 < f.length) : IsMantissa (ds ++ f) := by
  rcases hf with rfl | ⟨fs, hfs, rfl⟩
  · rw [List.append_nil]
    exact .whole (by simpa using hne) hd
  · by_cases h : ds = []
    · subst h
      exact .fraction (by simpa [List.length_pos_iff] using hne) hfs
    · exact .pointed h hd hfs

theorem isFraction_fractionPart (text : List Char) : IsFraction (fractionPart text) := by
  unfold fractionPart
  split
  · exact Or.inr ⟨_, isDigits_takeWhile _, rfl⟩
  · exact Or.inl rfl

theorem fractionPart_isPrefix (text : List Char) : fractionPart text <+: text := by
  unfold fractionPart
  split
  · exact List.cons_prefix_cons.2 ⟨rfl, List.takeWhile_prefix _⟩
  · exact List.nil_prefix

theorem numberText_append {ds text : List Char} (hd : IsDigits ds) (ht : NoDigit text) :
    numberText (ds ++ text) =
      if ds.isEmpty && (fractionPart text).length ≤ 1 then []
      else ds ++ fractionPart text ++ exponentPart (text.drop (fractionPart text).length) := by
  have hw : (ds ++ text).takeWhile Char.isDigit = ds := by
    rw [takeWhile_digits hd, takeWhile_eq_nil ht, List.append_nil]
  simp only [numberText, hw, List.drop_left, List.length_append, ← List.drop_drop]

/-- Every text is digits and then a text that does not go on with a digit. -/
theorem exists_digits (text : List Char) :
    ∃ ds rest, text = ds ++ rest ∧ IsDigits ds ∧ NoDigit rest :=
  ⟨_, _, List.takeWhile_append_dropWhile.symm, isDigits_takeWhile text, noDigit_dropWhile text⟩

theorem numberText_isPrefix (text : List Char) : numberText text <+: text := by
  obtain ⟨ds, rest, rfl, hd, hr⟩ := exists_digits text
  rw [numberText_append hd hr]
  split
  · exact List.nil_prefix
  · rw [List.append_assoc, List.prefix_append_right_inj]
    have hf := List.prefix_iff_eq_append.1 (fractionPart_isPrefix rest)
    calc fractionPart rest ++ exponentPart (rest.drop (fractionPart rest).length)
        <+: fractionPart rest ++ rest.drop (fractionPart rest).length :=
          (List.prefix_append_right_inj _).2 (exponentPart_isPrefix _)
      _ = rest := hf

theorem isNumber_numberText {text : List Char} (h : numberText text ≠ []) :
    IsNumber (numberText text) := by
  obtain ⟨ds, rest, rfl, hd, hr⟩ := exists_digits text
  rw [numberText_append hd hr] at h ⊢
  split at h
  · exact absurd rfl h
  · next hne =>
    rw [if_neg hne]
    have hsome : ds ≠ [] ∨ 1 < (fractionPart rest).length := by
      by_cases hds : ds = []
      · refine Or.inr (Nat.lt_of_not_le fun hle => hne ?_)
        simp [hds, hle]
      · exact Or.inl hds
    exact ⟨_, _, isMantissa_append hd (isFraction_fractionPart rest) hsome,
      isExponent_exponentPart _, rfl⟩

theorem length_le_exponentPart {x : List Char} (hx : IsExponent x) (rest : List Char) :
    x.length ≤ (exponentPart (x ++ rest)).length := by
  cases hx with
  | absent => exact Nat.zero_le _
  | present he hs hne hd =>
    rw [exponentPart_present he hs hne hd]
    simp only [List.length_cons, List.length_append]
    omega

theorem fractionPart_exponent {x : List Char} (hx : IsExponent x) (hne : x ≠ [])
    (rest : List Char) : fractionPart (x ++ rest) = [] := by
  cases hx with
  | absent => exact absurd rfl hne
  | present he =>
    simp only [List.mem_cons, List.not_mem_nil, or_false] at he
    rcases he with rfl | rfl <;> rfl

/-- The digits of a number may go on behind it, but only where it has no exponent. -/
theorem exists_digits_behind {x : List Char} (hx : IsExponent x) (rest : List Char) :
    ∃ more after, x ++ rest = more ++ after ∧ IsDigits more ∧ NoDigit after ∧
      (x = [] ∨ more = [] ∧ after = x ++ rest) := by
  obtain ⟨more, after, hrest, hmore, hafter⟩ := exists_digits (x ++ rest)
  refine ⟨more, after, hrest, hmore, hafter, ?_⟩
  by_cases hxe : x = []
  · exact Or.inl hxe
  · have hnd : NoDigit (x ++ rest) := noDigit_of_isExponent hx fun h => absurd h hxe
    have htw := takeWhile_eq_nil hnd
    rw [hrest, takeWhile_digits hmore, takeWhile_eq_nil hafter, List.append_nil] at htw
    subst htw
    exact Or.inr ⟨rfl, hrest.symm⟩

theorem noDigit_point (text : List Char) : NoDigit ('.' :: text) := by
  intro c hc
  obtain rfl := Option.some.inj hc
  decide

theorem length_le_of_whole {ds x : List Char} (hd : IsDigits ds) (hne : ds ≠ [])
    (hx : IsExponent x) (rest : List Char) :
    (ds ++ x).length ≤ (numberText (ds ++ x ++ rest)).length := by
  obtain ⟨more, after, hrest, hmore, hafter, hx'⟩ := exists_digits_behind hx rest
  have hlen : x.length ≤ (exponentPart (after.drop (fractionPart after).length)).length := by
    rcases hx' with rfl | ⟨-, rfl⟩
    · exact Nat.zero_le _
    · by_cases hxe : x = []
      · simp [hxe]
      · rw [fractionPart_exponent hx hxe]
        exact length_le_exponentPart hx rest
  have htext : ds ++ x ++ rest = ds ++ more ++ after := by
    rw [List.append_assoc, hrest, List.append_assoc]
  have hdm : IsDigits (ds ++ more) := fun c hc => (List.mem_append.1 hc).elim (hd c) (hmore c)
  rw [htext, numberText_append hdm hafter, if_neg (by simp [hne])]
  simp only [List.length_append]
  omega

theorem length_le_of_pointed {ds fs x : List Char} (hd : IsDigits ds) (hfs : IsDigits fs)
    (hne : ds ≠ [] ∨ fs ≠ []) (hx : IsExponent x) (rest : List Char) :
    (ds ++ '.' :: fs ++ x).length ≤ (numberText (ds ++ '.' :: fs ++ x ++ rest)).length := by
  obtain ⟨more, after, hrest, hmore, hafter, hx'⟩ := exists_digits_behind hx rest
  have hlen : x.length ≤ more.length + (exponentPart after).length := by
    rcases hx' with rfl | ⟨-, rfl⟩
    · exact Nat.zero_le _
    · exact Nat.le_trans (length_le_exponentPart hx rest) (Nat.le_add_left _ _)
  have hfp : fractionPart ('.' :: (fs ++ (x ++ rest))) = '.' :: (fs ++ more) := by
    show '.' :: (fs ++ (x ++ rest)).takeWhile Char.isDigit = _
    rw [takeWhile_digits hfs, hrest, takeWhile_digits hmore, takeWhile_eq_nil hafter,
      List.append_nil]
  have hdrop : ('.' :: (fs ++ (x ++ rest))).drop ('.' :: (fs ++ more)).length = after := by
    rw [hrest]
    simp
  have htext : ds ++ '.' :: fs ++ x ++ rest = ds ++ '.' :: (fs ++ (x ++ rest)) := by simp
  have hsome : ¬(ds.isEmpty && decide (('.' :: (fs ++ more)).length ≤ 1)) = true := by
    rcases hne with hne | hne
    · simp [hne]
    · simp [hne]
  rw [htext, numberText_append hd (noDigit_point _), hfp, hdrop, if_neg hsome]
  simp only [List.length_append, List.length_cons]
  omega

/-- No number at the head of a text is longer than the one that the scanner finds. -/
theorem length_le_numberText {n text : List Char} (hn : IsNumber n) (hp : n <+: text) :
    n.length ≤ (numberText text).length := by
  obtain ⟨m, x, hm, hx, rfl⟩ := hn
  obtain ⟨rest, rfl⟩ := hp
  cases hm with
  | whole hne hd => exact length_le_of_whole hd hne hx rest
  | pointed hne hd hfs => exact length_le_of_pointed hd hfs (Or.inl hne) hx rest
  | fraction hne hfs =>
    exact length_le_of_pointed isDigits_nil hfs (Or.inr hne) hx rest

/-! ## Values -/

theorem exponent?_isSome {x : List Char} (hx : IsExponent x) : (Numeral.exponent? x).isSome := by
  cases hx with
  | absent => rfl
  | @present e sign ds he hs hne hd =>
    have hc : (e = 'e' || e = 'E') = true := by simpa using he
    have hsplit : (Text.splitSign (sign ++ ds)).2 = ds := by
      simp only [List.mem_cons, List.not_mem_nil, or_false] at hs
      rcases hs with rfl | rfl | rfl
      · obtain ⟨d, ds, rfl⟩ := List.exists_cons_of_ne_nil hne
        have hsign := noSign_of_isDigits hne hd [] d rfl
        simp [Text.splitSign, hsign.1, hsign.2]
      · rfl
      · rfl
    have hall : ds.all Char.isDigit = true := List.all_eq_true.2 hd
    simp [Numeral.exponent?, hc, hsplit, hall, hne]

theorem noDigit_exponent {x : List Char} (hx : IsExponent x) : NoDigit x := by
  have h := @noDigit_of_isExponent _ [] hx fun _ c hc => by cases hc
  rwa [List.append_nil] at h

theorem ofText?_whole {ds x : List Char} {e : Int} (hd : IsDigits ds) (hne : ds ≠ [])
    (hx : IsExponent x) (he : Numeral.exponent? x = some e) :
    Numeral.ofText? (ds ++ x) = some ⟨ds, [], e⟩ := by
  have hxd := noDigit_exponent hx
  have hw : (ds ++ x).takeWhile Char.isDigit = ds := by
    rw [takeWhile_digits hd, takeWhile_eq_nil hxd, List.append_nil]
  have ha : (ds ++ x).dropWhile Char.isDigit = x := by
    rw [List.dropWhile_append_of_pos hd, dropWhile_eq_self hxd]
  simp only [Numeral.ofText?, hw, ha]
  cases hx with
  | absent => simp [hne, he]
  | @present c sign dg hc =>
    have hp : c ≠ '.' := by rintro rfl; revert hc; decide
    simp [hne, he, hp]

theorem ofText?_pointed {ds fs x : List Char} {e : Int} (hd : IsDigits ds) (hfs : IsDigits fs)
    (hne : ds ≠ [] ∨ fs ≠ []) (hx : IsExponent x) (he : Numeral.exponent? x = some e) :
    Numeral.ofText? (ds ++ '.' :: fs ++ x) = some ⟨ds, fs, e⟩ := by
  have hxd := noDigit_exponent hx
  have hpd : NoDigit ('.' :: fs ++ x) := noDigit_point _
  have hw : (ds ++ '.' :: fs ++ x).takeWhile Char.isDigit = ds := by
    rw [List.append_assoc, takeWhile_digits hd, takeWhile_eq_nil hpd, List.append_nil]
  have ha : (ds ++ '.' :: fs ++ x).dropWhile Char.isDigit = '.' :: (fs ++ x) := by
    rw [List.append_assoc, List.dropWhile_append_of_pos hd, dropWhile_eq_self hpd]
    rfl
  have hfw : (fs ++ x).takeWhile Char.isDigit = fs := by
    rw [takeWhile_digits hfs, takeWhile_eq_nil hxd, List.append_nil]
  have hfa : (fs ++ x).dropWhile Char.isDigit = x := by
    rw [List.dropWhile_append_of_pos hfs, dropWhile_eq_self hxd]
  have hsome : (ds.isEmpty && fs.isEmpty) = false := by
    rcases hne with hne | hne
    · simp [hne]
    · simp [hne]
  simp only [Numeral.ofText?, hw, ha, hfw, hfa, hsome, he]
  rfl

/-- Every number has a value. -/
theorem exists_numeral {n : List Char} (hn : IsNumber n) : ∃ v, Numeral.ofText? n = some v := by
  obtain ⟨m, x, hm, hx, rfl⟩ := hn
  obtain ⟨e, he⟩ := Option.isSome_iff_exists.1 (exponent?_isSome hx)
  cases hm with
  | whole hne hd => exact ⟨_, ofText?_whole hd hne hx he⟩
  | pointed hne hd hfs => exact ⟨_, ofText?_pointed hd hfs (Or.inl hne) hx he⟩
  | fraction hne hfs =>
    exact ⟨_, ofText?_pointed isDigits_nil hfs (Or.inr hne) hx he⟩

theorem number_finds : Finds number? fun x => .literal (.number x) where
  sound := by
    intro text lexeme x h
    obtain ⟨n, hn, he⟩ := Option.map_eq_some_iff.1 h
    cases he
    have hne : numberText text ≠ [] := by
      intro hnil
      rw [hnil] at hn
      cases hn
    have hnum := isNumber_numberText hne
    have heq := (List.prefix_iff_eq_append.1 (numberText_isPrefix text)).symm
    refine ⟨text.drop (numberText text).length, heq, .number hnum hn, ?_⟩
    intro longer t hl hp
    rw [← heq] at hp
    obtain ⟨c, cs, hc, hstart⟩ := hnum.head
    obtain ⟨d, ds, rfl⟩ := hl.ne_nil
    obtain rfl : d = c := by
      have hpre := numberText_isPrefix text
      rw [hc] at hpre
      obtain ⟨r, hr⟩ := hp
      obtain ⟨s, hs⟩ := hpre
      rw [← hs] at hr
      exact (List.cons.inj hr).1
    exact length_le_numberText (hl.of_numberStart hstart).1 hp
  complete := by
    intro text lexeme rest x h
    have hs := h.spelling
    generalize ht : Token.literal (.number x) = token at hs
    cases hs with
    | @number lexeme n hn hv =>
      cases ht
      have hp : lexeme <+: text := ⟨rest, h.eq.symm⟩
      have hle := length_le_numberText hn hp
      have hne : numberText text ≠ [] := by
        obtain ⟨c, cs, rfl, -⟩ := hn.head
        intro hnil
        simp [hnil] at hle
      have hnum := isNumber_numberText hne
      obtain ⟨m, hm⟩ := exists_numeral hnum
      have hge := h.longest _ _ (.number hnum hm) (by rw [← h.eq]; exact numberText_isPrefix text)
      have heq := eq_of_prefixes (numberText_isPrefix text) hp (Nat.le_antisymm hge hle)
      rw [number?, heq, hv, Option.map_some]
    | fixed hm =>
      subst ht
      simp [Token.fixed] at hm
    | identifier => cases ht
    | string => cases ht

/-- Digits alone spell the number that they denote. -/
theorem spelling_of_isDigits {ds : List Char} (hne : ds ≠ []) (hd : IsDigits ds) :
    Spelling ds (.literal (.number (Binary64.ofDecimal false (Text.numberOfDigits 10 ds) 0))) := by
  have hnumber : IsNumber ds := ⟨ds, [], .whole hne hd, .absent, (List.append_nil _).symm⟩
  have hvalue := ofText?_whole hd hne .absent rfl
  rw [List.append_nil] at hvalue
  have h := Spelling.number hnumber hvalue
  unfold Numeral.toBinary64 at h
  rwa [List.append_nil] at h

end DirectiveQuery.Token
