import DirectiveQuery.Proofs.Grammar.Scanning
import DirectiveQuery.Proofs.Text.Digits

/-
  Escapes in strings. The inside of a string denotes a text (`Denotes`): a character that no
  backslash stands before is itself, a few letters behind a backslash are controls, a `u` with a
  code behind it is the character of that code, and whatever else stands behind a backslash is
  itself. A code is four hexadecimal digits. The scanner also takes a plus sign for the first of
  them, so `unescape` gives what the inside denotes if such signed codes are codes too
  (`denotes_unescape`); it loses characters exactly where there is one (`denotes_code_iff`). In
  quotes, with a backslash before each quote and each backslash, every text is the inside of a
  string that denotes it (`string?_reading`).
-/
namespace DirectiveQuery.Lexeme

open Token

/-! ## What the inside of a string denotes -/

/-- The characters that stand for a control behind a backslash. -/
def controls : List (Char × Char) :=
  [('n', '\n'), ('t', '\t'), ('r', '\r'), ('b', '\x08'), ('f', '\x0c'), ('v', '\x0b'),
    ('0', '\x00')]

/-- Four hexadecimal digits that are the code point of a character. -/
def IsCode (group : List Char) (c : Char) : Prop :=
  group.length = 4 ∧ Text.IsNumeral 16 group c.toNat

/-- A plus sign and three hexadecimal digits that are the code point of a character. -/
def IsSignedCode (group : List Char) (c : Char) : Prop :=
  ∃ digits, group = '+' :: digits ∧ digits.length = 3 ∧ Text.IsNumeral 16 digits c.toNat

/-- What the inside of a string denotes, read from left to right, where `code` says which
characters behind `\u` are the code of which character. -/
inductive Denotes (code : List Char → Char → Prop) : (body text : List Char) → Prop
  | nil : Denotes code [] []
  | plain {c : Char} {body text : List Char} : c ≠ '\\' → Denotes code body text →
      Denotes code (c :: body) (c :: text)
  | control {e c : Char} {body text : List Char} : (e, c) ∈ controls → Denotes code body text →
      Denotes code ('\\' :: e :: body) (c :: text)
  | scalar {c : Char} {group body text : List Char} : code group c → Denotes code body text →
      Denotes code ('\\' :: 'u' :: (group ++ body)) (c :: text)
  | letter {body text : List Char} : (∀ group c rest, code group c → body ≠ group ++ rest) →
      Denotes code body text → Denotes code ('\\' :: 'u' :: body) ('u' :: text)
  | itself {e : Char} {body text : List Char} : e ≠ 'u' → (∀ c, (e, c) ∉ controls) →
      Denotes code body text → Denotes code ('\\' :: e :: body) (e :: text)

/-- A code, signed or not. -/
def IsLooseCode (group : List Char) (c : Char) : Prop := IsCode group c ∨ IsSignedCode group c

/-- Somewhere inside, where the backslashes before it are all taken, a signed code stands behind
`\u`. -/
inductive HasSignedCode : (body : List Char) → Prop
  | here {c : Char} {group rest : List Char} : IsSignedCode group c →
      HasSignedCode ('\\' :: 'u' :: (group ++ rest))
  | escaped (c : Char) {body : List Char} : HasSignedCode body → HasSignedCode ('\\' :: c :: body)
  | plain {c : Char} {body : List Char} : c ≠ '\\' → HasSignedCode body →
      HasSignedCode (c :: body)

/-! ## Codes -/

theorem hexNumber?_eq_some_iff {digits : List Char} {n : Nat} :
    Text.hexNumber? digits = some n ↔ Text.IsNumeral 16 digits n := by
  have hall : (digits.all fun c => (Text.hexValue? c).isSome) = true ↔
      ∀ c ∈ digits, Text.IsDigitOf 16 c := by
    simp only [List.all_eq_true, Text.isDigitOf_sixteen]
  rw [Text.hexNumber?, Text.isNumeral_iff, ← hall]
  simp

theorem not_isDigitOf_plus (base : Nat) : ¬ Text.IsDigitOf base '+' := by
  rintro ⟨v, hv, -⟩
  cases hv

theorem not_isDigitOf_backslash (base : Nat) : ¬ Text.IsDigitOf base '\\' := by
  rintro ⟨v, hv, -⟩
  cases hv

theorem IsLooseCode.not_backslash {group : List Char} {c : Char} (h : IsLooseCode group c) :
    ∀ d ∈ group, d ≠ '\\' := by
  rintro d hd rfl
  obtain ⟨-, hdigits⟩ | ⟨digits, rfl, -, hdigits⟩ := h
  · exact not_isDigitOf_backslash 16 ((Text.isNumeral_iff.1 hdigits).1 _ hd)
  · obtain hd | hd := List.mem_cons.1 hd
    · cases hd
    · exact not_isDigitOf_backslash 16 ((Text.isNumeral_iff.1 hdigits).1 _ hd)

theorem IsLooseCode.length_eq {group : List Char} {c : Char} (h : IsLooseCode group c) :
    group.length = 4 := by
  obtain ⟨h, -⟩ | ⟨digits, rfl, h, -⟩ := h
  · exact h
  · rw [List.length_cons, h]

/-- A number is the code point of one character, if it is valid. -/
theorem ofNat_eq_iff {n : Nat} {c : Char} :
    (if n.isValidChar then some (Char.ofNat n) else none) = some c ↔ n = c.toNat := by
  constructor
  · intro h
    split at h
    · next hn =>
      cases h
      rw [Char.ofNat, dif_pos hn]
      rfl
    · cases h
  · rintro rfl
    have hc : c.toNat.isValidChar := c.valid
    rw [if_pos hc, Char.ofNat_toNat]

theorem scalar?_eq_some_iff {a b c d ch : Char} :
    scalar? a b c d = some ch ↔ IsLooseCode [a, b, c, d] ch := by
  simp only [scalar?, Option.bind_eq_bind, Option.bind_eq_some_iff, hexNumber?_eq_some_iff,
    ofNat_eq_iff, exists_eq_right]
  split
  · next ha =>
    subst ha
    constructor
    · intro h
      exact .inr ⟨_, rfl, rfl, h⟩
    · rintro (⟨-, h⟩ | ⟨digits, heq, -, h⟩)
      · exact absurd ((Text.isNumeral_iff.1 h).1 '+' List.mem_cons_self) (not_isDigitOf_plus 16)
      · cases heq
        exact h
  · next ha =>
    constructor
    · intro h
      exact .inl ⟨rfl, h⟩
    · rintro (⟨-, h⟩ | ⟨digits, heq, -, -⟩)
      · exact h
      · cases heq
        exact absurd rfl ha

/-! ## Reading the inside -/

theorem unescape_plain {c : Char} (hc : c ≠ '\\') (rest : List Char) :
    unescape (c :: rest) = c :: unescape rest :=
  unescape.eq_4 c rest (fun _ _ _ _ _ h => absurd h hc) fun _ _ h => absurd h hc

theorem unescape_pair {e : Char} (he : e ≠ 'u') (rest : List Char) :
    unescape ('\\' :: e :: rest) = escapedChar e :: unescape rest :=
  unescape.eq_3 e rest fun _ _ _ _ _ h => absurd h he

theorem unescape_scalar {group : List Char} {c : Char} (h : IsLooseCode group c)
    (rest : List Char) : unescape ('\\' :: 'u' :: (group ++ rest)) = c :: unescape rest := by
  match group, h.length_eq with
  | [a, b, c', d], _ =>
    show unescape ('\\' :: 'u' :: a :: b :: c' :: d :: rest) = _
    rw [unescape, scalar?_eq_some_iff.2 h]

/-- Without a code behind it, a `u` is one letter. -/
theorem unescape_letter {body : List Char}
    (h : ∀ group c rest, IsLooseCode group c → body ≠ group ++ rest) :
    unescape ('\\' :: 'u' :: body) = 'u' :: unescape body := by
  match body with
  | a :: b :: c :: d :: rest =>
    have hnone : scalar? a b c d = none := by
      cases hs : scalar? a b c d with
      | none => rfl
      | some ch => exact absurd rfl (h _ _ rest (scalar?_eq_some_iff.1 hs))
    rw [unescape, hnone]
  | [] | [_] | [_, _] | [_, _, _] => rfl

theorem escapedChar_of_control {e c : Char} (h : (e, c) ∈ controls) :
    e ≠ 'u' ∧ escapedChar e = c := by
  have hall : ∀ p ∈ controls, p.1 ≠ 'u' ∧ escapedChar p.1 = p.2 := by decide +kernel
  exact hall _ h

theorem escapedChar_eq_self {e : Char} (h : ∀ c, (e, c) ∉ controls) : escapedChar e = e := by
  simp only [controls, List.mem_cons, Prod.mk.injEq, List.not_mem_nil, or_false] at h
  unfold escapedChar
  split <;> simp at h ⊢

theorem Denotes.unescape_eq {body text : List Char} (h : Denotes IsLooseCode body text) :
    unescape body = text := by
  induction h with
  | nil => rfl
  | plain hc _ ih => rw [unescape_plain hc, ih]
  | control he _ ih =>
    obtain ⟨hu, hc⟩ := escapedChar_of_control he
    rw [unescape_pair hu, hc, ih]
  | scalar hcode _ ih => rw [unescape_scalar hcode, ih]
  | letter hnone _ ih => rw [unescape_letter hnone, ih]
  | itself hu he _ ih => rw [unescape_pair hu, escapedChar_eq_self he, ih]

/-! Behind the characters of a code, which are no backslashes, the inside goes on as it does
without them. -/

theorem isBody_of_plain_cons {quote c : Char} {body : List Char} (h : IsBody quote (c :: body))
    (hc : c ≠ '\\') : IsBody quote body := by
  cases h with
  | escaped => exact absurd rfl hc
  | plain _ _ h => exact h

theorem isBody_of_append {quote : Char} {group body : List Char}
    (h : IsBody quote (group ++ body)) (hg : ∀ c ∈ group, c ≠ '\\') : IsBody quote body := by
  induction group with
  | nil => exact h
  | cons c cs ih =>
    rw [List.forall_mem_cons] at hg
    exact ih (isBody_of_plain_cons h hg.1) hg.2

theorem isBody_of_pair {quote e : Char} {body : List Char} (h : IsBody quote ('\\' :: e :: body)) :
    IsBody quote body := by
  cases h with
  | escaped _ h => exact h
  | plain _ hc => exact absurd rfl hc

/-- The inside of a string denotes what is read from it. -/
theorem denotes_unescape {quote : Char} {body : List Char} (h : IsBody quote body) :
    Denotes IsLooseCode body (unescape body) := by
  fun_induction unescape body with
  | case1 => exact .nil
  | case2 a b c d rest ch hs ih =>
    have hcode := scalar?_eq_some_iff.1 hs
    exact .scalar hcode (ih (isBody_of_append (isBody_of_pair h) hcode.not_backslash))
  | case3 a b c d rest hs ih =>
    refine .letter (fun group ch rest' hcode heq => ?_) (ih (isBody_of_pair h))
    match group, hcode.length_eq with
    | [a', b', c', d'], _ =>
      cases heq
      rw [scalar?_eq_some_iff.2 hcode] at hs
      cases hs
  | case4 e rest hshort ih =>
    have hrest := ih (isBody_of_pair h)
    by_cases hu : e = 'u'
    · subst hu
      refine .letter (fun group ch rest' hcode heq => ?_) hrest
      match group, hcode.length_eq with
      | [a, b, c, d], _ => exact hshort a b c d rest' rfl heq
    · by_cases he : ∃ c, (e, c) ∈ controls
      · obtain ⟨c, hc⟩ := he
        rw [(escapedChar_of_control hc).2]
        exact .control hc hrest
      · rw [escapedChar_eq_self fun c hc => he ⟨c, hc⟩]
        exact .itself hu (fun c hc => he ⟨c, hc⟩) hrest
  | case5 c rest hcode hpair ih =>
    have hc : c ≠ '\\' := by
      rintro rfl
      cases h with
      | escaped e h => exact hpair e _ rfl rfl
      | plain _ hc => exact hc rfl
    exact .plain hc (ih (isBody_of_plain_cons h hc))

/-! ## Signed codes

A signed code is read as one character, where five characters stand without it: nothing else
makes what is read shorter than what the inside denotes without signed codes. -/

theorem IsCode.not_plus {group : List Char} {c : Char} (h : IsCode group c) : '+' ∉ group :=
  fun hm => not_isDigitOf_plus 16 ((Text.isNumeral_iff.1 h.2).1 _ hm)

theorem HasSignedCode.append {group rest : List Char} (hg : ∀ c ∈ group, c ≠ '\\')
    (h : HasSignedCode rest) : HasSignedCode (group ++ rest) := by
  induction group with
  | nil => exact h
  | cons c cs ih =>
    rw [List.forall_mem_cons] at hg
    exact .plain hg.1 (ih hg.2)

theorem HasSignedCode.of_plain_cons {c : Char} {body : List Char} (h : HasSignedCode (c :: body))
    (hc : c ≠ '\\') : HasSignedCode body := by
  cases h with
  | here | escaped => exact absurd rfl hc
  | plain _ h => exact h

theorem HasSignedCode.of_append {group rest : List Char} (h : HasSignedCode (group ++ rest))
    (hg : ∀ c ∈ group, c ≠ '\\') : HasSignedCode rest := by
  induction group with
  | nil => exact h
  | cons c cs ih =>
    rw [List.forall_mem_cons] at hg
    exact ih (h.of_plain_cons hg.1) hg.2

/-- Behind an escape, a signed code belongs to the escape itself or stands further on. -/
theorem HasSignedCode.of_pair {e : Char} {body : List Char}
    (h : HasSignedCode ('\\' :: e :: body)) :
    (e = 'u' ∧ ∃ group c rest, IsSignedCode group c ∧ body = group ++ rest) ∨
      HasSignedCode body := by
  cases h with
  | here hs => exact .inl ⟨rfl, _, _, _, hs, rfl⟩
  | escaped _ h => exact .inr h
  | plain hc => exact absurd rfl hc

theorem denotes_code_of_not_signed {body text : List Char} (h : Denotes IsLooseCode body text)
    (hnot : ¬ HasSignedCode body) : Denotes IsCode body text := by
  induction h with
  | nil => exact .nil
  | plain hc _ ih => exact .plain hc (ih fun h => hnot (.plain hc h))
  | control he _ ih => exact .control he (ih fun h => hnot (.escaped _ h))
  | scalar hloose _ ih =>
    obtain hcode | hsigned := id hloose
    · exact .scalar hcode (ih fun h => hnot (.escaped _ (h.append hloose.not_backslash)))
    · exact absurd (.here hsigned) hnot
  | letter hnone _ ih =>
    exact .letter (fun group c rest hcode => hnone group c rest (.inl hcode))
      (ih fun h => hnot (.escaped _ h))
  | itself hu he _ ih => exact .itself hu he (ih fun h => hnot (.escaped _ h))

theorem unescape_append {group : List Char} (hg : ∀ c ∈ group, c ≠ '\\') (rest : List Char) :
    unescape (group ++ rest) = group ++ unescape rest := by
  induction group with
  | nil => rfl
  | cons c cs ih =>
    rw [List.forall_mem_cons] at hg
    rw [List.cons_append, unescape_plain hg.1, ih hg.2, List.cons_append]

theorem length_unescape_le {body text : List Char} (h : Denotes IsCode body text) :
    (unescape body).length ≤ text.length ∧
      (HasSignedCode body → (unescape body).length < text.length) := by
  induction h with
  | nil => exact ⟨Nat.le_refl _, fun h => by cases h⟩
  | plain hc _ ih =>
    rw [unescape_plain hc, List.length_cons, List.length_cons]
    exact ⟨Nat.succ_le_succ ih.1, fun h => Nat.succ_lt_succ (ih.2 (h.of_plain_cons hc))⟩
  | control he _ ih =>
    have hu := (escapedChar_of_control he).1
    rw [unescape_pair hu, List.length_cons, List.length_cons]
    refine ⟨Nat.succ_le_succ ih.1, fun h => Nat.succ_lt_succ (ih.2 ?_)⟩
    exact h.of_pair.resolve_left fun hp => hu hp.1
  | @scalar c group body text hcode _ ih =>
    have hloose : IsLooseCode group c := .inl hcode
    rw [unescape_scalar hloose, List.length_cons, List.length_cons]
    refine ⟨Nat.succ_le_succ ih.1, fun h => Nat.succ_lt_succ (ih.2 ?_)⟩
    obtain ⟨-, group', c', rest, ⟨digits, rfl, -⟩, heq⟩ | h := h.of_pair
    · -- the code itself would start with the plus sign
      match group, hloose.length_eq with
      | d :: ds, _ =>
        obtain rfl : d = '+' := (List.cons.inj heq).1
        exact absurd List.mem_cons_self hcode.not_plus
    · exact h.of_append hloose.not_backslash
  | @letter body text hnone _ ih =>
    by_cases hsigned : ∃ group c rest, IsLooseCode group c ∧ body = group ++ rest
    · obtain ⟨group, c, rest, hloose, rfl⟩ := hsigned
      have hlength := ih.1
      rw [unescape_append hloose.not_backslash, List.length_append, hloose.length_eq] at hlength
      rw [unescape_scalar hloose, List.length_cons, List.length_cons]
      exact ⟨by omega, fun _ => by omega⟩
    · have hletter : ∀ group c rest, IsLooseCode group c → body ≠ group ++ rest :=
        fun group c rest hloose heq => hsigned ⟨group, c, rest, hloose, heq⟩
      rw [unescape_letter hletter, List.length_cons, List.length_cons]
      refine ⟨Nat.succ_le_succ ih.1, fun h => Nat.succ_lt_succ (ih.2 ?_)⟩
      refine h.of_pair.resolve_left ?_
      rintro ⟨-, group, c, rest, hs, heq⟩
      exact hletter group c rest (.inr hs) heq
  | itself hu _ _ ih =>
    rw [unescape_pair hu, List.length_cons, List.length_cons]
    refine ⟨Nat.succ_le_succ ih.1, fun h => Nat.succ_lt_succ (ih.2 ?_)⟩
    exact h.of_pair.resolve_left fun hp => hu hp.1

/-- What is read is what the inside denotes without signed codes, exactly if it has none. -/
theorem denotes_code_iff {quote : Char} {body : List Char} (h : IsBody quote body) :
    Denotes IsCode body (unescape body) ↔ ¬ HasSignedCode body := by
  constructor
  · intro hcode hsigned
    exact absurd ((length_unescape_le hcode).2 hsigned) (Nat.lt_irrefl _)
  · exact denotes_code_of_not_signed (denotes_unescape h)

/-! ## Strings -/

/-- The characters with a backslash before each of the quotes and each backslash. -/
def escapeFor (quote : Char) (s : List Char) : List Char :=
  s.flatMap fun c => if c = quote ∨ c = '\\' then ['\\', c] else [c]

/-- A text as a string in the quotes. -/
def written (quote : Char) (s : String) : List Char :=
  quote :: (escapeFor quote s.toList ++ [quote])

theorem escapeFor_cons (quote c : Char) (cs : List Char) : escapeFor quote (c :: cs) =
    if c = quote ∨ c = '\\' then '\\' :: c :: escapeFor quote cs else c :: escapeFor quote cs := by
  rw [escapeFor, List.flatMap_cons]
  split <;> rfl

theorem isBody_escapeFor (quote : Char) (s : List Char) : IsBody quote (escapeFor quote s) := by
  induction s with
  | nil => exact .nil
  | cons c cs ih =>
    rw [escapeFor_cons]
    split
    · exact .escaped c ih
    · next h => exact .plain (fun hc => h (.inl hc)) (fun hc => h (.inr hc)) ih

theorem unescape_escapeFor {quote : Char} (hq : quote ∈ ['"', '\x27']) (s : List Char) :
    unescape (escapeFor quote s) = s := by
  have hself : ∀ c, c = quote ∨ c = '\\' → c ≠ 'u' ∧ escapedChar c = c := by
    intro c hc
    have hall : c ∈ ['"', '\x27'] ∨ c = '\\' := hc.imp_left fun (h : c = quote) => h ▸ hq
    simp only [List.mem_cons, List.not_mem_nil, or_false] at hall
    obtain (rfl | rfl) | rfl := hall <;> decide
  induction s with
  | nil => rfl
  | cons c cs ih =>
    rw [escapeFor_cons]
    split
    · next h =>
      obtain ⟨hu, hc⟩ := hself c h
      rw [unescape_pair hu, hc, ih]
    · next h => rw [unescape_plain fun hc => h (.inr hc), ih]

/-- A text starts with a string exactly if there is an inside between quotes, and the string is
what the inside denotes, signed codes included; without these it denotes the same exactly if the
inside has none. Every text is the string that it is written as, in quotes of either kind. -/
theorem string?_reading (text lexeme : List Char) (s : String) :
    (string? text = some (s, lexeme) ↔
      ∃ quote ∈ ['"', '\x27'], ∃ body rest, IsBody quote body ∧
        text = quote :: (body ++ quote :: rest) ∧ lexeme = quote :: (body ++ [quote]) ∧
        Denotes IsLooseCode body s.toList ∧
        (Denotes IsCode body s.toList ↔ ¬ HasSignedCode body)) ∧
    ∀ quote ∈ ['"', '\x27'], ∀ rest : List Char,
      string? (written quote s ++ rest) = some (s, written quote s) := by
  constructor
  · rw [string?_eq_some_iff]
    constructor
    · rintro ⟨quote, hq, body, rest, hb, htext, hlexeme, rfl⟩
      refine ⟨quote, hq, body, rest, hb, htext, hlexeme, ?_⟩
      rw [String.toList_ofList]
      exact ⟨denotes_unescape hb, denotes_code_iff hb⟩
    · rintro ⟨quote, hq, body, rest, hb, htext, hlexeme, hdenotes, -⟩
      refine ⟨quote, hq, body, rest, hb, htext, hlexeme, ?_⟩
      rw [hdenotes.unescape_eq, String.ofList_toList]
  · intro quote hq rest
    have hstring := string?_body hq (isBody_escapeFor quote s.toList) rest
    rw [unescape_escapeFor hq, String.ofList_toList] at hstring
    rw [written, List.cons_append, List.append_assoc, List.singleton_append]
    exact hstring

/-- A code that is one, a `u` without a code, and a character that stands for itself. -/
theorem string?_reading_samples :
    (∃ quote ∈ ['"', '\x27'], ∃ body rest, IsBody quote body ∧
      "'\\u00e9\\u12\\q' == a".toList = quote :: (body ++ quote :: rest) ∧
      "'\\u00e9\\u12\\q'".toList = quote :: (body ++ [quote]) ∧
      Denotes IsLooseCode body "éu12q".toList ∧
      (Denotes IsCode body "éu12q".toList ↔ ¬ HasSignedCode body)) ∧
    string? (written '"' "a\"'\\" ++ ['n']) = some ("a\"'\\", written '"' "a\"'\\") :=
  ⟨(string?_reading _ _ _).1.1 (by decide +kernel), (string?_reading [] [] _).2 '"' (by decide) _⟩

/-- Behind `\u`, `+041` is read as the code of one character; there are no four digits in it. -/
theorem string?_takes_plus :
    string? "'\\u+041'".toList = some ("A", "'\\u+041'".toList) ∧
      Denotes IsCode "\\u+041".toList "u+041".toList ∧
      ¬ Denotes IsCode "\\u+041".toList "A".toList := by
  refine ⟨by decide +kernel, ?_, ?_⟩
  · have hplain : Denotes IsCode "+041".toList "+041".toList :=
      .plain (by decide) (.plain (by decide) (.plain (by decide) (.plain (by decide) .nil)))
    refine .letter (fun group c rest hcode heq => ?_) hplain
    match group, hcode.1 with
    | d :: ds, _ =>
      obtain rfl : '+' = d := (List.cons.inj heq).1
      exact hcode.not_plus List.mem_cons_self
  · intro h
    have hdigits : Text.IsNumeral 16 "041".toList 'A'.toNat :=
      ⟨[0, 4, 1], by decide, by decide, by decide⟩
    have hsigned : HasSignedCode "\\u+041".toList :=
      @HasSignedCode.here 'A' _ [] ⟨_, rfl, rfl, hdigits⟩
    exact absurd ((length_unescape_le h).2 hsigned) (by decide +kernel)

end DirectiveQuery.Lexeme
