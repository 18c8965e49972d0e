import DirectiveQuery.Proofs.Grammar.Token

/-
  The scanners of the grammar find the tokens of the language: each answers with a token of its
  kind exactly where one is the longest at the head of the text.
-/
namespace DirectiveQuery.Token

open Lexeme

/-- A scanner finds the tokens `token a`, with their characters. -/
structure Finds {α : Type} (scan : List Char → Option (α × List Char)) (token : α → Token) :
    Prop where
  sound : ∀ {text lexeme : List Char} {a : α}, scan text = some (a, lexeme) →
    ∃ rest, Starts text lexeme (token a) rest
  complete : ∀ {text lexeme rest : List Char} {a : α}, Starts text lexeme (token a) rest →
    scan text = some (a, lexeme)

/-! ## Runs of characters -/

theorem length_le_takeWhile {p : Char → Bool} {lexeme text : List Char}
    (hp : ∀ c ∈ lexeme, p c) (h : lexeme <+: text) :
    lexeme.length ≤ (text.takeWhile p).length := by
  obtain ⟨rest, rfl⟩ := h
  rw [List.takeWhile_append_of_pos hp, List.length_append]
  exact Nat.le_add_right _ _

theorem eq_of_prefixes {k l text : List Char} (hk : k <+: text) (hl : l <+: text)
    (h : k.length = l.length) : k = l :=
  (List.prefix_of_prefix_length_le hk hl (Nat.le_of_eq h)).eq_of_length h

/-! ## Words -/

theorem isWordChar_of_mem_word {text : List Char} {c : Char} (h : c ∈ word text) :
    isWordChar c :=
  List.all_eq_true.1 List.all_takeWhile c h

theorem word_isPrefix (text : List Char) : word text <+: text := List.takeWhile_prefix _

theorem exists_fixed_of_mem_keywords : ∀ w ∈ keywords, ∃ p ∈ fixed, p.1 = w := by decide +kernel

theorem head_of_mem_keywords {w : String} (hw : w ∈ keywords) :
    ∃ c cs, w.toList = c :: cs ∧ isWordStart c := by
  have h : ∀ w ∈ keywords, w.toList.head?.any isWordStart := by decide +kernel
  obtain ⟨c, hc, hs⟩ := (Option.any_eq_true _ _).1 (h w hw)
  obtain ⟨cs, hcs⟩ := List.head?_eq_some_iff.1 hc
  exact ⟨c, cs, hcs, hs⟩

/-- A word is an identifier or a keyword. -/
theorem exists_spelling_of_word {c : Char} {cs : List Char} (hc : isWordStart c)
    (hcs : ∀ d ∈ cs, isWordChar d) : ∃ token, Spelling (c :: cs) token := by
  by_cases hk : String.ofList (c :: cs) ∈ keywords
  · obtain ⟨⟨w, token⟩, hf, rfl⟩ := exists_fixed_of_mem_keywords _ hk
    have hs := Spelling.fixed hf
    rw [String.toList_ofList] at hs
    exact ⟨token, hs⟩
  · exact ⟨_, .identifier hc hcs hk⟩

/-- A token that is the whole word at the head of a text is the longest there. -/
theorem starts_of_word {text cs : List Char} {c : Char} {token : Token}
    (hw : word text = c :: cs) (hc : isWordStart c) (hs : Spelling (c :: cs) token) :
    ∃ rest, Starts text (c :: cs) token rest := by
  have heq : text = (c :: cs) ++ text.drop (c :: cs).length := by
    have hp := word_isPrefix text
    rw [hw] at hp
    exact (List.prefix_iff_eq_append.1 hp).symm
  refine ⟨_, heq, hs, ?_⟩
  intro longer t hl hp
  obtain ⟨d, ds, rfl⟩ := hl.ne_nil
  obtain rfl : d = c := by
    obtain ⟨r, hr⟩ := hp
    simpa using (List.cons.inj hr).1
  have hds := (hl.of_wordStart hc).1
  rw [← heq] at hp
  have hle := @length_le_takeWhile isWordChar _ _ (List.forall_mem_cons.2
    ⟨isWordChar_of_isWordStart hc, hds⟩) hp
  rwa [show text.takeWhile isWordChar = d :: cs from hw] at hle

/-- A token that starts as a word does is the whole word at the head of the text. -/
theorem word_of_starts {text cs rest : List Char} {c : Char} {token : Token}
    (h : Starts text (c :: cs) token rest) (hc : isWordStart c) : word text = c :: cs := by
  have hp : c :: cs <+: text := ⟨rest, h.eq.symm⟩
  have hcs := (h.spelling.of_wordStart hc).1
  have hle : (c :: cs).length ≤ (word text).length :=
    length_le_takeWhile (List.forall_mem_cons.2 ⟨isWordChar_of_isWordStart hc, hcs⟩) hp
  obtain ⟨d, ds, hw⟩ : ∃ d ds, word text = d :: ds := by
    cases hw : word text with
    | nil => rw [hw] at hle; simp at hle
    | cons d ds => exact ⟨d, ds, rfl⟩
  obtain rfl : d = c := by
    have hd := word_isPrefix text
    rw [hw, h.eq] at hd
    obtain ⟨r, hr⟩ := hd
    simpa using (List.cons.inj hr).1
  obtain ⟨t, ht⟩ := exists_spelling_of_word hc fun e he =>
    @isWordChar_of_mem_word text e (by rw [hw]; exact List.mem_cons_of_mem _ he)
  have hge := h.longest _ t ht (by rw [← hw, ← h.eq]; exact word_isPrefix text)
  rw [← hw] at hge
  exact eq_of_prefixes (word_isPrefix text) hp (Nat.le_antisymm hge hle)

theorem word_of_starts_keyword {w : String} {text rest : List Char} {token : Token}
    (hk : w ∈ keywords) (h : Starts text w.toList token rest) : word text = w.toList := by
  obtain ⟨c, cs, hw, hs⟩ := head_of_mem_keywords hk
  rw [hw] at h ⊢
  exact word_of_starts h hs

theorem keyword_finds {w : String} {token : Token} (hk : w ∈ keywords)
    (hf : (w, token) ∈ fixed) : Finds (keyword? w) fun _ => token where
  sound := by
    intro text lexeme a h
    obtain ⟨c, cs, hw, hs⟩ := head_of_mem_keywords hk
    unfold keyword? at h
    split at h
    · next ht =>
      cases h
      rw [hw] at ht ⊢
      have hspelled := Spelling.fixed hf
      rw [hw] at hspelled
      exact starts_of_word ht hs hspelled
    · cases h
  complete := by
    intro text lexeme rest a h
    obtain rfl := h.spelling.eq_of_fixed hf
    rw [keyword?, word_of_starts_keyword hk h, if_pos rfl]

theorem boolean_finds : Finds boolean? fun b => .literal (.boolean b) where
  sound := by
    intro text lexeme b h
    have ht := @keyword_finds "true" (.literal (.boolean true)) (by decide) (by decide)
    have hf := @keyword_finds "false" (.literal (.boolean false)) (by decide) (by decide)
    unfold boolean? at h
    split at h
    · next hw =>
      cases h
      exact ht.sound (a := ()) (if_pos hw)
    · split at h
      · next hw =>
        cases h
        exact hf.sound (a := ()) (if_pos hw)
      · cases h
  complete := by
    intro text lexeme rest b h
    cases b with
    | true =>
      obtain rfl := h.spelling.eq_of_fixed (show ("true", _) ∈ fixed by decide)
      rw [boolean?, word_of_starts_keyword (by decide) h, if_pos rfl]
    | false =>
      obtain rfl := h.spelling.eq_of_fixed (show ("false", _) ∈ fixed by decide)
      rw [boolean?, word_of_starts_keyword (by decide) h, if_neg (by decide), if_pos rfl]

theorem identifier_finds : Finds identifier? .identifier where
  sound := by
    intro text lexeme name h
    unfold identifier? at h
    split at h
    · cases h
    · next c cs hw =>
      dsimp only at h
      split at h
      · next hc =>
        cases h
        simp only [Bool.and_eq_true, Bool.not_eq_true', List.contains_eq_mem,
          decide_eq_false_iff_not] at hc
        refine starts_of_word hw hc.1 (.identifier hc.1 (fun d hd => ?_) hc.2)
        exact @isWordChar_of_mem_word text d (by rw [hw]; exact List.mem_cons_of_mem _ hd)
      · cases h
  complete := by
    intro text lexeme rest name h
    have hs := h.spelling
    generalize ht : Token.identifier name = token at hs
    cases hs with
    | identifier hc hcs hk =>
      cases ht
      rw [identifier?, word_of_starts h hc]
      exact if_pos (by rw [hc, List.contains_eq_mem, decide_eq_false hk]; rfl)
    | fixed hm =>
      subst ht
      simp [Token.fixed] at hm
    | number => cases ht
    | string => cases ht

/-! ## Symbols -/

/-- A symbol of the table is the longest token, unless an equals sign after it makes another
one. -/
theorem starts_of_symbol {s : String} {token : Token} {rest : List Char}
    (hs : (s, token) ∈ fixed) (hk : s ∉ keywords)
    (hx : s ∈ ["!", "<", ">"] → rest.head? ≠ some '=') :
    Starts (s.toList ++ rest) s.toList token rest := by
  refine ⟨rfl, .fixed hs, ?_⟩
  intro longer t hl hp
  obtain ⟨c, cs, hc⟩ := (Spelling.fixed hs).ne_nil
  have hh := fixed_head hs hc
  obtain ⟨d, ds, rfl⟩ := hl.ne_nil
  obtain rfl : d = c := by
    obtain ⟨r, hr⟩ := hp
    rw [hc] at hr
    exact (List.cons.inj hr).1
  have hm := hl.of_symbol (by simpa using fun h => hk (hh.1 h)) hh.2.1 hh.2.2
  by_cases hle : (d :: ds).length ≤ s.toList.length
  · exact hle
  · have hpre : s.toList <+: d :: ds :=
      List.prefix_of_prefix_length_le (List.prefix_append _ _) hp (by omega)
    rcases fixed_isPrefix _ hs _ hm (by rwa [String.toList_ofList]) with h | ⟨hsym, h⟩
    · dsimp only at h
      rw [h, String.toList_ofList] at hle
      exact absurd (Nat.le_refl _) hle
    · rw [String.toList_ofList] at h
      rw [h, List.prefix_append_right_inj] at hp
      obtain ⟨r, rfl⟩ := hp
      exact absurd rfl (hx hsym)

/-! ## Strings -/

theorem stringRest?_plain {quote c : Char} (hc : c ≠ '\\') (rest : List Char) :
    stringRest? quote (c :: rest) =
      if c = quote then some [c] else (stringRest? quote rest).map (c :: ·) :=
  stringRest?.eq_4 quote c rest (fun _ _ h => absurd h hc) fun h => absurd h hc

theorem stringRest?_body {quote : Char} {body : List Char} (hq : quote ≠ '\\')
    (hb : IsBody quote body) (rest : List Char) :
    stringRest? quote (body ++ quote :: rest) = some (body ++ [quote]) := by
  induction hb with
  | nil => rw [List.nil_append, stringRest?_plain hq, if_pos rfl, List.nil_append]
  | escaped c hb ih => simp [stringRest?, ih]
  | plain hcq hc hb ih =>
    rw [List.cons_append, stringRest?_plain hc, if_neg hcq, ih, Option.map_some, List.cons_append]

theorem body_of_stringRest? {quote : Char} {text found : List Char}
    (h : stringRest? quote text = some found) :
    ∃ body rest, found = body ++ [quote] ∧ IsBody quote body ∧ text = body ++ quote :: rest := by
  fun_induction stringRest? quote text generalizing found with
  | case1 => cases h
  | case2 c rest ih =>
    obtain ⟨b, hb, rfl⟩ := Option.map_eq_some_iff.1 h
    obtain ⟨body, r, rfl, hbody, rfl⟩ := ih hb
    exact ⟨'\\' :: c :: body, r, rfl, .escaped c hbody, rfl⟩
  | case3 => cases h
  | case4 rest _ _ =>
    cases h
    exact ⟨[], rest, rfl, .nil, rfl⟩
  | case5 c rest h1 h2 hc ih =>
    obtain ⟨b, hb, rfl⟩ := Option.map_eq_some_iff.1 h
    obtain ⟨body, r, rfl, hbody, rfl⟩ := ih hb
    have hback : c ≠ '\\' := by
      rintro rfl
      cases body with
      | nil => exact h1 _ _ rfl rfl
      | cons d body => exact h1 _ _ rfl rfl
    exact ⟨c :: body, r, rfl, .plain hc hback hbody, rfl⟩

/-- Where a string ends is decided by the text alone. -/
theorem starts_of_body {quote : Char} {body : List Char} (hq : isQuote quote)
    (hb : IsBody quote body) (rest : List Char) :
    Starts (quote :: (body ++ quote :: rest)) (quote :: (body ++ [quote]))
      (.literal (.string (String.ofList (unescape body)))) rest := by
  have hback : quote ≠ '\\' := by rintro rfl; revert hq; decide
  refine ⟨by simp, .string (isQuote_iff_mem.1 hq) hb, ?_⟩
  intro longer t hl hp
  obtain ⟨c, cs, rfl⟩ := hl.ne_nil
  obtain ⟨r, hr⟩ := hp
  obtain rfl : c = quote := (List.cons.inj hr).1
  obtain ⟨other, rfl, hother, -⟩ := hl.of_quote hq
  have h1 := stringRest?_body hback hb rest
  have h2 := stringRest?_body hback hother r
  have htext : other ++ c :: r = body ++ c :: rest := by simpa using (List.cons.inj hr).2
  rw [htext, h1] at h2
  have hbody : body ++ [c] = other ++ [c] := Option.some.inj h2
  exact Nat.le_of_eq (congrArg (fun cs => (c :: cs).length) hbody.symm)

theorem string?_body {quote : Char} {body : List Char} (hq : quote ∈ ['"', '\x27'])
    (hb : IsBody quote body) (rest : List Char) : string? (quote :: (body ++ quote :: rest)) =
      some (String.ofList (unescape body), quote :: (body ++ [quote])) := by
  have hback : quote ≠ '\\' := by
    rintro rfl
    revert hq
    decide
  have hquote : (quote = '"' || quote = '\x27') = true := isQuote_iff_mem.2 hq
  rw [string?, if_pos hquote, stringRest?_body hback hb, Option.map_some, List.dropLast_concat]

/-- A string is an inside between quotes. -/
theorem string?_eq_some_iff {text lexeme : List Char} {s : String} :
    string? text = some (s, lexeme) ↔ ∃ quote ∈ ['"', '\x27'], ∃ body rest, IsBody quote body ∧
      text = quote :: (body ++ quote :: rest) ∧ lexeme = quote :: (body ++ [quote]) ∧
      s = String.ofList (unescape body) := by
  constructor
  · intro h
    unfold string? at h
    split at h
    · cases h
    · next quote rest =>
      split at h
      · next hq =>
        obtain ⟨found, hfound, heq⟩ := Option.map_eq_some_iff.1 h
        obtain ⟨body, rest, rfl, hb, rfl⟩ := body_of_stringRest? hfound
        rw [List.dropLast_concat] at heq
        cases heq
        exact ⟨quote, isQuote_iff_mem.1 hq, body, rest, hb, rfl, rfl, rfl⟩
      · cases h
  · rintro ⟨quote, hq, body, rest, hb, rfl, rfl, rfl⟩
    exact string?_body hq hb rest

theorem string_finds : Finds string? fun s => .literal (.string s) where
  sound := by
    intro text lexeme name h
    obtain ⟨quote, hq, body, rest, hb, rfl, rfl, rfl⟩ := string?_eq_some_iff.1 h
    exact ⟨rest, starts_of_body (isQuote_iff_mem.2 hq) hb rest⟩
  complete := by
    intro text lexeme rest name h
    have hs := h.spelling
    generalize ht : Token.literal (.string name) = token at hs
    cases hs with
    | @string quote body hq hb =>
      cases ht
      have heq : text = quote :: (body ++ quote :: rest) := by simpa using h.eq
      rw [heq, string?_body hq hb]
    | fixed hm =>
      subst ht
      simp [Token.fixed] at hm
    | number => cases ht
    | identifier => cases ht

end DirectiveQuery.Token
