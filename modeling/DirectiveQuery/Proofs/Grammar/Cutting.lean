import DirectiveQuery.Proofs.Grammar.Scanning

/-
  Texts that are cut behind a token. A token is as long as it can be, and in a shorter text it
  can be no longer; so what is cut off plays no part in the tokens before it.
-/
namespace DirectiveQuery.Token

variable {text part rest lexeme : List Char} {t : Token} {ts : List Token}

theorem Longest.cut {part : List Char} (h : Longest lexeme (part ++ rest)) :
    Longest lexeme part := by
  intro longer t hl hp
  refine h longer t hl (hp.trans ?_)
  rw [← List.append_assoc]
  exact List.prefix_append _ _

/-- The spaces at the head of a text are those of a part of it, or the part is spaces. -/
theorem afterSpace_append (part rest : List Char) : afterSpace (part ++ rest) =
    if (afterSpace part).isEmpty then afterSpace rest else afterSpace part ++ rest :=
  List.dropWhile_append

/-- What is read last is an end of the text. -/
theorem Reads.exists_append (h : Reads text ts rest) (hr : afterSpace rest = rest) :
    ∃ part, text = part ++ rest := by
  induction h with
  | @nil text rest he =>
    refine ⟨text.takeWhile Lexeme.isSpace, ?_⟩
    rw [← hr, ← he]
    exact List.takeWhile_append_dropWhile.symm
  | @cons text middle rest token ts hn _ ih =>
    obtain ⟨part, rfl⟩ := ih hr
    obtain ⟨lexeme, hs⟩ := hn
    refine ⟨text.takeWhile Lexeme.isSpace ++ (lexeme ++ part), ?_⟩
    rw [List.append_assoc, List.append_assoc, ← hs.eq]
    exact List.takeWhile_append_dropWhile.symm

/-- Tokens are read as before if the text is cut anywhere behind them. -/
theorem Reads.cut_behind {middle tail : List Char}
    (hr : afterSpace (middle ++ tail) = middle ++ tail)
    (h : Reads (part ++ (middle ++ tail)) ts (middle ++ tail)) :
    Reads (part ++ middle) ts middle := by
  induction ts generalizing part with
  | nil =>
    obtain ⟨he⟩ := h
    rw [afterSpace_append] at he
    split at he
    · next hp =>
      refine .nil ?_
      rw [afterSpace_append, if_pos hp]
    · next hp =>
      have hnil : afterSpace part = [] :=
        List.append_cancel_right (he.trans (hr.trans (List.nil_append _).symm))
      exact absurd (List.isEmpty_iff.2 hnil) hp
  | cons t ts ih =>
    obtain ⟨after, ⟨lexeme, hs⟩, hts⟩ := Reads.cons_iff.1 h
    obtain ⟨after, rfl⟩ := hts.exists_append hr
    have heq := hs.eq
    rw [afterSpace_append] at heq
    split at heq
    · -- all of the part would be spaces, and the token would stand behind it
      obtain ⟨c, cs, rfl⟩ := hs.spelling.ne_nil
      have hlength := congrArg List.length heq
      rw [hr] at hlength
      simp only [List.length_append, List.length_cons] at hlength
      omega
    · next hp =>
      rw [← List.append_assoc lexeme] at heq
      have hpart := List.append_cancel_right heq
      have hlongest := hs.longest
      rw [← List.append_assoc] at hlongest
      refine .cons ⟨lexeme, ?_, hs.spelling, hlongest.cut⟩ (ih hts)
      rw [afterSpace_append, if_neg hp, hpart, List.append_assoc]

/-- Tokens are read without what stands behind them. -/
theorem Reads.cut (h : Reads (part ++ rest) ts rest) (hr : afterSpace rest = rest) :
    Reads part ts [] := by
  have hcut : Reads (part ++ []) ts [] := Reads.cut_behind (by exact hr) (by exact h)
  rwa [List.append_nil] at hcut

/-! ## Texts that are continued

A text that ends with a token can be continued so that the token stays the longest one: by a
character that stands within no token. Strings are no exception, since where they end does not
depend on what follows. -/

/-- No token goes over from a text that is not empty to the character behind it, unless the text
is inside a string or ends where no token ends. -/
def Breaks (ch : Char) : Prop := ∀ before after t, Spelling (before ++ ch :: after) t →
  before = [] ∨ (∃ q cs, before = q :: cs ∧ isQuote q) ∨ ∀ l u, Spelling l u → ¬ l <+: before

/-- Some characters that stand within no token but strings, or only within `&&` and `||`. -/
def breaking : List Char := ['"', '!', '(', ')', ' ', '<', '&', '|']

theorem fixed_tails : ∀ p ∈ fixed, (∃ c ∈ ['&', '|'], p.1.toList = [c, c]) ∨
    ∀ c ∈ p.1.toList.tail, c ∉ breaking := by
  have h : ∀ p ∈ fixed, (['&', '|'].any fun c => p.1.toList = [c, c]) ∨
      p.1.toList.tail.all fun c => c ∉ breaking := by
    decide +kernel
  intro p hp
  simpa only [List.any_eq_true, List.all_eq_true, decide_eq_true_eq] using h p hp

/-- Half of `&&` or `||` is no token. -/
theorem not_spelling_half {ch : Char} (hc : ch ∈ ['&', '|']) (t : Token) : ¬ Spelling [ch] t := by
  intro h
  have hkind : ['&', '|'].all fun c => Lexeme.isWordStart c = false ∧ isNumberStart c = false ∧
      isQuote c = false ∧ ∀ p ∈ fixed, p.1 ≠ String.ofList [c] := by
    decide +kernel
  obtain ⟨hw, hn, hq, hnone⟩ := of_decide_eq_true (List.all_eq_true.1 hkind ch hc)
  exact hnone _ (h.of_symbol hw hn hq) rfl

theorem breaks_of_mem {ch : Char} (hc : ch ∈ breaking) : Breaks ch := by
  have hkind : breaking.all fun c => Lexeme.isWordChar c = false ∧ isNumberChar c = false := by
    decide +kernel
  obtain ⟨hword, hnumber⟩ := of_decide_eq_true (List.all_eq_true.1 hkind ch hc)
  intro before after t h
  cases before with
  | nil => exact .inl rfl
  | cons b bs =>
    generalize ht : b :: bs ++ ch :: after = text at h
    cases h with
    | fixed hm =>
      obtain ⟨c, hc', hhalves⟩ | htail := fixed_tails _ hm
      · refine .inr (.inr fun l u hl hp => ?_)
        rw [hhalves] at ht
        obtain ⟨rfl, ht⟩ := List.cons.inj ht
        obtain rfl : bs = [] := by
          have hlength := congrArg List.length ht
          simp only [List.append_eq, List.length_append, List.length_cons,
            List.length_nil] at hlength
          exact List.length_eq_zero_iff.1 (by omega)
        obtain ⟨d, ds, rfl⟩ := hl.ne_nil
        obtain ⟨rfl, hds⟩ := List.cons_prefix_cons.1 hp
        rw [List.prefix_nil.1 hds] at hl
        exact not_spelling_half hc' u hl
      · exact absurd hc (htail ch (by rw [← ht]; simp))
    | identifier _ hds =>
      have hchar := hds ch (by rw [← (List.cons.inj ht).2]; simp)
      rw [hword] at hchar
      cases hchar
    | number hn =>
      have hchar := hn.isNumberChar ch (by simp [← ht])
      rw [hnumber] at hchar
      cases hchar
    | string hq =>
      exact .inr (.inl ⟨b, bs, rfl, by rw [(List.cons.inj ht).1]; exact isQuote_iff_mem.2 hq⟩)

theorem Starts.extend {middle more : List Char} {ch : Char} (h : Starts text lexeme t middle)
    (hb : Breaks ch) : Starts (text ++ ch :: more) lexeme t (middle ++ ch :: more) := by
  refine ⟨by rw [h.eq, List.append_assoc], h.spelling, ?_⟩
  intro longer u hl hp
  rw [← List.append_assoc] at hp
  by_cases hle : longer.length ≤ (lexeme ++ middle).length
  · exact h.longest longer u hl (List.prefix_of_prefix_length_le hp (List.prefix_append _ _) hle)
  · -- a longer token would go over to the character
    obtain ⟨y, rfl⟩ := List.prefix_of_prefix_length_le
      (List.prefix_append (lexeme ++ middle) _) hp (Nat.le_of_not_le hle)
    rw [List.prefix_append_right_inj] at hp
    obtain ⟨after, rfl⟩ : ∃ after, y = ch :: after := by
      cases y with
      | nil => simp at hle
      | cons d ds => exact ⟨ds, by rw [(List.cons_prefix_cons.1 hp).1]⟩
    obtain ⟨d, ds, rfl⟩ := h.spelling.ne_nil
    obtain hnil | ⟨q, cs, hcs, hq⟩ | hnone := hb _ _ _ hl
    · cases hnil
    · obtain rfl := (List.cons.inj hcs).1
      obtain ⟨body, rfl, hbody, -⟩ := h.spelling.of_quote hq
      have hlongest := (starts_of_body hq hbody (middle ++ ch :: more)).longest
      refine hlongest _ u hl ?_
      simpa using hp
    · exact absurd (List.prefix_append _ _) (hnone _ _ h.spelling)

/-- The tokens of a text are read as before if the text is continued with such a character. -/
theorem Reads.extend {more : List Char} {ch : Char} (hb : Breaks ch) (h : Reads text ts []) :
    Reads (text ++ ch :: more) ts (ch :: more) := by
  generalize hr : ([] : List Char) = rest at h
  induction h with
  | @nil text rest he =>
    subst hr
    refine .nil ?_
    rw [afterSpace_append, he]
    rfl
  | @cons text middle rest t ts hn hts ih =>
    obtain ⟨lexeme, hst⟩ := hn
    refine .cons ⟨lexeme, ?_⟩ (ih hr)
    obtain ⟨c, cs, hc⟩ := hst.spelling.ne_nil
    rw [afterSpace_append, if_neg (by rw [hst.eq, hc]; simp)]
    exact hst.extend hb

/-! ## Texts that are put together -/

/-- A spelling alone is read as its token. -/
theorem Spelling.reads (h : Spelling lexeme t) : Reads lexeme [t] [] := by
  have hstarts : Starts lexeme lexeme t [] := by
    refine ⟨(List.append_nil _).symm, h, fun longer u _ hp => ?_⟩
    rw [List.append_nil] at hp
    exact hp.length_le
  exact .single hstarts.next

/-- Tokens, and a text behind them that starts with such a character. -/
theorem Reads.continued {us : List Token} {ch : Char} {more : List Char} (hb : ch ∈ breaking)
    (h : Reads text ts []) (h' : Reads (ch :: more) us rest) :
    Reads (text ++ ch :: more) (ts ++ us) rest :=
  (h.extend (breaks_of_mem hb)).append h'

/-- A symbol that no equals sign goes on, and a text behind it. -/
theorem reads_symbol {s : String} (hs : (s, t) ∈ fixed) (hk : s ∉ Lexeme.keywords)
    (hx : s ∉ ["!", "<", ">"]) (h : Reads part ts rest) :
    Reads (s.toList ++ part) (t :: ts) rest :=
  .cons (starts_of_symbol hs hk fun hmem => absurd hmem hx).next h

end DirectiveQuery.Token
