import DirectiveQuery.Directive
import DirectiveQuery.Proofs.Grammar.Escapes
import DirectiveQuery.Proofs.Grammar.Number

/-
  Words, from which query texts are written. A word is a token with one of its spellings. With a
  space after each, words are read back as their tokens (`reads_spaced`): only strings contain
  spaces, and where a string ends does not depend on what follows.
-/
namespace DirectiveQuery

/-- A token and how it is spelled. -/
structure Word where
  text : List Char
  token : Token
  spelling : Token.Spelling text token

namespace Word

open Lexeme Token

/-- The inside of a string in double quotes: a backslash stands before each quote and each
backslash. -/
def escape : List Char → List Char
  | [] => []
  | c :: cs => if c = '"' || c = '\\' then '\\' :: c :: escape cs else c :: escape cs

theorem escape_eq_escapeFor (s : List Char) : escape s = escapeFor '"' s := by
  induction s with
  | nil => rfl
  | cons c cs ih => simp only [escape, escapeFor_cons, Bool.or_eq_true, decide_eq_true_eq, ih]

theorem unescape_escape (s : List Char) : unescape (escape s) = s := by
  rw [escape_eq_escapeFor, unescape_escapeFor (by decide)]

theorem isBody_escape (s : List Char) : IsBody '"' (escape s) := by
  rw [escape_eq_escapeFor]
  exact isBody_escapeFor '"' s

/-- A string in double quotes. -/
def quoted (s : String) : Word where
  text := '"' :: (escape s.toList ++ ['"'])
  token := .literal (.string s)
  spelling := by
    have h := @Spelling.string '"' _ (by decide) (isBody_escape s.toList)
    rwa [unescape_escape, String.ofList_toList] at h

/-- A natural number in decimal digits. -/
def natural (n : Nat) : Word where
  text := Text.decimalDigits n
  token := .literal (.number (Binary64.ofDecimal false n 0))
  spelling := by
    have h := spelling_of_isDigits (Text.decimalDigits_ne_nil n) fun c hc =>
      Text.isDigit_of_mem_decimalDigits hc
    rwa [Text.numberOfDigits_decimalDigits] at h

/-- A token with one spelling. -/
def symbol (text : String) (token : Token) (h : (text, token) ∈ Token.fixed) : Word where
  text := text.toList
  token := token
  spelling := .fixed h

/-- The name of a directive. -/
def name (d : Directive) : Word where
  text := d.name.toList
  token := .identifier d.name
  spelling := by
    obtain ⟨c, cs, h, hc, hcs, hk⟩ : ∃ c cs, d.name.toList = c :: cs ∧ isWordStart c ∧
        cs.all isWordChar ∧ String.ofList (c :: cs) ∉ keywords := by
      cases d <;> exact ⟨_, _, rfl, by decide, by decide, by decide⟩
    have hs := Spelling.identifier hc (List.all_eq_true.1 hcs) hk
    rwa [← h, String.ofList_toList] at hs

/-! ## Texts of words -/

/-- The words with a space after each. -/
def spaced (words : List Word) : List Char := words.flatMap fun w => w.text ++ [' ']

theorem isSpace_eq_false_of_isNumberChar {c : Char} (h : isNumberChar c) : isSpace c = false := by
  simp only [isNumberChar, Bool.or_eq_true, decide_eq_true_eq] at h
  rcases h with h | h
  · exact isSpace_eq_false_of_isWordChar (by simp [isWordChar, Char.isAlphanum, h])
  · have hsigns : ['.', 'e', 'E', '+', '-'].all fun c => !isSpace c := by decide
    simpa using List.all_eq_true.1 hsigns c h

/-- A token that is no string has no spaces in it. -/
theorem noSpace_of_spelling {c : Char} {cs : List Char} {token : Token}
    (h : Spelling (c :: cs) token) (hq : isQuote c = false) :
    ∀ d ∈ c :: cs, isSpace d = false := by
  generalize ht : c :: cs = text at h
  cases h with
  | fixed hm => exact fixed_noSpace _ hm
  | identifier hc hcs =>
    intro d hd
    rcases List.mem_cons.1 hd with rfl | hd
    · exact isSpace_eq_false_of_isWordChar (isWordChar_of_isWordStart hc)
    · exact isSpace_eq_false_of_isWordChar (hcs d hd)
  | number hn =>
    subst ht
    exact fun d hd => isSpace_eq_false_of_isNumberChar (hn.isNumberChar d hd)
  | string hd =>
    cases ht
    rw [isQuote_iff_mem.2 hd] at hq
    cases hq

/-- Before a space, a word is as long as a token there can be. -/
theorem starts_before_space (w : Word) (rest : List Char) :
    Starts (w.text ++ ' ' :: rest) w.text w.token (' ' :: rest) := by
  refine ⟨rfl, w.spelling, ?_⟩
  intro longer t hl hp
  obtain ⟨c, cs, rfl⟩ := hl.ne_nil
  obtain ⟨d, ds, hw⟩ := w.spelling.ne_nil
  obtain rfl : c = d := by
    obtain ⟨r, hr⟩ := hp
    rw [hw] at hr
    exact (List.cons.inj hr).1
  have hs := w.spelling
  rw [hw] at hp hs ⊢
  cases hq : isQuote c with
  | true =>
    obtain ⟨body, rfl, hbody, -⟩ := hs.of_quote hq
    have hstart := starts_of_body hq hbody (' ' :: rest)
    refine hstart.longest _ t hl ?_
    simpa using hp
  | false =>
    refine Nat.le_of_not_lt fun hlt => ?_
    have hspace : (c :: ds) ++ [' '] <+: c :: cs := by
      refine List.prefix_of_prefix_length_le ⟨rest, ?_⟩ hp ?_
      · rw [List.append_assoc, List.singleton_append]
      · rw [List.length_append, List.length_singleton]
        exact hlt
    have hmem : ' ' ∈ c :: cs := hspace.subset (by simp)
    have h := noSpace_of_spelling hl hq ' ' hmem
    cases h

/-- A word, a space and what is read behind them. -/
theorem reads_before_space (w : Word) {part rest : List Char} {ts : List Token}
    (h : Reads part ts rest) : Reads (w.text ++ ' ' :: part) (w.token :: ts) rest := by
  have hspace : afterSpace (' ' :: part) = afterSpace part :=
    List.dropWhile_cons_of_pos (by decide)
  exact .cons (w.starts_before_space part).next (h.congr_left hspace.symm)

/-- The text of some words is read as their tokens. -/
theorem reads_spaced (words : List Word) : Reads (spaced words) (words.map token) [] := by
  induction words with
  | nil => exact .refl _
  | cons w ws ih =>
    have htext : spaced (w :: ws) = w.text ++ ' ' :: spaced ws := by
      rw [spaced, List.flatMap_cons, List.append_assoc, List.singleton_append]
      rfl
    rw [htext, List.map_cons]
    exact w.reads_before_space ih

end Word

end DirectiveQuery
