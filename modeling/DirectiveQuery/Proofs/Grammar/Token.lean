import DirectiveQuery.Expression.Basic
import DirectiveQuery.Grammar.Lexeme
import DirectiveQuery.Text.Alphanumeric

/-
  Tokens and their spellings, stated without any way to find them. A token with one spelling
  stands in a table; identifiers, numbers and strings have rules. A text is read token by
  token: each is as long as any token at its place can be, and spaces may stand before it
  (`Reads`). There is one way at most to read a text (`next_unique`).
-/
namespace DirectiveQuery

/-- The tokens of a query. -/
inductive Token where
  | identifier (name : String)
  | literal (value : Literal)
  | operator (operator : Operator)
  | mark (mark : Mark)
  | comma
  | openParen
  | closeParen
  | openBracket
  | closeBracket
deriving DecidableEq, Repr

namespace Token

/-! ## Spellings -/

/-- The tokens with one spelling. -/
def fixed : List (String × Token) :=
  [("null", .literal .null), ("true", .literal (.boolean true)),
    ("false", .literal (.boolean false)),
    ("in", .operator (.comparison .member)), ("nin", .operator (.comparison .nonMember)),
    ("==", .operator (.comparison .equal)), ("!=", .operator (.comparison .notEqual)),
    (">=", .operator (.comparison .greaterOrEqual)),
    ("<=", .operator (.comparison .lessOrEqual)),
    (">", .operator (.comparison .greater)), ("<", .operator (.comparison .less)),
    ("&&", .operator (.connective .and)), ("||", .operator (.connective .or)),
    ("!", .mark .not), ("+", .mark .plus), ("-", .mark .minus),
    (",", .comma), ("(", .openParen), (")", .closeParen), ("[", .openBracket),
    ("]", .closeBracket)]

/-- Decimal digits, or nothing. -/
def IsDigits (text : List Char) : Prop := ∀ c ∈ text, c.isDigit

/-- `[0-9]+`, `[0-9]+ "." [0-9]*` or `"." [0-9]+`. -/
inductive IsMantissa : List Char → Prop
  | whole {ds : List Char} : ds ≠ [] → IsDigits ds → IsMantissa ds
  | pointed {ds fs : List Char} : ds ≠ [] → IsDigits ds → IsDigits fs →
      IsMantissa (ds ++ '.' :: fs)
  | fraction {fs : List Char} : fs ≠ [] → IsDigits fs → IsMantissa ('.' :: fs)

/-- `([eE] [+-]? [0-9]+)?`. -/
inductive IsExponent : List Char → Prop
  | absent : IsExponent []
  | present {e : Char} {sign ds : List Char} : e ∈ ['e', 'E'] → sign ∈ [[], ['+'], ['-']] →
      ds ≠ [] → IsDigits ds → IsExponent (e :: (sign ++ ds))

/-- A mantissa and an exponent. -/
def IsNumber (text : List Char) : Prop := ∃ m x, IsMantissa m ∧ IsExponent x ∧ text = m ++ x

/-- The inside of a string: pairs of a backslash and any character, and characters other than
a backslash and the quote. -/
inductive IsBody (quote : Char) : List Char → Prop
  | nil : IsBody quote []
  | escaped (c : Char) {body : List Char} : IsBody quote body → IsBody quote ('\\' :: c :: body)
  | plain {c : Char} {body : List Char} : c ≠ quote → c ≠ '\\' → IsBody quote body →
      IsBody quote (c :: body)

/-- The texts that are a token. -/
inductive Spelling : List Char → Token → Prop
  | fixed {text : String} {token : Token} : (text, token) ∈ fixed → Spelling text.toList token
  | identifier {c : Char} {cs : List Char} : Lexeme.isWordStart c →
      (∀ d ∈ cs, Lexeme.isWordChar d) → String.ofList (c :: cs) ∉ Lexeme.keywords →
      Spelling (c :: cs) (.identifier (String.ofList (c :: cs)))
  | number {text : List Char} {n : Numeral} : IsNumber text → Numeral.ofText? text = some n →
      Spelling text (.literal (.number (n.toBinary64 false)))
  | string {quote : Char} {body : List Char} : quote ∈ ['"', '\x27'] → IsBody quote body →
      Spelling (quote :: (body ++ [quote]))
        (.literal (.string (String.ofList (Lexeme.unescape body))))

/-! ## Reading -/

/-- No token at the head of `lexeme ++ rest` is longer than `lexeme`. -/
def Longest (lexeme rest : List Char) : Prop :=
  ∀ longer token, Spelling longer token → longer <+: lexeme ++ rest →
    longer.length ≤ lexeme.length

/-- A text without the spaces at its head. -/
def afterSpace (text : List Char) : List Char := text.dropWhile Lexeme.isSpace

/-- The characters `lexeme` at the head of a text are the token. -/
structure Starts (text lexeme : List Char) (token : Token) (rest : List Char) : Prop where
  eq : text = lexeme ++ rest
  spelling : Spelling lexeme token
  longest : Longest lexeme rest

/-- The first token of a text, behind any spaces, and what follows it. -/
def Next (text : List Char) (token : Token) (rest : List Char) : Prop :=
  ∃ lexeme, Starts (afterSpace text) lexeme token rest

/-- A text is some tokens, with any spaces before each, and then a rest, of which the spaces at
its head do not matter. -/
inductive Reads : List Char → List Token → List Char → Prop
  | nil {text rest : List Char} : afterSpace text = afterSpace rest → Reads text [] rest
  | cons {text middle rest : List Char} {token : Token} {tokens : List Token} :
      Next text token middle → Reads middle tokens rest → Reads text (token :: tokens) rest

/-! ## Heads

The first character of a spelling tells apart words, numbers, strings and everything else. -/

/-- A number may start with the character. -/
def isNumberStart (c : Char) : Bool := c.isDigit || c = '.'

/-- A string starts with the character. -/
def isQuote (c : Char) : Bool := c = '"' || c = '\x27'

theorem isWordChar_of_isWordStart {c : Char} (h : Lexeme.isWordStart c) :
    Lexeme.isWordChar c := by
  grind [Lexeme.isWordStart, Lexeme.isWordChar, Char.isAlphanum]

theorem isDigit_eq_false_of_isWordStart {c : Char} (h : Lexeme.isWordStart c) :
    c.isDigit = false := by
  have h0 : '0'.toNat = 48 := rfl
  have h9 : '9'.toNat = 57 := rfl
  rw [← Bool.not_eq_true, Char.isDigit_iff_toNat]
  simp only [Lexeme.isWordStart, Bool.or_eq_true, decide_eq_true_eq] at h
  rcases h with (h | rfl) | rfl
  · have hc := Text.toNat_of_isAlpha h
    omega
  · decide
  · decide

theorem isNumberStart_eq_false_of_isWordStart {c : Char} (h : Lexeme.isWordStart c) :
    isNumberStart c = false := by
  have hp : c ≠ '.' := by rintro rfl; revert h; decide
  simp [isNumberStart, isDigit_eq_false_of_isWordStart h, hp]

theorem isQuote_eq_false_of_isWordStart {c : Char} (h : Lexeme.isWordStart c) :
    isQuote c = false := by
  by_cases hq : isQuote c
  · simp only [isQuote, Bool.or_eq_true, decide_eq_true_eq] at hq
    rcases hq with rfl | rfl <;> revert h <;> decide
  · simpa using hq

theorem isNumberStart_eq_false_of_isQuote {c : Char} (h : isQuote c) :
    isNumberStart c = false := by
  simp only [isQuote, Bool.or_eq_true, decide_eq_true_eq] at h
  rcases h with rfl | rfl <;> decide

theorem isQuote_iff_mem {c : Char} : isQuote c ↔ c ∈ ['"', '\x27'] := by simp [isQuote]

theorem fixed_heads : ∀ p ∈ fixed, p.1.toList.head?.any fun c =>
    (!Lexeme.isWordStart c || p.1 ∈ Lexeme.keywords) && !isNumberStart c && !isQuote c := by
  decide +kernel

theorem fixed_functional : ∀ p ∈ fixed, ∀ q ∈ fixed, p.1 = q.1 → p.2 = q.2 := by
  decide +kernel

theorem fixed_injective : ∀ p ∈ fixed, ∀ q ∈ fixed, p.2 = q.2 → p.1 = q.1 := by
  decide +kernel

/-- A fixed spelling at the head of another one lacks an equals sign. -/
theorem fixed_isPrefix : ∀ p ∈ fixed, ∀ q ∈ fixed, p.1.toList <+: q.1.toList →
    p.1 = q.1 ∨ p.1 ∈ ["!", "<", ">"] ∧ q.1.toList = p.1.toList ++ ['='] := by
  decide +kernel

theorem IsNumber.head {text : List Char} (h : IsNumber text) :
    ∃ c cs, text = c :: cs ∧ isNumberStart c := by
  obtain ⟨m, x, hm, -, rfl⟩ := h
  have digits : ∀ ds : List Char, ds ≠ [] → IsDigits ds → ∃ c cs, ds = c :: cs ∧ c.isDigit := by
    intro ds hne hd
    cases ds with
    | nil => exact absurd rfl hne
    | cons c cs => exact ⟨c, cs, rfl, hd c (by simp)⟩
  cases hm with
  | whole hne hd =>
    obtain ⟨c, cs, rfl, hc⟩ := digits _ hne hd
    exact ⟨c, _, rfl, by simp [isNumberStart, hc]⟩
  | pointed hne hd _ =>
    obtain ⟨c, cs, rfl, hc⟩ := digits _ hne hd
    exact ⟨c, _, rfl, by simp [isNumberStart, hc]⟩
  | fraction => exact ⟨'.', _, rfl, by decide⟩

/-- A number is made of such characters. -/
def isNumberChar (c : Char) : Bool := c.isDigit || c ∈ ['.', 'e', 'E', '+', '-']

theorem IsNumber.isNumberChar {text : List Char} (h : IsNumber text) :
    ∀ c ∈ text, isNumberChar c := by
  have digits : ∀ {ds : List Char}, IsDigits ds → ∀ c ∈ ds, Token.isNumberChar c := by
    intro ds hd c hc
    rw [Token.isNumberChar, hd c hc, Bool.true_or]
  obtain ⟨m, x, hm, hx, rfl⟩ := h
  refine List.forall_mem_append.2 ⟨?_, ?_⟩
  · cases hm with
    | whole _ hds => exact digits hds
    | pointed _ hds hfs =>
      exact List.forall_mem_append.2 ⟨digits hds, List.forall_mem_cons.2 ⟨by decide, digits hfs⟩⟩
    | fraction _ hfs => exact List.forall_mem_cons.2 ⟨by decide, digits hfs⟩
  · cases hx with
    | absent => simp
    | @present e sign ds he hs _ hds =>
      have hletter : ['e', 'E'].all Token.isNumberChar := by decide
      have hsign : [[], ['+'], ['-']].all fun sign => sign.all Token.isNumberChar := by decide
      exact List.forall_mem_cons.2 ⟨List.all_eq_true.1 hletter e he, List.forall_mem_append.2
        ⟨List.all_eq_true.1 (List.all_eq_true.1 hsign sign hs), digits hds⟩⟩

theorem fixed_head {text : String} {token : Token} {c : Char} {cs : List Char}
    (h : (text, token) ∈ fixed) (ht : text.toList = c :: cs) :
    (Lexeme.isWordStart c → text ∈ Lexeme.keywords) ∧ isNumberStart c = false ∧
      isQuote c = false := by
  have hc := fixed_heads _ h
  rw [ht, List.head?_cons, Option.any_some] at hc
  simpa [Classical.or_iff_not_imp_left, and_assoc] using hc

theorem isWordChar_of_mem_keywords : ∀ w ∈ Lexeme.keywords, w.toList.all Lexeme.isWordChar := by
  decide +kernel

section Inversion

variable {c : Char} {cs : List Char} {token : Token}

theorem Spelling.of_wordStart (h : Spelling (c :: cs) token) (hc : Lexeme.isWordStart c) :
    (∀ d ∈ cs, Lexeme.isWordChar d) ∧
      ((String.ofList (c :: cs), token) ∈ Token.fixed ∨
        String.ofList (c :: cs) ∉ Lexeme.keywords ∧
          token = .identifier (String.ofList (c :: cs))) := by
  generalize ht : c :: cs = text at h
  cases h with
  | @fixed text token hm =>
    have hk := (fixed_head hm ht.symm).1 hc
    have hw := List.all_eq_true.1 (isWordChar_of_mem_keywords _ hk)
    rw [← ht] at hw
    refine ⟨fun d hd => hw d (List.mem_cons_of_mem _ hd), Or.inl ?_⟩
    rw [String.ofList_toList]
    exact hm
  | identifier hd hcs hk =>
    cases ht
    exact ⟨hcs, Or.inr ⟨hk, rfl⟩⟩
  | number hn =>
    obtain ⟨d, ds, rfl, hd⟩ := hn.head
    cases ht
    rw [isNumberStart_eq_false_of_isWordStart hc] at hd
    cases hd
  | string hq =>
    cases ht
    have := isQuote_eq_false_of_isWordStart hc
    rw [isQuote_iff_mem.2 hq] at this
    cases this

theorem Spelling.of_numberStart (h : Spelling (c :: cs) token) (hc : isNumberStart c) :
    IsNumber (c :: cs) ∧ ∃ n, Numeral.ofText? (c :: cs) = some n ∧
      token = .literal (.number (n.toBinary64 false)) := by
  generalize ht : c :: cs = text at h
  cases h with
  | fixed hm =>
    rw [(fixed_head hm ht.symm).2.1] at hc
    cases hc
  | identifier hd =>
    cases ht
    rw [isNumberStart_eq_false_of_isWordStart hd] at hc
    cases hc
  | number hn hv => exact ⟨hn, _, hv, rfl⟩
  | string hq =>
    cases ht
    rw [isNumberStart_eq_false_of_isQuote (isQuote_iff_mem.2 hq)] at hc
    cases hc

theorem Spelling.of_quote (h : Spelling (c :: cs) token) (hc : isQuote c) :
    ∃ body, cs = body ++ [c] ∧ IsBody c body ∧
      token = .literal (.string (String.ofList (Lexeme.unescape body))) := by
  generalize ht : c :: cs = text at h
  cases h with
  | fixed hm =>
    rw [(fixed_head hm ht.symm).2.2] at hc
    cases hc
  | identifier hd =>
    cases ht
    rw [isQuote_eq_false_of_isWordStart hd] at hc
    cases hc
  | number hn =>
    obtain ⟨d, ds, rfl, hd⟩ := hn.head
    cases ht
    rw [isNumberStart_eq_false_of_isQuote hc] at hd
    cases hd
  | string hq hb =>
    cases ht
    exact ⟨_, rfl, hb, rfl⟩

theorem Spelling.of_symbol (h : Spelling (c :: cs) token) (hw : Lexeme.isWordStart c = false)
    (hn : isNumberStart c = false) (hq : isQuote c = false) :
    (String.ofList (c :: cs), token) ∈ Token.fixed := by
  generalize ht : c :: cs = text at h
  cases h with
  | @fixed text token hm =>
    rw [String.ofList_toList]
    exact hm
  | identifier hd =>
    cases ht
    rw [hd] at hw
    cases hw
  | number hm =>
    obtain ⟨d, ds, rfl, hd⟩ := hm.head
    cases ht
    rw [hd] at hn
    cases hn
  | string hd =>
    cases ht
    rw [isQuote_iff_mem.2 hd] at hq
    cases hq

end Inversion

theorem Spelling.ne_nil {text : List Char} {token : Token} (h : Spelling text token) :
    ∃ c cs, text = c :: cs := by
  cases h with
  | fixed hm =>
    obtain ⟨c, hc, -⟩ := (Option.any_eq_true _ _).1 (fixed_heads _ hm)
    obtain ⟨cs, ht⟩ := List.head?_eq_some_iff.1 hc
    exact ⟨c, cs, ht⟩
  | identifier => exact ⟨_, _, rfl⟩
  | number hn =>
    obtain ⟨c, cs, rfl, -⟩ := hn.head
    exact ⟨c, cs, rfl⟩
  | string => exact ⟨_, _, rfl⟩

/-- A text is at most one token. -/
theorem Spelling.functional {text : List Char} {t u : Token} (ht : Spelling text t)
    (hu : Spelling text u) : t = u := by
  obtain ⟨c, cs, rfl⟩ := ht.ne_nil
  by_cases hw : Lexeme.isWordStart c
  · obtain ⟨-, hf | ⟨hk, rfl⟩⟩ := ht.of_wordStart hw
    all_goals obtain ⟨-, hg | ⟨hl, rfl⟩⟩ := hu.of_wordStart hw
    · exact fixed_functional _ hf _ hg rfl
    · exact absurd ((fixed_head hf String.toList_ofList).1 hw) hl
    · exact absurd ((fixed_head hg String.toList_ofList).1 hw) hk
    · rfl
  · by_cases hn : isNumberStart c
    · obtain ⟨-, n, hv, rfl⟩ := ht.of_numberStart hn
      obtain ⟨-, m, hm, rfl⟩ := hu.of_numberStart hn
      rw [hv] at hm
      cases hm
      rfl
    · by_cases hq : isQuote c
      · obtain ⟨b, rfl, -, rfl⟩ := ht.of_quote hq
        obtain ⟨d, he, -, rfl⟩ := hu.of_quote hq
        rw [List.append_cancel_right he]
      · rw [Bool.not_eq_true] at hw hn hq
        exact fixed_functional _ (ht.of_symbol hw hn hq) _ (hu.of_symbol hw hn hq) rfl

/-- A token of the table has no other spelling. -/
theorem Spelling.eq_of_fixed {text : List Char} {word : String} {token : Token}
    (h : Spelling text token) (hw : (word, token) ∈ Token.fixed) : text = word.toList := by
  cases h with
  | fixed hm => exact congrArg String.toList (fixed_injective _ hm _ hw rfl)
  | identifier => simp [Token.fixed] at hw
  | number => simp [Token.fixed] at hw
  | string => simp [Token.fixed] at hw

/-! ## One reading at most -/

theorem Starts.unique {text k l r s : List Char} {t u : Token} (h : Starts text k t r)
    (h' : Starts text l u s) : k = l ∧ t = u ∧ r = s := by
  have hle : k.length ≤ l.length :=
    h'.longest k t h.spelling ⟨r, by rw [← h.eq, h'.eq]⟩
  have hge : l.length ≤ k.length :=
    h.longest l u h'.spelling ⟨s, by rw [← h'.eq, h.eq]⟩
  have heq : k ++ r = l ++ s := by rw [← h.eq, h'.eq]
  obtain ⟨rfl, rfl⟩ := List.append_inj heq (Nat.le_antisymm hle hge)
  exact ⟨rfl, h.spelling.functional h'.spelling, rfl⟩

theorem next_unique {text r s : List Char} {t u : Token} (h : Next text t r)
    (h' : Next text u s) : t = u ∧ r = s := by
  obtain ⟨k, hk⟩ := h
  obtain ⟨l, hl⟩ := h'
  exact (hk.unique hl).2

/-! ## Spaces -/

theorem isSpace_eq_false_of_isWordChar {c : Char} (h : Lexeme.isWordChar c) :
    Lexeme.isSpace c = false := by
  by_cases hs : Lexeme.isSpace c
  · simp only [Lexeme.isSpace, Bool.or_eq_true, decide_eq_true_eq] at hs
    rcases hs with ((rfl | rfl) | rfl) | rfl <;> revert h <;> decide
  · simpa using hs

theorem fixed_noSpace : ∀ p ∈ fixed, ∀ c ∈ p.1.toList, Lexeme.isSpace c = false := by
  have h : ∀ p ∈ fixed, p.1.toList.all fun c => !Lexeme.isSpace c := by decide +kernel
  intro p hp c hc
  simpa using List.all_eq_true.1 (h p hp) c hc

/-- No token starts with a space. -/
theorem Spelling.noSpace_head {c : Char} {cs : List Char} {token : Token}
    (h : Spelling (c :: cs) token) : Lexeme.isSpace c = false := by
  generalize ht : c :: cs = text at h
  cases h with
  | fixed hm => exact fixed_noSpace _ hm c (by simp [← ht])
  | identifier hc =>
    cases ht
    exact isSpace_eq_false_of_isWordChar (isWordChar_of_isWordStart hc)
  | number hn =>
    obtain ⟨d, ds, rfl, hd⟩ := hn.head
    cases ht
    simp only [isNumberStart, Bool.or_eq_true, decide_eq_true_eq] at hd
    rcases hd with hd | rfl
    · exact isSpace_eq_false_of_isWordChar (by simp [Lexeme.isWordChar, Char.isAlphanum, hd])
    · decide
  | string hq =>
    cases ht
    simp only [List.mem_cons, List.not_mem_nil, or_false] at hq
    rcases hq with rfl | rfl <;> decide

theorem afterSpace_cons {c : Char} (h : Lexeme.isSpace c = false) (cs : List Char) :
    afterSpace (c :: cs) = c :: cs :=
  List.dropWhile_cons_of_neg (by simp [h])

theorem afterSpace_afterSpace (text : List Char) :
    afterSpace (afterSpace text) = afterSpace text := by
  cases h : afterSpace text with
  | nil => rfl
  | cons c cs =>
    have hc := List.head?_dropWhile_not Lexeme.isSpace text
    rw [show text.dropWhile Lexeme.isSpace = c :: cs from h] at hc
    exact afterSpace_cons (by simpa using hc) cs

theorem Starts.afterSpace_eq {text lexeme rest : List Char} {token : Token}
    (h : Starts text lexeme token rest) : afterSpace text = text := by
  obtain ⟨c, cs, rfl⟩ := h.spelling.ne_nil
  rw [h.eq]
  exact afterSpace_cons h.spelling.noSpace_head _

theorem Starts.next {text lexeme rest : List Char} {token : Token}
    (h : Starts text lexeme token rest) : Next text token rest :=
  ⟨lexeme, by rwa [h.afterSpace_eq]⟩

theorem next_congr {text other rest : List Char} {token : Token}
    (h : afterSpace text = afterSpace other) :
    Next text token rest ↔ Next other token rest := by
  rw [Next, Next, h]

theorem Next.length_lt {text rest : List Char} {token : Token} (h : Next text token rest) :
    rest.length < (afterSpace text).length := by
  obtain ⟨lexeme, hs⟩ := h
  obtain ⟨c, cs, rfl⟩ := hs.spelling.ne_nil
  rw [hs.eq]
  simp only [List.length_append, List.length_cons]
  omega

/-! ## Reading several tokens -/

theorem length_afterSpace_le (text : List Char) : (afterSpace text).length ≤ text.length :=
  (List.dropWhile_suffix _).length_le

namespace Reads

variable {text other middle rest : List Char} {token : Token} {ts us : List Token}

theorem refl (text : List Char) : Reads text [] text := .nil rfl

theorem single (h : Next text token rest) : Reads text [token] rest := .cons h (refl rest)

theorem cons_iff : Reads text (token :: ts) rest ↔
    ∃ middle, Next text token middle ∧ Reads middle ts rest := by
  constructor
  · rintro (_ | ⟨h, h'⟩)
    exact ⟨_, h, h'⟩
  · rintro ⟨middle, h, h'⟩
    exact .cons h h'

theorem congr_left (h : afterSpace text = afterSpace other) (hr : Reads text ts rest) :
    Reads other ts rest := by
  cases hr with
  | nil he => exact .nil (h ▸ he)
  | cons hn hr => exact .cons ((next_congr h).1 hn) hr

theorem congr_right (h : afterSpace rest = afterSpace other) (hr : Reads text ts rest) :
    Reads text ts other := by
  induction hr with
  | nil he => exact .nil (he.trans h)
  | cons hn _ ih => exact .cons hn (ih h)

theorem append (h : Reads text ts middle) (h' : Reads middle us rest) :
    Reads text (ts ++ us) rest := by
  induction h with
  | nil he => exact h'.congr_left he.symm
  | cons hn _ ih => exact .cons hn (ih h')

theorem append_iff : Reads text (ts ++ us) rest ↔
    ∃ middle, Reads text ts middle ∧ Reads middle us rest := by
  constructor
  · intro h
    induction ts generalizing text with
    | nil => exact ⟨text, refl text, h⟩
    | cons t ts ih =>
      obtain ⟨m, hn, hr⟩ := cons_iff.1 h
      obtain ⟨m', h1, h2⟩ := ih hr
      exact ⟨m', .cons hn h1, h2⟩
  · rintro ⟨middle, h, h'⟩
    exact h.append h'

/-- There is one place at most where some tokens end, up to spaces. -/
theorem rest_unique (h : Reads text ts rest) (h' : Reads text ts other) :
    afterSpace rest = afterSpace other := by
  induction h with
  | nil he =>
    obtain ⟨he'⟩ := h'
    exact he.symm.trans he'
  | cons hn _ ih =>
    obtain ⟨middle, hn', hr⟩ := cons_iff.1 h'
    obtain ⟨-, rfl⟩ := next_unique hn hn'
    exact ih hr

/-- Every token takes at least one character. -/
theorem length_le (h : Reads text ts rest) :
    ts.length + (afterSpace rest).length ≤ (afterSpace text).length := by
  induction h with
  | nil he => simp [he]
  | @cons text middle rest token ts hn _ ih =>
    have h1 := hn.length_lt
    have h2 := length_afterSpace_le middle
    simp only [List.length_cons]
    omega

theorem eq_nil (he : afterSpace text = []) (h : Reads text ts rest) : ts = [] := by
  have hle := h.length_le
  rw [he, List.length_nil] at hle
  exact List.length_eq_zero_iff.1 (by omega)

/-- A whole text is one sequence of tokens at most. -/
theorem tokens_unique (h : Reads text ts []) (h' : Reads text us []) : ts = us := by
  induction ts generalizing text us with
  | nil =>
    obtain ⟨he⟩ := h
    exact (h'.eq_nil he).symm
  | cons t ts ih =>
    obtain ⟨middle, hn, hr⟩ := cons_iff.1 h
    cases us with
    | nil =>
      obtain ⟨he⟩ := h'
      exact h.eq_nil he
    | cons u us =>
      obtain ⟨middle', hn', hr'⟩ := cons_iff.1 h'
      obtain ⟨rfl, rfl⟩ := next_unique hn hn'
      rw [ih hr hr']

end Reads

end Token

end DirectiveQuery
