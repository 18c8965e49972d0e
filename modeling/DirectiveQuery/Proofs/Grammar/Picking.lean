import DirectiveQuery.Proofs.Grammar.Derivation
import DirectiveQuery.Proofs.Grammar.Number
import DirectiveQuery.Proofs.Grammar.Running
import DirectiveQuery.Proofs.Grammar.Scanning

/-
  The parsers of one token. Such a parser reads the token at the head of the text if the token
  has a value, and fails otherwise. The symbols with an equals sign are tried before the ones
  without it, so that `>` is asked only where `>=` has failed; `!` is asked where `!=` may
  stand, and is wrong there.
-/
namespace DirectiveQuery.Grammar

open DirectiveQuery.Parser Token

variable {α β : Type} {p q : Parser α} {c c' : Cursor}

/-- Before the texts of a kind, the parser reads the token at the head of the text exactly if
the token has a value. -/
structure Picks (before : List Char → Prop) (p : Parser α) (value : Token → Option α) :
    Prop where
  sound : ∀ {c c' : Cursor} {a : α}, before c.ahead → Runs p c a c' →
    ∃ t lexeme, value t = some a ∧ Starts c.ahead lexeme t c'.ahead
  complete : ∀ {c : Cursor} {t : Token} {lexeme rest : List Char} {a : α}, before c.ahead →
    Starts c.ahead lexeme t rest → value t = some a → ∃ c', Runs p c a c'

/-- Any text. -/
def anywhere (_ : List Char) : Prop := True

/-- The value of one token. -/
def only (token : Token) (a : α) (t : Token) : Option α := if t = token then some a else none

theorem only_eq_some {token t : Token} {a b : α} :
    only token a t = some b ↔ t = token ∧ b = a := by
  unfold only
  split <;> simp_all [eq_comm]

namespace Picks

variable {before before' : List Char → Prop} {value value' : Token → Option α}

theorem congr (h : Picks before p value) (hv : ∀ t, value t = value' t) :
    Picks before p value' := by
  rwa [← funext hv]

theorem named (rule : Rule) (h : Picks before p value) :
    Picks before (named rule p) value where
  sound hb hr := h.sound hb (runs_named.1 hr)
  complete hb hs hv := by
    obtain ⟨c', hr⟩ := h.complete hb hs hv
    exact ⟨c', runs_named.2 hr⟩

theorem map (h : Picks before p value) (f : α → β) :
    Picks before (p >>= fun a => Pure.pure (f a)) fun t => (value t).map f where
  sound hb hr := by
    obtain ⟨a, d, hp, hf⟩ := runs_bind.1 hr
    obtain ⟨rfl, rfl⟩ := runs_pure.1 hf
    obtain ⟨t, lexeme, hv, hs⟩ := h.sound hb hp
    exact ⟨t, lexeme, by rw [hv, Option.map_some], hs⟩
  complete hb hs hv := by
    obtain ⟨a, ha, rfl⟩ := Option.map_eq_some_iff.1 hv
    obtain ⟨c', hr⟩ := h.complete hb hs ha
    exact ⟨c', runs_bind.2 ⟨a, c', hr, runs_pure.2 ⟨rfl, rfl⟩⟩⟩

/-- The parser fails before a token without a value. -/
theorem fails (h : Picks before p value) {c : Cursor} {t : Token} {lexeme rest : List Char}
    (hb : before c.ahead) (hs : Starts c.ahead lexeme t rest) (hv : value t = none) :
    Fails p c := by
  rw [fails_iff]
  intro a c' hr
  obtain ⟨u, other, hu, ho⟩ := h.sound hb hr
  obtain ⟨-, rfl, -⟩ := hs.unique ho
  rw [hv] at hu
  cases hu

/-- The second one of two parsers needs to pick its tokens only where the first one fails. -/
theorem orElse (hp : Picks before p value) (hq : Picks before' q value')
    (hb : ∀ {c : Cursor}, before c.ahead → Fails p c → before' c.ahead) :
    Picks before (orElse p q) fun t => (value t).or (value' t) where
  sound := by
    intro c c' a hc hr
    obtain hr | ⟨hf, hr⟩ := runs_orElse.1 hr
    · obtain ⟨t, lexeme, hv, hs⟩ := hp.sound hc hr
      exact ⟨t, lexeme, by rw [hv, Option.some_or], hs⟩
    · obtain ⟨t, lexeme, hv, hs⟩ := hq.sound (hb hc hf) hr
      refine ⟨t, lexeme, ?_, hs⟩
      cases hpv : value t with
      | none => rw [hv, Option.none_or]
      | some b =>
        obtain ⟨d, hd⟩ := hp.complete hc hs hpv
        exact absurd hd (fails_iff.1 hf b d)
  complete := by
    intro c t lexeme rest a hc hs hv
    cases hpv : value t with
    | some b =>
      rw [hpv, Option.some_or, Option.some.injEq] at hv
      obtain ⟨c', hr⟩ := hp.complete hc hs (hv ▸ hpv)
      exact ⟨c', runs_orElse.2 (.inl hr)⟩
    | none =>
      rw [hpv, Option.none_or] at hv
      have hf : Fails p c := hp.fails hc hs hpv
      obtain ⟨c', hr⟩ := hq.complete (hb hc hf) hs hv
      exact ⟨c', runs_orElse.2 (.inr ⟨hf, hr⟩)⟩

theorem or (hp : Picks anywhere p value) (hq : Picks anywhere q value') :
    Picks anywhere (Parser.orElse p q) fun t => (value t).or (value' t) :=
  hp.orElse hq fun _ _ => trivial

theorem fail_picks : Picks before (Parser.fail : Parser α) fun _ => none where
  sound _ hr := by cases hr
  complete _ _ hv := by cases hv

/-- Before the next token, the parser finds its value and stops behind it. -/
theorem stop (h : Picks before p value) {a : α} {t : Token} {rest : List Char}
    (hb : before c.ahead) (ht : IsTrimmed c) (hn : Next c.ahead t rest)
    (hv : value t = some a) : ∃ c', Runs p c a c' ∧ c'.ahead = rest := by
  obtain ⟨lexeme, hs⟩ := hn
  rw [ht] at hs
  obtain ⟨c', hr⟩ := h.complete hb hs hv
  obtain ⟨u, other, -, ho⟩ := h.sound hb hr
  exact ⟨c', hr, (ho.unique hs).2.2⟩

end Picks

theorem starts_of_scan {scan : List Char → Option (α × List Char)} {token : α → Token}
    (hf : Finds scan token) {a : α} (hr : Runs (scanned scan) c a c') :
    ∃ lexeme, Starts c.ahead lexeme (token a) c'.ahead := by
  obtain ⟨lexeme, hs, rfl⟩ := runs_scanned.1 hr
  obtain ⟨rest, h⟩ := hf.sound hs
  have hrest : (c.advance lexeme.length).ahead = rest := by
    rw [Cursor.ahead_advance, h.eq, List.drop_left]
  exact ⟨lexeme, hrest ▸ h⟩

theorem scanned_picks {scan : List Char → Option (α × List Char)} {token : α → Token}
    {value : Token → Option α} (hf : Finds scan token)
    (hv : ∀ {t a}, value t = some a ↔ t = token a) : Picks anywhere (scanned scan) value where
  sound _ hr := by
    obtain ⟨lexeme, hs⟩ := starts_of_scan hf hr
    exact ⟨_, lexeme, hv.2 rfl, hs⟩
  complete _ hs ht := by
    obtain rfl := hv.1 ht
    exact ⟨_, runs_scanned.2 ⟨_, hf.complete hs, rfl⟩⟩

theorem keyword_picks (rule : Rule) (word : String) (token : Token)
    (hk : word ∈ Lexeme.keywords) (hf : (word, token) ∈ fixed) (meaning : α) :
    Picks anywhere (keyword rule word meaning) (only token meaning) := by
  have h : Picks anywhere (scanned (Lexeme.keyword? word)) (only token ()) :=
    scanned_picks (keyword_finds hk hf) (by simp [only_eq_some])
  refine ((h.map fun _ => meaning).named rule).congr fun t => ?_
  unfold only
  split <;> rfl

/-! ## Symbols -/

/-- The characters of the symbol and an equals sign do not come first. -/
def unextended (s : String) (text : List Char) : Prop := ¬ s.toList ++ ['='] <+: text

theorem ahead_of_token {s : String} {u : Unit} (h : Runs (token s) c u c') :
    c.ahead = s.toList ++ c'.ahead := by
  obtain ⟨lexeme, hscan, rfl⟩ := runs_scanned.1 h
  unfold Lexeme.exactly? at hscan
  split at hscan
  · next hprefix =>
    cases hscan
    obtain ⟨rest, hrest⟩ := List.isPrefixOf_iff_prefix.1 hprefix
    rw [Cursor.ahead_advance, ← hrest, List.drop_left]
  · cases hscan

theorem fails_token {s : String} : Fails (token s) c ↔ ¬ s.toList <+: c.ahead := by
  rw [token, Fails, result_scanned, Lexeme.exactly?]
  split
  · next h => simpa using List.isPrefixOf_iff_prefix.1 h
  · next h => simpa using fun hp => h (List.isPrefixOf_iff_prefix.2 hp)

theorem fails_tokenFor {s : String} {a : α} :
    Fails (tokenFor s a) c ↔ ¬ s.toList <+: c.ahead := by
  rw [← fails_token, tokenFor]
  simp only [fails_iff, runs_bind, runs_pure]
  constructor
  · intro h u d hr
    exact h a d ⟨u, d, hr, rfl, rfl⟩
  · rintro h b d ⟨u, e, hr, rfl, rfl⟩
    exact h u d hr

theorem token_picks {s : String} {t : Token} {before : List Char → Prop} (hs : (s, t) ∈ fixed)
    (hk : s ∉ Lexeme.keywords)
    (hb : s ∈ ["!", "<", ">"] → ∀ {text}, before text → unextended s text) :
    Picks before (token s) (only t ()) where
  sound := by
    intro c c' a hc hr
    obtain ⟨lexeme, h, rfl⟩ := runs_scanned.1 hr
    unfold Lexeme.exactly? at h
    split at h
    · next hp =>
      cases h
      obtain ⟨rest, hrest⟩ := List.isPrefixOf_iff_prefix.1 hp
      refine ⟨t, s.toList, only_eq_some.2 ⟨rfl, rfl⟩, ?_⟩
      rw [Cursor.ahead_advance, ← hrest, List.drop_left]
      refine starts_of_symbol hs hk fun hx he => hb hx hc ?_
      obtain ⟨r, rfl⟩ := List.head?_eq_some_iff.1 he
      exact ⟨r, by rw [List.append_assoc]; exact hrest⟩
    · cases h
  complete := by
    intro c u lexeme rest a _ h hv
    obtain ⟨rfl, rfl⟩ := only_eq_some.1 hv
    obtain rfl := h.spelling.eq_of_fixed hs
    refine ⟨_, runs_scanned.2 ⟨s.toList, ?_, rfl⟩⟩
    rw [Lexeme.exactly?, if_pos (List.isPrefixOf_iff_prefix.2 ⟨rest, h.eq.symm⟩)]

theorem tokenFor_picks (s : String) (t : Token) (meaning : α) {before : List Char → Prop}
    (hs : (s, t) ∈ fixed) (hk : s ∉ Lexeme.keywords)
    (hb : s ∈ ["!", "<", ">"] → ∀ {text}, before text → unextended s text) :
    Picks before (tokenFor s meaning) (only t meaning) := by
  refine ((token_picks hs hk hb).map fun _ => meaning).congr fun u => ?_
  unfold only
  split <;> rfl

/-! ## The tokens of the grammar -/

/-- The value of a literal. -/
def literalOf : Token → Option Literal
  | .literal value => some value
  | _ => none

/-- The name of an identifier. -/
def identifierOf : Token → Option String
  | .identifier name => some name
  | _ => none

/-- The mark before an operand. -/
def markOf : Token → Option Mark
  | .mark m => some m
  | _ => none

/-- The operator, of those that join phrases of the level. -/
def operatorOf (l : Level) : Token → Option Operator
  | .operator o => if operatorLevel o = l then some o else none
  | _ => none

theorem operatorOf_eq_some {l : Level} {t : Token} {o : Operator} :
    operatorOf l t = some o ↔ t = .operator o ∧ operatorLevel o = l := by
  cases t with
  | operator o' =>
    simp only [operatorOf, Option.ite_none_right_eq_some, Option.some.injEq, Token.operator.injEq]
    constructor
    · rintro ⟨h, rfl⟩
      exact ⟨rfl, h⟩
    · rintro ⟨rfl, h⟩
      exact ⟨h, rfl⟩
  | _ => simp [operatorOf]

theorem identifier_picks : Picks anywhere (scanned Lexeme.identifier?) identifierOf :=
  scanned_picks identifier_finds fun {t a} => by cases t <;> simp [identifierOf]

theorem boolean_picks : Picks anywhere (scanned Lexeme.boolean?) fun
    | .literal (.boolean b) => some b
    | _ => none :=
  scanned_picks boolean_finds fun {t a} => by
    split
    · simp
    · next h => simpa using h a

theorem number_picks : Picks anywhere (scanned Lexeme.number?) fun
    | .literal (.number x) => some x
    | _ => none :=
  scanned_picks number_finds fun {t a} => by
    split
    · simp
    · next h => simpa using h a

theorem string_picks : Picks anywhere (scanned Lexeme.string?) fun
    | .literal (.string s) => some s
    | _ => none :=
  scanned_picks string_finds fun {t a} => by
    split
    · simp
    · next h => simpa using h a

theorem literal_picks : Picks anywhere (firstOf
    [keyword .nullWord "null" Literal.null,
      named .booleanWord do return Literal.boolean (← scanned Lexeme.boolean?),
      named .number do return Literal.number (← scanned Lexeme.number?),
      named .string do return Literal.string (← scanned Lexeme.string?)]) literalOf := by
  have hnull : Picks anywhere (keyword .nullWord "null" Literal.null) _ :=
    keyword_picks _ _ (.literal .null) (by decide) (by decide) _
  have hboolean := (boolean_picks.map Literal.boolean).named .booleanWord
  have hnumber := (number_picks.map Literal.number).named .number
  have hstring := (string_picks.map Literal.string).named .string
  refine (hnull.or (hboolean.or (hnumber.or (hstring.or .fail_picks)))).congr fun t => ?_
  cases t with
  | literal value => cases value <;> rfl
  | _ => rfl

/-- A symbol that no other symbol starts with. -/
theorem plain_picks (s : String) (t : Token) (meaning : α) (hs : (s, t) ∈ fixed)
    (hk : s ∉ Lexeme.keywords) (hx : s ∉ ["!", "<", ">"]) :
    Picks anywhere (tokenFor s meaning) (only t meaning) :=
  tokenFor_picks s t meaning hs hk fun h => absurd h hx

theorem punctuation_picks (s : String) (t : Token) (hs : (s, t) ∈ fixed)
    (hk : s ∉ Lexeme.keywords) (hx : s ∉ ["!", "<", ">"]) :
    Picks anywhere (token s) (only t ()) :=
  token_picks hs hk fun h => absurd h hx

theorem orToken_picks : Picks anywhere orToken (operatorOf .disjunction) := by
  have hor := plain_picks "||" (.operator (.connective .or)) (Operator.connective .or)
    (by decide) (by decide) (by decide)
  refine (hor.named .orToken).congr fun t => ?_
  cases t with
  | operator o => rcases o with o | o <;> cases o <;> rfl
  | _ => rfl

theorem andToken_picks : Picks anywhere andToken (operatorOf .conjunction) := by
  have hand := plain_picks "&&" (.operator (.connective .and)) (Operator.connective .and)
    (by decide) (by decide) (by decide)
  refine (hand.named .andToken).congr fun t => ?_
  cases t with
  | operator o => rcases o with o | o <;> cases o <;> rfl
  | _ => rfl

theorem equalityToken_picks : Picks anywhere equalityToken (operatorOf .equality) := by
  have hequal := plain_picks "==" (.operator (.comparison .equal)) (Operator.comparison .equal)
    (by decide) (by decide) (by decide)
  have hother := plain_picks "!=" (.operator (.comparison .notEqual))
    (Operator.comparison .notEqual) (by decide) (by decide) (by decide)
  refine ((hequal.or (hother.or .fail_picks)).named .equalityToken).congr fun t => ?_
  cases t with
  | operator o => rcases o with o | o <;> cases o <;> rfl
  | _ => rfl

/-- The text starts with neither of the symbols that `>` and `<` can go on to. -/
def noBound (text : List Char) : Prop := unextended ">" text ∧ unextended "<" text

theorem relationToken_picks : Picks anywhere relationToken (operatorOf .relation) := by
  have hgreaterOrEqual := plain_picks ">=" (.operator (.comparison .greaterOrEqual))
    (Operator.comparison .greaterOrEqual) (by decide) (by decide) (by decide)
  have hlessOrEqual : Picks (unextended ">") _ _ := tokenFor_picks "<="
    (.operator (.comparison .lessOrEqual)) (Operator.comparison .lessOrEqual) (by decide)
    (by decide) fun h => absurd h (by decide)
  have hgreater : Picks noBound _ _ := tokenFor_picks ">" (.operator (.comparison .greater))
    (Operator.comparison .greater) (by decide) (by decide) fun _ _ h => h.1
  have hless : Picks noBound _ _ := tokenFor_picks "<" (.operator (.comparison .less))
    (Operator.comparison .less) (by decide) (by decide) fun _ _ h => h.2
  have hnonMember := keyword_picks .nonMemberWord "nin" (.operator (.comparison .nonMember))
    (by decide) (by decide) (Operator.comparison .nonMember)
  have hmember := keyword_picks .memberWord "in" (.operator (.comparison .member))
    (by decide) (by decide) (Operator.comparison .member)
  have hwords := hnonMember.or (hmember.or .fail_picks)
  have hbare := hgreater.orElse (hless.orElse hwords fun _ _ => trivial) fun h _ => h
  have hall := hgreaterOrEqual.orElse
    (hlessOrEqual.orElse hbare fun h hf => ⟨h, fails_tokenFor.1 hf⟩)
    fun _ hf => fails_tokenFor.1 hf
  refine (hall.named .relationToken).congr fun t => ?_
  cases t with
  | operator o => rcases o with o | o <;> cases o <;> rfl
  | _ => rfl

/-- The marks, wherever no `!=` stands. -/
theorem mark_picks : Picks (unextended "!")
    (firstOf [tokenFor "!" Mark.not, tokenFor "+" Mark.plus, tokenFor "-" Mark.minus]) markOf := by
  have hnot : Picks (unextended "!") _ _ := tokenFor_picks "!" (.mark .not) Mark.not
    (by decide) (by decide) fun _ _ ht => ht
  have hplus := plain_picks "+" (.mark .plus) Mark.plus (by decide) (by decide) (by decide)
  have hminus := plain_picks "-" (.mark .minus) Mark.minus (by decide) (by decide) (by decide)
  refine (hnot.orElse (hplus.or (hminus.or .fail_picks)) fun _ _ => trivial).congr fun t => ?_
  cases t with
  | mark m => cases m <;> rfl
  | _ => rfl

theorem notEqual_eq : "!=".toList = "!".toList ++ ['='] := by decide

/-- Where a mark is the next token, no `!=` stands. -/
theorem unextended_of_mark {text lexeme rest : List Char} {m : Mark}
    (h : Starts text lexeme (.mark m) rest) : unextended "!" text := by
  intro hp
  rw [← notEqual_eq] at hp
  obtain ⟨r, rfl⟩ := hp
  have hn : Starts ("!=".toList ++ r) "!=".toList (.operator (.comparison .notEqual)) r :=
    starts_of_symbol (by decide) (by decide) fun h => absurd h (by decide)
  obtain ⟨-, ht, -⟩ := h.unique hn
  cases ht

theorem ahead_of_mark {m : Mark} {s : Span} (hr : Runs mark c (m, s) c') :
    c.ahead = m.token.toList ++ c'.ahead := by
  have htoken : ∀ m' : Mark, Runs (tokenFor m'.token m') c m c' →
      c.ahead = m.token.toList ++ c'.ahead := by
    intro m' h
    obtain ⟨u, d, hd, hp⟩ := runs_bind.1 h
    obtain ⟨rfl, rfl⟩ := runs_pure.1 hp
    exact ahead_of_token hd
  rw [mark, runs_spanned, runs_named] at hr
  obtain hr | ⟨-, hr⟩ := runs_orElse.1 hr.1
  · exact htoken .not hr
  obtain hr | ⟨-, hr⟩ := runs_orElse.1 hr
  · exact htoken .plus hr
  obtain hr | ⟨-, hr⟩ := runs_orElse.1 hr
  · exact htoken .minus hr
  · cases hr

/-- A mark is one character. -/
theorem mark_head {m : Mark} {s : Span} (hr : Runs mark c (m, s) c') :
    ∃ ch ∈ ['!', '+', '-'], c.ahead = ch :: c'.ahead := by
  rw [ahead_of_mark hr]
  cases m with
  | not => exact ⟨'!', by simp, rfl⟩
  | plus => exact ⟨'+', by simp, rfl⟩
  | minus => exact ⟨'-', by simp, rfl⟩

end DirectiveQuery.Grammar
