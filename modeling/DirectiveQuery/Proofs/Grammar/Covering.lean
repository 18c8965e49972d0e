import DirectiveQuery.Proofs.Grammar.Places
import DirectiveQuery.Proofs.Grammar.Unambiguous

/-
  What the matches of a run cover. By the token before it a token opens certain rules: a literal
  where an operand may start opens the rule of an operand with its marks and the rule of one with
  its calls, and an operator opens the rule of its kind. A run that reads some tokens has, for
  each of them and each rule that it opens, a match of that rule from there on (`Covers`). The
  parsers are followed in the manner of pre- and postconditions: `Covered` says at which stage a
  parser starts and at which one it stops, with one lemma for each way to build a parser.
-/
namespace DirectiveQuery

namespace Grammar

open DirectiveQuery.Parser Token

/-- What the tokens before a place have left open there. -/
inductive Stage where
  /-- An operand starts, perhaps with marks. -/
  | operand
  /-- A mark stands before. -/
  | marked
  /-- An operand starts, and the rules that it opens are told elsewhere. -/
  | entered
  /-- An operand stands before. -/
  | ended
deriving DecidableEq

/-- The rule of the operators that join phrases of the level. -/
def levelRule : Level → Rule
  | .disjunction => .orToken
  | .conjunction => .andToken
  | .equality => .equalityToken
  | _ => .relationToken

/-- The stage behind a token. -/
def Stage.after : Token → Stage
  | .identifier _ | .literal _ | .closeParen | .closeBracket => ended
  | .mark _ => marked
  | .operator _ | .comma | .openParen | .openBracket => operand

/-- The stage behind some tokens. -/
def Stage.behind (st : Stage) (ts : List Token) : Stage := ts.foldl (fun _ t => after t) st

/-- The rules that a token opens at a stage. -/
def Stage.opens : Stage → Token → List Rule
  | operand, .literal _ => [.unary, .application]
  | marked, .literal _ => [.application]
  | ended, .openParen => [.arguments]
  | _, .mark _ => [.mark]
  | _, .operator o => [levelRule (operatorLevel o)]
  | _, _ => []

/-- The rule matches at the head of the text ahead, and not nothing. -/
def HasMatch (ms : List Match) (rule : Rule) (ahead : List Char) : Prop :=
  ∃ m ∈ ms, m.rule = rule ∧ m.start.ahead = ahead ∧ ∃ piece ≠ [], ahead = piece ++ m.stop.ahead

/-- The text is read as the tokens, from one stage to another one, and where a token opens a
rule there is a match of it. -/
inductive Covers (ms : List Match) :
    Stage → List Char → List Token → List Char → Stage → Prop
  | nil {st : Stage} {text rest : List Char} : afterSpace text = afterSpace rest →
      Covers ms st text [] rest st
  | cons {st st' : Stage} {text lexeme middle rest : List Char} {t : Token} {ts : List Token} :
      Starts (afterSpace text) lexeme t middle →
      (∀ rule ∈ st.opens t, HasMatch ms rule (afterSpace text)) →
      Covers ms (.after t) middle ts rest st' → Covers ms st text (t :: ts) rest st'

namespace Covers

variable {ms ms' : List Match} {st st' st'' : Stage} {text middle rest : List Char}
  {t : Token} {ts us : List Token}

theorem reads (h : Covers ms st text ts rest st') : Reads text ts rest := by
  induction h with
  | nil he => exact .nil he
  | cons hs _ _ ih => exact .cons ⟨_, hs⟩ ih

theorem mono (hm : ∀ m ∈ ms, m ∈ ms') (h : Covers ms st text ts rest st') :
    Covers ms' st text ts rest st' := by
  induction h with
  | nil he => exact .nil he
  | cons hs ho _ ih =>
    refine .cons hs (fun rule hr => ?_) ih
    obtain ⟨m, hmem, h⟩ := ho rule hr
    exact ⟨m, hm m hmem, h⟩

theorem congr_left {other : List Char} (he : afterSpace text = afterSpace other)
    (h : Covers ms st text ts rest st') : Covers ms st other ts rest st' := by
  cases h with
  | nil he' => exact .nil (he.symm.trans he')
  | cons hs ho h =>
    rw [he] at hs ho
    exact .cons hs ho h

theorem append (h : Covers ms st text ts middle st')
    (h' : Covers ms st' middle us rest st'') : Covers ms st text (ts ++ us) rest st'' := by
  induction h with
  | nil he => exact h'.congr_left he.symm
  | cons hs ho _ ih => exact .cons hs ho (ih h')

/-- From where some tokens have been read, the next one opens its rules. -/
theorem hasMatch (h : Covers ms st text (ts ++ t :: us) rest st') :
    ∃ middle, Reads text ts middle ∧
      ∀ rule ∈ (st.behind ts).opens t, HasMatch ms rule (afterSpace middle) := by
  induction ts generalizing st text with
  | nil =>
    cases h with
    | cons hs ho _ => exact ⟨text, .refl text, ho⟩
  | cons u ts ih =>
    cases h with
    | cons hs ho h =>
      obtain ⟨middle, hts, hm⟩ := ih h
      exact ⟨middle, .cons ⟨_, hs⟩ hts, hm⟩

end Covers

/-! ## Matches of runs -/

section Matched

variable {α β : Type} {p q : Parser α} {c c' : Cursor} {a : α}

theorem matched_bind {f : α → Parser β} (h : Runs p c a c') :
    ((p >>= f) c).matched = (p c).matched ++ (f a c').matched := by
  show (Parser.bind p f c).matched = _
  unfold Runs at h
  unfold Parser.bind
  split <;> simp_all

theorem matched_named {rule : Rule} (h : Runs p c a c') :
    (named rule p c).matched = ⟨rule, c, c'⟩ :: (p c).matched := by
  unfold Runs at h
  unfold named
  split <;> simp_all

theorem matched_orElse_left (h : Runs p c a c') : (orElse p q c).matched = (p c).matched := by
  unfold Runs at h
  unfold orElse
  split <;> simp_all

theorem matched_orElse_right (h : Fails p c) : (orElse p q c).matched = (q c).matched := by
  unfold Fails at h
  unfold orElse
  split <;> simp_all

/-- Runs of a parser one after the other, with their matches. -/
inductive Loops (p : Parser α) : Cursor → List Match → Cursor → Prop
  | nil (c : Cursor) : Loops p c [] c
  | cons {c c' c'' : Cursor} {a : α} {ms : List Match} : Runs p c a c' → Loops p c' ms c'' →
      Loops p c ((p c).matched ++ ms) c''

theorem loops_of_repeatWithin {bound : List Char} {as : List α}
    (h : (repeatWithin p bound c).result = some (as, c')) :
    Loops p c (repeatWithin p bound c).matched c' := by
  induction bound generalizing c as with
  | nil =>
    cases h
    exact .nil _
  | cons ch bound ih =>
    rw [repeatWithin] at h ⊢
    split at h
    · cases h
      exact .nil _
    · next a d m ms hp =>
      obtain ⟨⟨bs, e⟩, hr, he⟩ := Option.map_eq_some_iff.1 h
      cases he
      have hrun : Runs p c a d := by rw [Runs, hp]
      have hloop := Loops.cons hrun (ih hr)
      rw [hp] at hloop
      exact hloop

theorem loops_of_many {as : List α} (h : Runs (many p) c as c') :
    Loops p c (many p c).matched c' :=
  loops_of_repeatWithin h

theorem Loops.repeats {ms : List Match} (h : Loops p c ms c') : ∃ as, Repeats p c as c' := by
  induction h with
  | nil c => exact ⟨[], .nil c⟩
  | cons ha _ ih =>
    obtain ⟨as, has⟩ := ih
    exact ⟨_, .cons ha has⟩

end Matched

/-! ## Parsers from stage to stage -/

/-- The text starts without a space. -/
def trimmed (text : List Char) : Prop := afterSpace text = text

variable {α β : Type} {p q : Parser α} {start : List Char → Prop} {pre : Stage}
  {mid post : Stage → Prop}

/-- From a text of the kind and the stage `pre` on, what the parser reads is covered by its
matches, and the stage behind it is one of `post`. -/
def Covered (start : List Char → Prop) (pre : Stage) (p : Parser α) (post : Stage → Prop) :
    Prop :=
  ∀ c a c', start c.ahead → Runs p c a c' → ∃ n ts st, c' = c.advance n ∧
    Covers (p c).matched pre c.ahead ts c'.ahead st ∧ post st

namespace Covered

theorem pure (a : α) : Covered start pre (Pure.pure a : Parser α) (· = pre) := by
  intro c b c' _ h
  obtain ⟨-, rfl⟩ := runs_pure.1 h
  exact ⟨0, [], pre, rfl, .nil rfl, rfl⟩

theorem here : Covered start pre Parser.here (· = pre) := by
  intro c b c' _ h
  obtain ⟨-, rfl⟩ := runs_here.1 h
  exact ⟨0, [], pre, rfl, .nil rfl, rfl⟩

theorem fail : Covered start pre (Parser.fail : Parser α) post := by
  intro c a c' _ h
  cases h

theorem mono {start' : List Char → Prop} (hs : ∀ text, start' text → start text)
    (hpost : ∀ st, mid st → post st) (h : Covered start pre p mid) :
    Covered start' pre p post := by
  intro c a c' hc hr
  obtain ⟨n, ts, st, hn, hcov, hst⟩ := h c a c' (hs _ hc) hr
  exact ⟨n, ts, st, hn, hcov, hpost st hst⟩

theorem bind {f : α → Parser β} (hp : Covered start pre p mid)
    (hf : ∀ a st, mid st → Covered anywhere st (f a) post) :
    Covered start pre (p >>= f) post := by
  intro c b d hc h
  obtain ⟨a, c', ha, hb⟩ := runs_bind.1 h
  obtain ⟨m, ts, st, rfl, hts, hst⟩ := hp c a c' hc ha
  obtain ⟨n, us, st', rfl, hus, hst'⟩ := hf a st hst _ b d trivial hb
  refine ⟨m + n, ts ++ us, st', Cursor.advance_advance m n c, ?_, hst'⟩
  rw [matched_bind ha]
  exact (hts.mono fun _ => List.mem_append_left _).append
    (hus.mono fun _ => List.mem_append_right _)

theorem weaken {st : Stage} (h : Covered start pre p (· = st)) (hst : post st) :
    Covered start pre p post := by
  refine h.mono (fun _ h => h) ?_
  rintro _ rfl
  exact hst

/-- A parser that leaves one stage, and what comes behind it. -/
theorem bindAt {st : Stage} {f : α → Parser β} (hp : Covered start pre p (· = st))
    (hf : ∀ a, Covered anywhere st (f a) post) : Covered start pre (p >>= f) post :=
  hp.bind fun a _ h => h ▸ hf a

theorem named (rule : Rule) (hp : Covered start pre p post) :
    Covered start pre (Parser.named rule p) post := by
  intro c a c' hc h
  have ha := runs_named.1 h
  obtain ⟨n, ts, st, hn, hcov, hst⟩ := hp c a c' hc ha
  refine ⟨n, ts, st, hn, ?_, hst⟩
  rw [matched_named ha]
  exact hcov.mono fun _ => List.mem_cons_of_mem _

/-- A named parser gives the match that its first token opens. That there is a first token shows
in the stages. -/
theorem opening (inner : Stage) (rule : Rule) (hp : Covered trimmed inner p post)
    (hne : ¬ post inner) (ho : ∀ t, ∀ other ∈ pre.opens t, other = rule ∨ other ∈ inner.opens t) :
    Covered trimmed pre (Parser.named rule p) post := by
  intro c a c' hc h
  have ha := runs_named.1 h
  obtain ⟨n, ts, st, hn, hcov, hst⟩ := hp c a c' hc ha
  have hcovers : Covers (Parser.named rule p c).matched inner c.ahead ts c'.ahead st := by
    rw [matched_named ha]
    exact hcov.mono fun _ => List.mem_cons_of_mem _
  have hlength := hcov.reads.length_le
  cases hcovers with
  | nil => exact absurd hst hne
  | @cons _ _ _ _ _ _ t ts hs hopens hrest =>
    refine ⟨n, t :: ts, st, hn, .cons hs (fun other hother => ?_) hrest, hst⟩
    obtain rfl | hinner := ho t other hother
    · refine ⟨⟨other, c, c'⟩, by rw [matched_named ha]; exact List.mem_cons_self, rfl, hc.symm,
        c.ahead.take n, ?_, ?_⟩
      · intro hnil
        have hsame : c'.ahead = c.ahead := by
          have hsplit := List.take_append_drop n c.ahead
          rwa [hnil, List.nil_append, ← Cursor.ahead_advance, ← hn] at hsplit
        rw [hsame, List.length_cons] at hlength
        omega
      · rw [hc, hn, Cursor.ahead_advance, List.take_append_drop]
    · exact hopens other hinner

theorem orElse (hp : Covered start pre p post) (hq : Covered start pre q post) :
    Covered start pre (Parser.orElse p q) post := by
  intro c a c' hc h
  obtain h | ⟨hf, h⟩ := runs_orElse.1 h
  · rw [matched_orElse_left h]
    exact hp c a c' hc h
  · rw [matched_orElse_right hf]
    exact hq c a c' hc h

/-- A parser that may be left out. -/
theorem withDefault (a : α) (hp : Covered start pre p post) (hpre : post pre) :
    Covered start pre (Parser.withDefault a p) post :=
  hp.orElse ((pure a).weaken hpre)

theorem hereBefore {f : Cursor → Parser β} (hf : ∀ d, Covered start pre (f d) post) :
    Covered start pre (Parser.here >>= f) post := by
  intro c b c' hc h
  obtain ⟨_, _, hhere, hb⟩ := runs_bind.1 h
  obtain ⟨rfl, rfl⟩ := runs_here.1 hhere
  exact hf _ _ b c' hc hb

theorem spanned (hp : Covered start pre p post) :
    Covered start pre (Parser.spanned p) post :=
  hereBefore fun _ => hp.bind fun _ _ hst => here.bindAt fun _ => (pure _).weaken hst

theorem space : Covered start pre Grammar.space (· = pre) := by
  intro c u c' _ h
  obtain rfl := runs_space.1 h
  exact ⟨_, [], pre, rfl, .nil (afterSpace_skip c).symm, rfl⟩

/-- Spaces make no difference. -/
theorem skipSpace (hp : Covered anywhere pre p post) :
    Covered start pre (do Grammar.space; p) post :=
  space.bindAt fun _ => hp

/-- Behind spaces no space is next. -/
theorem spaceBefore (hp : Covered trimmed pre p post) :
    Covered start pre (do Grammar.space; p) post := by
  intro c a c' _ h
  have ha := runs_item.1 h
  obtain ⟨n, ts, st, rfl, hcov, hst⟩ := hp (skip c) a c' (isTrimmed_skip c) ha
  refine ⟨_, ts, st, Cursor.advance_advance _ n c, ?_, hst⟩
  rw [matched_bind (runs_space (u := ()).2 rfl)]
  exact hcov.congr_left (afterSpace_skip c)

/-- Runs again and again keep what every run keeps of the stage. -/
theorem many (hp : ∀ st, post st → Covered anywhere st p post) (hpre : post pre) :
    Covered start pre (Parser.many p) post := by
  intro c as c' hc h
  have hloop := loops_of_many h
  generalize (Parser.many p c).matched = ms at hloop
  clear hc h
  induction hloop generalizing pre with
  | nil c => exact ⟨0, [], pre, rfl, .nil rfl, hpre⟩
  | cons ha _ ih =>
    obtain ⟨m, ts, st, rfl, hts, hst⟩ := hp pre hpre _ _ _ trivial ha
    obtain ⟨n, us, st', rfl, hus, hst'⟩ := ih hst
    refine ⟨m + n, ts ++ us, st', Cursor.advance_advance m n _, ?_, hst'⟩
    exact (hts.mono fun _ => List.mem_append_left _).append
      (hus.mono fun _ => List.mem_append_right _)

theorem manyAt (hp : Covered anywhere pre p (· = pre)) :
    Covered start pre (Parser.many p) (· = pre) :=
  many (fun _ h => h ▸ hp) rfl

/-- A token that opens nothing. -/
theorem token {value : Token → Option α} (hp : Picks anywhere p value) (hs : Strides p)
    (ho : ∀ t a, value t = some a → pre.opens t = [] ∧ post (.after t)) :
    Covered start pre p post := by
  intro c a c' _ h
  obtain ⟨t, lexeme, ht, hstarts⟩ := hp.sound trivial h
  obtain ⟨n, -, hn⟩ := hs c a c' h
  obtain ⟨hopens, hpost⟩ := ho t a ht
  refine ⟨n, [t], .after t, hn, .cons (by rwa [hstarts.afterSpace_eq]) ?_ (.nil rfl), hpost⟩
  rw [hopens]
  exact fun _ h => absurd h List.not_mem_nil

/-- A token that opens the rule of its parser. -/
theorem opened {before : List Char → Prop} {value : Token → Option α} {rule : Rule}
    (hp : Picks before (Parser.named rule p) value) (hs : Strides (Parser.named rule p))
    (ho : ∀ t a, value t = some a → (∀ other ∈ pre.opens t, other = rule) ∧ post (.after t)) :
    Covered before pre (Parser.named rule p) post := by
  intro c a c' hc h
  obtain ⟨t, lexeme, ht, hstarts⟩ := hp.sound hc h
  obtain ⟨n, -, hn⟩ := hs c a c' h
  obtain ⟨hopens, hpost⟩ := ho t a ht
  refine ⟨n, [t], .after t, hn, .cons (by rwa [hstarts.afterSpace_eq]) (fun other hother => ?_)
    (.nil rfl), hpost⟩
  obtain rfl := hopens other hother
  obtain ⟨ch, chs, rfl⟩ := hstarts.spelling.ne_nil
  rw [matched_named (runs_named.1 h), hstarts.afterSpace_eq]
  exact ⟨_, List.mem_cons_self, rfl, rfl, ch :: chs, by simp, hstarts.eq⟩

/-- A token with one spelling that opens nothing. -/
theorem symbol {s : String} {t : Token} (hp : Picks anywhere (Grammar.token s) (only t ()))
    (ho : pre.opens t = []) : Covered start pre (Grammar.token s) (· = .after t) :=
  token hp (.scanned _) fun u a hu => by
    obtain ⟨rfl, -⟩ := only_eq_some.1 hu
    exact ⟨ho, rfl⟩

end Covered

/-! ## The parsers of the grammar -/

section Element

variable {element : Parser Expression}

/-- Expressions are covered from where an operand may start. -/
def CoversExpressions (element : Parser Expression) : Prop :=
  Covered trimmed .operand element (· = .ended)

theorem further_covered (he : CoversExpressions element) :
    Covered start .ended (furtherElements element) (· = .ended) :=
  .manyAt <| .spaceBefore <| (Covered.symbol comma_picks rfl).bindAt fun _ => .spaceBefore he

/-- Behind the elements a comma may stand. -/
theorem elements_covered (he : CoversExpressions element) :
    Covered trimmed .operand (elements element) fun _ => True := by
  have hcomma : Covered anywhere .ended (withDefault () (token ",")) fun _ => True :=
    .withDefault () ((Covered.symbol comma_picks rfl).weaken trivial) trivial
  exact he.bindAt fun first => .skipSpace <| (further_covered he).bindAt fun others =>
    .skipSpace <| hcomma.bind fun _ st _ => (Covered.pure _).weaken trivial

theorem bracketed_covered (he : CoversExpressions element) {opening closing : String}
    {o t : Token} (hopening : Picks anywhere (token opening) (only o ()))
    (ho : pre.opens o = [] ∧ Stage.after o = .operand)
    (hclosing : Picks anywhere (token closing) (only t ()))
    (ht : ∀ st : Stage, st.opens t = [] ∧ Stage.after t = .ended) :
    Covered start pre (bracketed opening closing element) (· = .ended) := by
  have hopen : Covered start pre (token opening) (· = .operand) := ho.2 ▸ .symbol hopening ho.1
  have hclose : ∀ st, Covered anywhere st (token closing) (· = .ended) := fun st =>
    (ht st).2 ▸ .symbol hclosing (ht st).1
  exact hopen.bindAt fun _ => .spaceBefore <|
    ((elements_covered he).withDefault [] trivial).bind fun es st _ => .skipSpace <|
      (hclose st).bindAt fun _ => .pure es

theorem sequence_covered (he : CoversExpressions element) :
    Covered trimmed .operand (sequence element) (· = .ended) :=
  .named _ <| .hereBefore fun _ => he.bindAt fun _ => .skipSpace <|
    (further_covered he).bindAt fun _ => Covered.here.bindAt fun _ => .pure _

theorem literal_covered : Covered start .entered literal (· = .ended) := by
  have hvalue : Covered start .entered _ (· = .ended) :=
    .token literal_picks literal_strides fun t value ht => by
      cases t with
      | literal => exact ⟨rfl, rfl⟩
      | _ => cases ht
  exact hvalue.spanned.bindAt fun _ => .pure _

theorem identifier_covered : Covered start .entered identifier (· = .ended) := by
  have hname : Covered start .entered _ (· = .ended) :=
    .token identifier_picks (.scanned _) fun t value ht => by
      cases t with
      | identifier => exact ⟨rfl, rfl⟩
      | _ => cases ht
  exact .named _ (hname.spanned.bindAt fun _ => .pure _)

theorem group_covered (he : CoversExpressions element) :
    Covered start .entered (group element) (· = .ended) :=
  .named _ <| (Covered.symbol openParen_picks rfl).bindAt fun _ => .spaceBefore <|
    (sequence_covered he).bindAt fun e => .skipSpace <|
      (Covered.symbol closeParen_picks rfl).bindAt fun _ => .pure e

theorem array_covered (he : CoversExpressions element) :
    Covered start .entered (array element) (· = .ended) := by
  have hlist : Covered start .entered (bracketed "[" "]" element) (· = .ended) :=
    bracketed_covered he openBracket_picks ⟨rfl, rfl⟩ closeBracket_picks fun st =>
      ⟨by cases st <;> rfl, rfl⟩
  exact .named _ (hlist.spanned.bindAt fun _ => .pure _)

theorem primary_covered (he : CoversExpressions element) :
    Covered start .entered (primary element) (· = .ended) :=
  literal_covered.orElse ((array_covered he).orElse
    (identifier_covered.orElse ((group_covered he).orElse .fail)))

theorem arguments_covered (he : CoversExpressions element) :
    Covered trimmed .ended (arguments element) (· = .ended) := by
  have hlist : Covered trimmed .entered (bracketed "(" ")" element) (· = .ended) :=
    bracketed_covered he openParen_picks ⟨rfl, rfl⟩ closeParen_picks fun st =>
      ⟨by cases st <;> rfl, rfl⟩
  refine hlist.spanned.opening .entered .arguments (by decide) fun t other h => ?_
  cases t <;> simp_all [Stage.opens]

theorem application_covered (he : CoversExpressions element) :
    Covered trimmed .marked (application element) (· = .ended) := by
  have hcalls : Covered anywhere .ended (spaced (arguments element)) (· = .ended) :=
    .manyAt (.spaceBefore (arguments_covered he))
  refine .opening .entered .application ((primary_covered he).bindAt fun _ =>
    .skipSpace <| hcalls.bindAt fun _ => .pure _) (by decide) fun t other h => ?_
  cases t <;> simp_all [Stage.opens]

theorem chain_covered (rule : Rule) {operator : Parser Operator} {operand : Parser Expression}
    (ho : Covered trimmed .ended operator (· = .operand))
    (hp : Covered trimmed .operand operand (· = .ended)) :
    Covered trimmed .operand (chain rule operator operand) (· = .ended) := by
  have hjoints : Covered anywhere .ended (spaced do
      let o ← operator
      space
      let right ← operand
      return (o, right)) (· = .ended) :=
    .manyAt <| .spaceBefore <| ho.bindAt fun _ => .spaceBefore <| hp.bindAt fun _ => .pure _
  exact .named _ (hp.bindAt fun _ => .skipSpace <| hjoints.bindAt fun _ => .pure _)

/-! ## Marks -/

theorem mark_covered : Covered (unextended "!") .marked mark (· = .marked) :=
  (Covered.opened (mark_picks.named .mark) mark_strides.of_spanned fun t m ht => by
    cases t with
    | mark => exact ⟨by simp [Stage.opens], rfl⟩
    | _ => cases ht).spanned

theorem marks_covered {c c' : Cursor} {ms : List Match} (h : Loops (do space; mark) c ms c')
    (hne : ∀ r, c'.ahead ≠ '=' :: r) : ∃ n ts, c' = c.advance n ∧
      Covers ms .marked c.ahead ts c'.ahead .marked := by
  induction h with
  | nil c => exact ⟨0, [], rfl, .nil rfl⟩
  | @cons c d c' m ms hrun hrest ih =>
    obtain ⟨m, s⟩ := m
    have hmark := runs_item.1 hrun
    obtain ⟨others, hothers⟩ := hrest.repeats
    have hx := unextended_of_marks hmark hothers hne
    obtain ⟨k, ts, _, rfl, hts, rfl⟩ := mark_covered _ _ _ hx hmark
    obtain ⟨l, us, rfl, hus⟩ := ih hne
    refine ⟨_, ts ++ us, by rw [Cursor.advance_advance, skip, Cursor.advance_advance], ?_⟩
    rw [matched_bind (runs_space (u := ()).2 rfl)]
    have hskip := hts.congr_left (afterSpace_skip c)
    exact (hskip.mono fun _ h => List.mem_append_left _ (List.mem_append_right _ h)).append
      (hus.mono fun _ => List.mem_append_right _)

theorem unary_covered {n : Nat} (he : CoversExpressions element)
    (hread : ReadsExpressions n element) :
    Covered trimmed .operand (unary element) (· = .ended) := by
  refine .opening .marked .unary ?_ (by decide) fun t other h => ?_
  · intro c e c' hc h
    simp only [runs_bind, runs_space, runs_pure] at h
    obtain ⟨ms, d, hms, _, _, rfl, operand, _, hoperand, rfl, rfl⟩ := h
    obtain ⟨k, ts, rfl, hts⟩ := marks_covered (loops_of_many hms)
      (ne_equals_of_application hread hoperand)
    obtain ⟨l, us, st, rfl, hus, hst⟩ :=
      application_covered he _ _ _ (isTrimmed_skip _) hoperand
    refine ⟨_, ts ++ us, st, by rw [skip, Cursor.advance_advance, Cursor.advance_advance], ?_, hst⟩
    rw [matched_bind hms, matched_bind (runs_space (u := ()).2 rfl), matched_bind hoperand]
    have hskip := hus.congr_left (afterSpace_skip _)
    refine (hts.mono fun _ => List.mem_append_left _).append (hskip.mono fun _ h => ?_)
    exact List.mem_append_right _ (List.mem_append_right _ (List.mem_append_left _ h))
  · cases t <;> simp_all [Stage.opens]

/-! ## Operators, expressions and queries -/

theorem operator_covered {l : Level} {p : Parser Operator}
    (hp : Picks anywhere (named (levelRule l) p) (operatorOf l))
    (hs : Strides (named (levelRule l) p)) :
    Covered trimmed .ended (named (levelRule l) p) (· = .operand) := by
  have h : Covered anywhere .ended (named (levelRule l) p) (· = .operand) :=
    .opened hp hs fun t o ht => by
      obtain ⟨rfl, rfl⟩ := operatorOf_eq_some.1 ht
      exact ⟨by simp [Stage.opens], rfl⟩
  exact h.mono (fun _ _ => trivial) fun _ h => h

theorem expressionOver_covered {n : Nat} (he : CoversExpressions element)
    (hread : ReadsExpressions n element) : CoversExpressions (expressionOver element) := by
  have hrelation := chain_covered .relation
    (operator_covered (l := .relation) relationToken_picks relationToken_strides)
    (unary_covered he hread)
  have hequality := chain_covered .equality
    (operator_covered (l := .equality) equalityToken_picks equalityToken_strides) hrelation
  have hconjunction := chain_covered .conjunction
    (operator_covered (l := .conjunction) andToken_picks andToken_strides) hequality
  have hdisjunction := chain_covered .disjunction
    (operator_covered (l := .disjunction) orToken_picks orToken_strides) hconjunction
  exact hdisjunction.named .expression

end Element

theorem expressionWithin_covered (depth : Nat) : CoversExpressions (expressionWithin depth) := by
  induction depth with
  | zero => exact .fail
  | succ depth ih => exact expressionOver_covered ih (expressionWithin_reads depth)

theorem endOfText_covered : Covered start pre endOfText (· = pre) := by
  intro c u c' _ h
  obtain ⟨-, rfl⟩ := runs_endOfText.1 h
  exact ⟨0, [], pre, rfl, .nil rfl, rfl⟩

theorem ahead_of_program {text : List Char} {e : Expression} {c' : Cursor}
    (h : Runs program (Cursor.start text) e c') : c'.ahead = [] := by
  rw [runs_program] at h
  simp only [runs_named, runs_bind, runs_space, runs_pure, runs_endOfText] at h
  obtain ⟨_, _, rfl, e, d, hd, _, _, rfl, _, _, ⟨hend, rfl⟩, rfl, rfl⟩ := h
  exact hend

/-- The matches of a whole query cover its tokens. -/
theorem program_covered {text : List Char} {e : Expression} {c' : Cursor}
    (h : Runs program (Cursor.start text) e c') :
    ∃ ts st, Covers (program (Cursor.start text)).matched .operand text ts [] st := by
  have hsequence :=
    sequence_covered (expressionWithin_covered ((Cursor.start text).ahead.length + 1))
  have hbody : Covered anywhere .operand _ (· = .ended) :=
    .spaceBefore <| hsequence.bindAt fun e => .skipSpace <|
      (endOfText_covered.named .endOfText).bindAt fun _ => .pure e
  have hrun := runs_program.1 h
  obtain ⟨n, ts, st, -, hts, -⟩ := hbody (Cursor.start text) e c' trivial hrun
  rw [ahead_of_program h] at hts
  have hmatched : (program (Cursor.start text)).matched = _ := matched_named hrun
  refine ⟨ts, st, ?_⟩
  rw [hmatched]
  exact hts.mono fun _ => List.mem_cons_of_mem _

end Grammar

end DirectiveQuery
