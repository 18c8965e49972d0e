import DirectiveQuery.Proofs.Grammar.Blaming
import DirectiveQuery.Proofs.Grammar.Completing
import DirectiveQuery.Proofs.Grammar.Cutting
import DirectiveQuery.Proofs.Grammar.Placing

/-
  Parsers are run where they have a right to be. At a place of a text, with some tokens read
  before it (`Context`), a parser is run only if a phrase of its kind may stand behind those
  tokens. So whatever it blames is a rule with which a query could go on (`Expected`). One
  parser hands this on to the next one with the tokens that it read; into brackets it is carried
  by induction on their depth.
-/
namespace DirectiveQuery.Grammar

open DirectiveQuery.Parser Token Misses Cursor

variable {text : List Char} {ts us : List Token} {i j n : Nat}
  {c c' : Cursor} {element : Parser Expression} {l : Level} {rule : Rule} {b : Nat}

/-! ## Places in a query -/

/-- The tokens stand before place `i` of the text, and no space is next. -/
structure Context (text : List Char) (ts : List Token) (i : Nat) : Prop where
  le : i ≤ text.length
  reads : Reads text ts (text.drop i)
  trimmed : trimmed (text.drop i)

/-- An operand is to come, if only behind further marks. -/
def Stage.Awaits (st : Stage) : Prop := st = operand ∨ st = marked

/-- A query can go on with the word behind the tokens, the word opens the rule there, and it
stands apart from any token before it. -/
structure Continues (ts : List Token) (rule : Rule) (w : Word) : Prop where
  completes : Completes (ts ++ [w.token])
  opens : rule ∈ (Stage.operand.behind ts).opens w.token
  breaks : ∃ ch ∈ breaking, w.text.head? = some ch

/-- At the byte position a text could go on with the rule to become a query. -/
def Expected (text : List Char) (rule : Rule) (byte : Nat) : Prop :=
  ∃ k ts w, k ≤ text.length ∧ (place text k).byte = byte ∧ Reads (text.take k) ts [] ∧
    Continues ts rule w

theorem context_skip (hi : i ≤ text.length) (hr : Reads text ts (text.drop i)) :
    ∃ j, i ≤ j ∧ skip (place text i) = place text j ∧ Context text ts j := by
  obtain ⟨j, hj, hskip, hij, -⟩ := skip_place hi
  have hahead : text.drop j = afterSpace (text.drop i) := by
    rw [← ahead_place, ← hskip, ahead_skip, ahead_place]
  refine ⟨j, hij, hskip, hj, hr.congr_right ?_, ?_⟩
  · rw [hahead, afterSpace_afterSpace]
  · rw [trimmed, hahead, afterSpace_afterSpace]

theorem length_drop_le (text : List Char) (h : i ≤ j) :
    (text.drop j).length ≤ (text.drop i).length := by
  rw [List.length_drop, List.length_drop]
  omega

namespace Context

theorem cut (h : Context text ts i) : Reads (text.take i) ts [] :=
  Reads.cut (by rw [List.take_append_drop]; exact h.reads) h.trimmed

theorem expected {w : Word} (h : Context text ts i) (hw : Continues ts rule w) :
    Expected text rule (place text i).byte :=
  ⟨i, ts, w, h.le, rfl, h.cut, hw⟩

/-- From one place in a query to the next one, over tokens and the spaces behind them. -/
theorem advance (h : Context text ts i)
    (hc : ∃ n ≤ (place text i).ahead.length, c' = (place text i).advance n)
    (hus : Reads (place text i).ahead us c'.ahead) :
    ∃ j, i ≤ j ∧ skip c' = place text j ∧ Context text (ts ++ us) j := by
  obtain ⟨n, hn, rfl⟩ := hc
  rw [ahead_place, List.length_drop] at hn
  rw [advance_place, ahead_place, ahead_place] at hus
  have hle := h.le
  obtain ⟨j, hj, hskip, hctx⟩ :=
    context_skip (i := i + n) (by omega) (h.reads.append hus)
  exact ⟨j, by omega, by rw [advance_place, hskip], hctx⟩

/-- Over one token. -/
theorem token {s : String} {t : Token} (h : Context text ts i)
    (hs : Picks anywhere (Grammar.token s) (only t ())) (hne : s.toList ≠ [])
    (hr : Runs (Grammar.token s) (place text i) () c') :
    ∃ j, (text.drop j).length < (text.drop i).length ∧ skip c' = place text j ∧
      Context text (ts ++ [t]) j := by
  obtain ⟨j, -, hskip, hctx⟩ := h.advance ((token_onward s).strides _ _ _ hr) (hs.reads_only hr)
  have hlt := length_skip_lt_of_token hne hr
  rw [hskip, ahead_place, ahead_place] at hlt
  exact ⟨j, hlt, hskip, hctx⟩

end Context

/-! ## Words to go on with -/

theorem breaks_quoted : ∃ ch ∈ breaking, (Word.quoted "").text.head? = some ch :=
  ⟨'"', by decide, rfl⟩

/-- A query that goes on with an operand can go on with a string. -/
theorem Admits.continues (h : Admits l ts)
    (ho : rule ∈ (Stage.operand.behind ts).opens (Word.quoted "").token) :
    Continues ts rule (Word.quoted "") :=
  ⟨h.completes_string, ho, breaks_quoted⟩

theorem Admits.continues_application (h : Admits .application ts)
    (hst : (Stage.operand.behind ts).Awaits) :
    Continues ts .application (Word.quoted "") := by
  refine h.continues ?_
  obtain hst | hst := hst <;> rw [hst] <;> decide

theorem Admits.continues_mark (h : Admits .unary ts) : Continues ts .mark (Word.mark .not) :=
  ⟨h.completes_mark .not, by cases Stage.operand.behind ts <;> decide, '!', by decide, rfl⟩

theorem Admits.continues_call {e : Expression} (h : Admits .application ts)
    (hp : Phrase .application us e) : Continues (ts ++ us) .arguments Word.openParen where
  completes := h.completes_call hp
  opens := by
    rw [hp.behind]
    decide
  breaks := ⟨'(', by decide, rfl⟩

/-- Each level has an operator that starts unlike any other token. -/
theorem exists_operator (hl : l.isChain) : ∃ o : Operator, operatorLevel o = l ∧
    ∃ ch ∈ breaking, (Word.operator o).text.head? = some ch := by
  cases l with
  | disjunction => exact ⟨.connective .or, rfl, '|', by decide, rfl⟩
  | conjunction => exact ⟨.connective .and, rfl, '&', by decide, rfl⟩
  | equality => exact ⟨.comparison .notEqual, rfl, '!', by decide, rfl⟩
  | relation => exact ⟨.comparison .less, rfl, '<', by decide, rfl⟩
  | _ => cases hl

theorem Admits.continues_operator {e : Expression} (h : Admits l ts) (hl : l.isChain)
    (hp : Phrase l us e) : ∃ w, Continues (ts ++ us) (levelRule l) w := by
  obtain ⟨o, rfl, hbreaks⟩ := exists_operator hl
  refine ⟨.operator o, h.completes_operator hp rfl, ?_, hbreaks⟩
  rw [hp.behind]
  exact List.mem_singleton.2 rfl

/-- The parser reads phrases of the level, and what it blames where such a phrase may stand
could stand there. In texts below the bound it always blames something. -/
structure Candid (l : Level) (n : Nat) (p : Parser Expression) : Prop where
  parses : Parses n p Expression.bare (Phrase l) (goesOn l)
  onward : Onward p
  presses : Presses n p
  settled : ∀ c, c.ahead.length < n → Fails p c → (p c).misses.Settled c
  expected : ∀ {text ts i rule b}, Context text ts i → (text.drop i).length < n →
    Stage.operand.behind ts = .operand → Admits l ts → Reports p (place text i) rule b →
    Expected text rule b

/-! ## Lists -/

/-- Expressions with commas between them. -/
theorem list_expected (he : Candid .disjunction n element) (h : Context text ts i)
    (hn : (text.drop i).length < n) (hst : Stage.operand.behind ts = .operand)
    (ha : AdmitsList ts)
    (hr : Reports element (place text i) rule b ∨ ∃ first d, Runs element (place text i) first d ∧
      Reports (furtherElements element) (skip d) rule b) : Expected text rule b := by
  obtain hr | ⟨first, d, hfirst, hr⟩ := hr
  · exact he.expected h hn hst ha.first hr
  obtain ⟨vs, hvs, hphrase⟩ := he.parses.sound hfirst
  obtain ⟨j, hij, hskip, hj⟩ := h.advance (he.onward.strides _ _ _ hfirst) hvs
  rw [hskip] at hr
  obtain ⟨es, c', d, hes, hcomma, hr⟩ := reports_further hr
  obtain ⟨us, hus, hitems⟩ := repeats_sound (further_parses he.parses).sound hes
  have hitem : Strides (do space; token ","; space; element) :=
    (space_onward.bind fun _ => (token_onward _).bind fun _ => space_onward.bind fun _ =>
      he.onward).strides
  obtain ⟨k, hjk, hskip, hk⟩ := hj.advance (hitem.repeats hes) hus
  rw [hskip] at hcomma
  obtain ⟨m, hlt, hskip, hm⟩ := hk.token comma_picks (by decide) hcomma
  rw [hskip] at hr
  rw [List.append_assoc ts] at hm
  have hadmits := ha.further ((Listing.one hphrase).append hitems)
  have hlength := length_drop_le text (Nat.le_trans hij hjk)
  exact he.expected hm (by omega) (Stage.behind_concat _ _ _) hadmits hr

theorem sequence_expected (he : Candid .disjunction n element) (h : Context text ts i)
    (hn : (text.drop i).length < n) (hst : Stage.operand.behind ts = .operand)
    (ha : AdmitsList ts) (hr : Reports (sequence element) (place text i) rule b) :
    Expected text rule b :=
  list_expected he h hn hst ha
    (reports_sequence (he.settled _ (by rwa [ahead_place])) hr)

/-! ## Operands -/

/-- The inside of brackets. -/
theorem opened_expected (he : Candid .disjunction n element) (h : Context text ts i)
    (hn : (text.drop i).length < n + 1) {s : String} {t : Token}
    (hs : Picks anywhere (token s) (only t ())) (hne : s.toList ≠ [])
    (ht : Stage.after t = .operand) (ha : AdmitsList (ts ++ [t])) {d : Cursor}
    (hr : Runs (token s) (place text i) () d)
    (hlist : Reports (elements element) (skip d) rule b ∨
      Reports (sequence element) (skip d) rule b) : Expected text rule b := by
  obtain ⟨j, hlt, hskip, hj⟩ := h.token hs hne hr
  have hst : Stage.operand.behind (ts ++ [t]) = .operand := (Stage.behind_concat _ _ _).trans ht
  rw [hskip] at hlist
  obtain h | h := hlist
  · exact list_expected he hj (by omega) hst ha (reports_elements h)
  · exact sequence_expected he hj (by omega) hst ha h

theorem calls_expected (he : Candid .disjunction n element) {vs : List Token} {head : Expression}
    (h : Context text (ts ++ vs) i) (hn : (text.drop i).length < n + 1)
    (ha : Admits .application ts) (hp : Phrase .primary vs head)
    (hr : Reports (spaced (arguments element)) (place text i) rule b) : Expected text rule b := by
  obtain ⟨calls, c', hcalls, hr⟩ := reports_spaced hr
  obtain ⟨us, hus, hitems⟩ := repeats_sound (arguments_parses he.parses).sound hcalls
  have hitem : Strides (do space; arguments element) :=
    (space_onward.bind fun _ => arguments_onward he.onward).strides
  obtain ⟨j, hij, hskip, hj⟩ := h.advance (hitem.repeats hcalls) hus
  have hphrase := phrase_of_calls hp hitems
  rw [hskip] at hr
  rw [List.append_assoc] at hj
  obtain ⟨rfl, rfl⟩ | ⟨d, hopen, hr⟩ := reports_arguments hr
  · exact hj.expected (ha.continues_call hphrase)
  · have hlength := length_drop_le text hij
    exact opened_expected he hj (by omega) openParen_picks (by decide) rfl
      (ha.call hphrase).list hopen (.inl hr)

theorem application_expected (he : Candid .disjunction n element) (h : Context text ts i)
    (hn : (text.drop i).length < n + 1) (hst : (Stage.operand.behind ts).Awaits)
    (ha : Admits .application ts) (hr : Reports (application element) (place text i) rule b) :
    Expected text rule b := by
  have hprimary : Admits .primary ts := ha.tighten (by decide)
  obtain ⟨rfl, rfl⟩ | ⟨hr, hlt⟩ | ⟨head, d, hhead, hr⟩ :=
    reports_application he.parses he.onward he.presses (by rwa [ahead_place]) hr
  · exact h.expected (ha.continues_application hst)
  · obtain ⟨d, hopen, hr⟩ | ⟨d, hopen, hr⟩ := reports_primary hr hlt
    · exact opened_expected he h hn openBracket_picks (by decide) rfl hprimary.array.list hopen
        (.inl hr)
    · exact opened_expected he h hn openParen_picks (by decide) rfl hprimary.group hopen (.inr hr)
  · obtain ⟨vs, hvs, hphrase⟩ := (primary_parses he.parses).sound hhead
    obtain ⟨j, hij, hskip, hj⟩ :=
      h.advance ((primary_onward he.onward).strides _ _ _ hhead) hvs
    rw [hskip] at hr
    have hlength := length_drop_le text hij
    exact calls_expected he hj (by omega) ha hphrase hr

/-! ## Marks -/

/-- The tokens stand before place `j`, perhaps only if the text is cut there: the last one may
be the `!` of a `!=`. -/
structure Marked (text : List Char) (ts : List Token) (j : Nat) : Prop where
  le : j ≤ text.length
  cut : Reads (text.take j) ts []
  whole : Context text ts j ∨ ∃ r, text.drop j = '=' :: r

theorem Context.marked (h : Context text ts i) : Marked text ts i := ⟨h.le, h.cut, .inl h⟩

theorem Marked.expected {w : Word} (h : Marked text ts i) (hw : Continues ts rule w) :
    Expected text rule (place text i).byte :=
  ⟨i, ts, w, h.le, rfl, h.cut, hw⟩

theorem reads_not : Reads ['!'] [.mark .not] [] := by
  have h : Starts ("!".toList ++ []) "!".toList (.mark .not) [] :=
    starts_of_symbol (by decide) (by decide) fun _ => by decide
  exact .single h.next

/-- A mark is read, or it is the `!` of a `!=` and no more marks follow. -/
theorem Context.mark {m : Mark} {s : Span} (h : Context text ts i)
    (hr : Runs mark (place text i) (m, s) c') :
    (∃ j, i ≤ j ∧ skip c' = place text j ∧ Context text (ts ++ [.mark m]) j) ∨
      ∃ r, c'.ahead = '=' :: r ∧ c' = place text (i + 1) ∧
        Marked text (ts ++ [.mark .not]) (i + 1) := by
  by_cases hx : unextended "!" (place text i).ahead
  · exact .inl (h.advance (mark_strides _ _ _ hr) (mark_sound hr hx))
  · right
    obtain ⟨r, hr'⟩ := Decidable.not_not.1 hx
    obtain ⟨ch, -, hhead⟩ := mark_head hr
    rw [hhead] at hr'
    obtain ⟨rfl, hahead⟩ := List.cons.inj hr'
    rw [ahead_place] at hhead
    rw [← List.singleton_append] at hhead
    obtain ⟨j, hj, rfl, rfl, -⟩ := place_of_ahead mark_strides h.le hr hhead
    have hdrop : text.drop (i + 1) = '=' :: r := (ahead_place text _).symm.trans hahead.symm
    have htake : text.take (i + 1) = text.take i ++ ['!'] := by
      rw [List.take_add, hhead]
      rfl
    refine ⟨r, hahead.symm, rfl, hj, ?_, .inr ⟨r, hdrop⟩⟩
    rw [htake]
    exact (h.cut.extend (breaks_of_mem (by decide))).append reads_not

theorem Context.skip_eq (h : Context text ts i) : skip (place text i) = place text i := by
  have hsplit : (text.drop i).takeWhile Lexeme.isSpace ++ afterSpace (text.drop i) = text.drop i :=
    List.takeWhile_append_dropWhile
  rw [h.trimmed] at hsplit
  rw [skip, ahead_place, List.append_left_eq_self.1 hsplit]
  rfl

/-- Behind marks there is an operand to come. The marks are gone through from the first one on,
which may have spaces before it; only the last one can belong to a `!=`. -/
theorem marks_marked {ms : List (Mark × Span)} {d : Cursor} (h : Context text ts i)
    (hst : (Stage.operand.behind ts).Awaits) (ha : Admits .unary ts) (hc : skip c = place text i)
    (hr : Repeats (do space; mark) c ms d) :
    ∃ j us, i ≤ j ∧ skip d = place text j ∧ Marked text us j ∧ Admits .unary us ∧
      (Stage.operand.behind us).Awaits := by
  induction hr generalizing ts i with
  | nil c => exact ⟨i, ts, Nat.le_refl _, hc, h.marked, ha, hst⟩
  | @cons c c' d m ms hrun hrest ih =>
    obtain ⟨m, s⟩ := m
    have hmark := runs_item.1 hrun
    rw [hc] at hmark
    obtain ⟨j, hij, hskip, hj⟩ | ⟨r, hequals, rfl, hj⟩ := h.mark hmark
    · obtain ⟨k, us, hjk, hk⟩ := ih hj (.inr (Stage.behind_concat _ _ _)) (ha.mark m) hskip
      exact ⟨k, us, Nat.le_trans hij hjk, hk⟩
    · obtain rfl := repeats_mark_equals hequals hrest
      refine ⟨i + 1, _, Nat.le_succ i, ?_, hj, ha.mark .not, .inr (Stage.behind_concat _ _ _)⟩
      rw [skip, hequals, List.takeWhile_cons_of_neg (by decide)]
      rfl

theorem unary_expected (he : Candid .disjunction n element) (h : Context text ts i)
    (hn : (text.drop i).length < n + 1) (hst : Stage.operand.behind ts = .operand)
    (ha : Admits .unary ts) (hr : Reports (unary element) (place text i) rule b) :
    Expected text rule b := by
  obtain ⟨rfl, rfl⟩ | ⟨ms, d, hms, hr⟩ := reports_unary hr
  · exact h.expected (ha.continues (by rw [hst]; decide))
  obtain ⟨j, us, hij, hskip, hj, hadmits, hstage⟩ :=
    marks_marked h (.inl hst) ha h.skip_eq hms
  rw [hskip] at hr
  obtain ⟨rfl, rfl⟩ | hr := hr
  · exact hj.expected hadmits.continues_mark
  have happlication : Admits .application us := hadmits.tighten (by decide)
  have hlength := length_drop_le text hij
  obtain hctx | ⟨r, hequals⟩ := hj.whole
  · exact application_expected he hctx (by omega) hstage happlication hr
  · obtain ⟨rfl, rfl⟩ := reports_application_equals he.parses he.onward he.presses
      (by rw [ahead_place]; omega) ((ahead_place _ _).trans hequals) hr
    exact hj.expected (happlication.continues_application hstage)

theorem unary_candid (he : Candid .disjunction n element) :
    Candid .unary (n + 1) (unary element) where
  parses := unary_parses he.parses
  onward := unary_onward he.onward
  presses := unary_presses he.onward he.presses
  settled _ _ hf := settled_named hf
  expected := unary_expected he

/-! ## Operators and expressions -/

theorem Candid.named {p : Parser Expression} (rule : Rule) (hp : Candid l n p) :
    Candid l n (named rule p) where
  parses := hp.parses.named rule
  onward := hp.onward.named rule
  presses c hc := from_named hp.onward fun _ _ _ => hp.presses c hc
  settled _ _ hf := settled_named hf
  expected h hn hst ha hr :=
    hp.expected h hn hst ha (reports_named_of_settled (hp.settled _ (by rwa [ahead_place])) hr)

theorem chain_expected {operator : Parser Operator} {operand : Parser Expression} {other : Rule}
    (hl : l.isChain) (ho : Picks anywhere operator (operatorOf l)) (hon : Onward operator)
    (hb : Blames (levelRule l) operator) (hp : Candid l.tighter n operand)
    (h : Context text ts i) (hn : (text.drop i).length < n)
    (hst : Stage.operand.behind ts = .operand) (ha : Admits l ts)
    (hr : Reports (chain other operator operand) (place text i) rule b) :
    Expected text rule b := by
  have hle : l.rank ≤ l.tighter.rank := by cases l <;> decide
  obtain hr | ⟨first, d, joints, c', hfirst, hjoints, hr⟩ :=
    reports_chain (hp.settled _ (by rwa [ahead_place])) hr
  · exact hp.expected h hn hst (ha.tighten hle) hr
  have hjoint := hon.bind fun o => space_onward.bind fun _ => hp.onward.bind fun right =>
    Onward.pure (o, right)
  obtain ⟨vs, hvs, hf⟩ := hp.parses.sound hfirst
  obtain ⟨us, hus, hitems⟩ := repeats_sound (joint_parses ho hp.parses).sound hjoints
  have hphrase := phrase_of_chain hl hf hitems
  -- what has been read up to the operator in question is a phrase of the level
  obtain ⟨j, hij, hskip, hj⟩ := h.advance (hp.onward.strides _ _ _ hfirst) hvs
  rw [hskip] at hjoints hus
  obtain ⟨k, hjk, hskip, hk⟩ :=
    hj.advance ((space_onward.bind fun _ => hjoint).strides.repeats hjoints) hus
  rw [hskip] at hr
  rw [List.append_assoc] at hk
  have hlength := length_drop_le text (Nat.le_trans hij hjk)
  have hlt : ∀ o d, Runs operator (place text k) o d → (place text k).byte < d.byte := by
    intro o d hrun
    obtain ⟨t, -, hts⟩ := ho.reads hrun
    exact byte_lt_of_reads hon.strides hrun hts
  have hpress : ∀ o d, Runs operator (place text k) o d →
      (operand (skip d)).misses.From (skip d).byte := by
    intro o d hrun
    have hshort := hon.strides.length_le hrun
    have hskip := length_skip_le d
    rw [ahead_place] at hshort
    exact hp.presses _ (by omega)
  obtain ⟨rfl, rfl⟩ | ⟨o, d, hrun, hr⟩ := reports_joint hb hlt hpress hr
  · obtain ⟨w, hw⟩ := ha.continues_operator hl hphrase
    exact hk.expected hw
  · obtain ⟨t, ht, hts⟩ := ho.reads hrun
    obtain ⟨rfl, hlevel⟩ := operatorOf_eq_some.1 ht
    obtain ⟨m, hkm, hskip, hm⟩ := hk.advance (hon.strides _ _ _ hrun) hts
    rw [hskip] at hr
    have hlength := length_drop_le text (Nat.le_trans hij (Nat.le_trans hjk hkm))
    exact hp.expected hm (by omega) (Stage.behind_concat _ _ _) (ha.operator hphrase hlevel) hr

theorem Candid.chain {operator : Parser Operator} {operand : Parser Expression} (other : Rule)
    (hl : l.isChain) (ho : Picks anywhere operator (operatorOf l)) (hon : Onward operator)
    (hb : Blames (levelRule l) operator) (hp : Candid l.tighter n operand) :
    Candid l n (chain other operator operand) where
  parses := chain_parses other hl ho hp.parses
  onward := chain_onward other hon hp.onward
  presses := chain_presses other hon hp.onward hp.presses
  settled _ _ hf := settled_named hf
  expected := chain_expected hl ho hon hb hp

theorem expressionOver_candid (he : Candid .disjunction n element) :
    Candid .disjunction (n + 1) (expressionOver element) :=
  have hrelation := (unary_candid he).chain (l := .relation) .relation rfl relationToken_picks
    relationToken_onward relationToken_blames
  have hequality := hrelation.chain (l := .equality) .equality rfl equalityToken_picks
    equalityToken_onward equalityToken_blames
  have hconjunction := hequality.chain (l := .conjunction) .conjunction rfl andToken_picks
    andToken_onward andToken_blames
  (hconjunction.chain (l := .disjunction) .disjunction rfl orToken_picks orToken_onward
    orToken_blames).named .expression

theorem expressionWithin_candid (depth : Nat) :
    Candid .disjunction depth (expressionWithin depth) := by
  induction depth with
  | zero =>
    exact ⟨expressionWithin_reads 0, .fail, fun _ h => absurd h (Nat.not_lt_zero _),
      fun _ h => absurd h (Nat.not_lt_zero _), fun _ h => absurd h (Nat.not_lt_zero _)⟩
  | succ depth ih => exact expressionOver_candid ih

/-! ## Queries -/

/-- The text, cut at the byte position, is a query. -/
def Complete (text : List Char) (byte : Nat) : Prop :=
  ∃ k ts tree, k ≤ text.length ∧ (place text k).byte = byte ∧ Reads (text.take k) ts [] ∧
    Series ts tree

theorem Series.first {e : Expression} (h : Series ts e) : ∃ t us, ts = t :: us := by
  obtain ⟨es, hl⟩ : ∃ es, Listing ts es := by
    cases h with
    | single hl => exact ⟨_, hl⟩
    | several hl _ => exact ⟨_, hl⟩
  obtain ⟨t, us, hts, -⟩ := (Elements.listing hl).first hl.ne_nil
  exact ⟨t, us, hts⟩

/-- A query, without the name of its rule. -/
theorem reports_program {depth : Nat} (hs : Candid .disjunction depth element)
    (h : Reports (named .program do
      space
      let e ← sequence element
      space
      named .endOfText endOfText
      return e) c rule b) :
    Reports (sequence element) (skip c) rule b ∨ ∃ e d, Runs (sequence element) (skip c) e d ∧
      rule = .endOfText ∧ b = (skip d).byte := by
  have hbody := reports_named_of_settled (fun hf => ?settled) h
  case settled =>
    rw [misses_bind_of_runs (runs_space (u := ()).2 rfl), space_silent c, nothing_merge]
    obtain hfails | ⟨e, d, he⟩ := fails_or_runs (sequence element) (skip c)
    · rw [misses_bind_of_fails hfails]
      exact (settled_named hfails).mono (byte_skip_le c)
    · -- then the end was expected, which is behind the first token
      obtain ⟨ts, hts, hseries⟩ := (sequence_parses hs.parses).sound he
      obtain ⟨t, us, rfl⟩ := hseries.first
      have hlt := byte_lt_of_reads (sequence_onward hs.onward).strides he hts
      obtain hend | ⟨u, f, hend⟩ := fails_or_runs (named .endOfText endOfText) (skip d)
      · have hfrom : (named .endOfText endOfText (skip d)).misses.From (skip d).byte :=
          ⟨_, _, misses_named_of_silent silent_endOfText hend, Nat.le_refl _⟩
        refine Misses.From.settled (from_bind_of_runs he (from_item (from_bind hfrom))) ?_
        have := byte_skip_le c
        have := byte_skip_le d
        omega
      · refine absurd ?_ (fails_iff.1 hf e f)
        simp only [runs_bind, runs_space, runs_pure]
        exact ⟨(), _, rfl, e, d, he, (), _, rfl, u, f, hend, rfl, rfl⟩
  refine (reports_bind (reports_item hbody)).imp id fun ⟨e, d, he, h⟩ => ?_
  have hend := reports_bind_silent (fun _ => silent_pure _) (reports_item h)
  exact ⟨e, d, he, (reports_named_of_silent silent_endOfText hend).2⟩

theorem program_expected (h : Reports program (Cursor.start text) rule b) :
    Expected text rule b ∨ rule = .endOfText ∧ Complete text b := by
  have he := expressionWithin_candid ((Cursor.start text).ahead.length + 1)
  obtain ⟨i, -, hskip, hi⟩ := context_skip (Nat.zero_le text.length) (Reads.refl text)
  have hstart : skip (Cursor.start text) = place text i := hskip
  have hn : (text.drop i).length < (Cursor.start text).ahead.length + 1 := by
    rw [List.length_drop]
    exact Nat.lt_succ_of_le (Nat.sub_le _ _)
  generalize hdepth : (Cursor.start text).ahead.length + 1 = depth at he hn
  have hprogram : Reports (named .program do
      space
      let e ← sequence (expressionWithin depth)
      space
      named .endOfText endOfText
      return e) (Cursor.start text) rule b := by
    unfold Reports program at h
    rw [hdepth] at h
    exact h
  obtain h | ⟨e, d, hd, hrule, hb⟩ := reports_program he hprogram
  · left
    rw [hstart] at h
    exact sequence_expected he hi hn rfl admitsList_nil h
  · right
    rw [hstart] at hd
    obtain ⟨ts, hts, hseries⟩ := (sequence_parses he.parses).sound hd
    obtain ⟨j, -, hskip, hj⟩ := hi.advance ((sequence_onward he.onward).strides _ _ _ hd) hts
    rw [hskip] at hb
    exact ⟨hrule, j, ts, _, hj.le, hb.symm, hj.cut, hseries⟩

end DirectiveQuery.Grammar
