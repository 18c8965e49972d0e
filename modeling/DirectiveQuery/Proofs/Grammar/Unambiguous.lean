import DirectiveQuery.Grammar.Parse
import DirectiveQuery.Proofs.Grammar.Operands

/-
  Marks, expressions and whole queries. The parser of marks takes the `!` of a `!=` too; no
  operand stands behind it then, so what it took does not count. A query text has the tree that
  the parser finds, and no other one.
-/
namespace DirectiveQuery.Grammar

open DirectiveQuery.Parser Token

variable {c c' : Cursor} {n : Nat} {element : Parser Expression}

/-! ## Marks -/

theorem mark_sound {m : Mark} {s : Span} (hr : Runs mark c (m, s) c')
    (hx : unextended "!" c.ahead) : Reads c.ahead [.mark m] c'.ahead := by
  rw [mark, runs_spanned, runs_named] at hr
  obtain ⟨t, lexeme, ht, hs⟩ := mark_picks.sound hx hr.1
  cases t with
  | mark m' =>
    cases ht
    exact .single hs.next
  | _ => cases ht

/-- No mark is an equals sign. -/
theorem repeats_mark_equals {ms : List (Mark × Span)} {r : List Char} (hc : c.ahead = '=' :: r)
    (h : Repeats (do space; mark) c ms c') : c' = c := by
  cases h with
  | nil => rfl
  | @cons _ _ _ m _ hrun _ =>
    obtain ⟨m, s⟩ := m
    obtain ⟨ch, hch, hhead⟩ := mark_head (runs_item.1 hrun)
    rw [ahead_skip, hc, afterSpace_cons (by decide)] at hhead
    cases hhead
    simp at hch

/-- The first of several marks is no part of a `!=`, if what is behind the last one is not. -/
theorem unextended_of_marks {d : Cursor} {m : Mark} {s : Span} {ms : List (Mark × Span)}
    (hmark : Runs mark (skip c) (m, s) d) (hrest : Repeats (do space; mark) d ms c')
    (hne : ∀ r, c'.ahead ≠ '=' :: r) : unextended "!" (skip c).ahead := by
  intro hx
  obtain ⟨r, hr⟩ := hx
  obtain ⟨ch, -, hhead⟩ := mark_head hmark
  have hd : d.ahead = '=' :: r := by
    rw [← hr] at hhead
    exact (List.cons.inj hhead).2.symm
  obtain rfl := repeats_mark_equals hd hrest
  exact hne r hd

/-- Marks are taken one by one, unless the last one taken belongs to a `!=`. -/
theorem marks_sound {ms : List (Mark × Span)} (h : Repeats (do space; mark) c ms c')
    (hne : ∀ r, c'.ahead ≠ '=' :: r) :
    Reads c.ahead (ms.map fun m => Token.mark m.1) c'.ahead := by
  induction h with
  | nil c => exact .refl _
  | @cons c d c' m ms hrun hrest ih =>
    obtain ⟨m, s⟩ := m
    have hmark := runs_item.1 hrun
    have hx := unextended_of_marks hmark hrest hne
    exact (reads_skip.1 (mark_sound hmark hx)).append (ih hne)

theorem repeats_of_marks {marks : List Mark} {middle : List Char}
    (hr : Reads c.ahead (marks.map Token.mark) middle) :
    ∃ ms d, Repeats (do space; mark) c ms d ∧ ms.map Prod.fst = marks ∧
      afterSpace d.ahead = afterSpace middle := by
  induction marks generalizing c with
  | nil =>
    obtain ⟨he⟩ := hr
    exact ⟨[], c, .nil c, rfl, he⟩
  | cons m marks ih =>
    obtain ⟨after, hn, hafter⟩ := Reads.cons_iff.1 hr
    obtain ⟨lexeme, hs⟩ := hn
    have hx := unextended_of_mark hs
    rw [← ahead_skip] at hs hx
    obtain ⟨d, hd, rfl⟩ := mark_picks.stop hx (isTrimmed_skip c) hs.next rfl
    have hmark : Runs mark (skip c) (m, (skip c).spanTo d) d := by
      rw [mark, runs_spanned, runs_named]
      exact ⟨hd, rfl⟩
    obtain ⟨ms, e, hms, hviews, he⟩ := ih hafter
    exact ⟨_, e, .cons (runs_item.2 hmark) hms, by rw [List.map_cons, hviews], he⟩

theorem fails_mark {t : Token} {rest : List Char} (hn : Next c.ahead t rest)
    (ht : isFirst .application t) : Fails mark (skip c) := by
  have hn' : Next (skip c).ahead t rest := by
    rw [ahead_skip]
    exact (next_congr (afterSpace_afterSpace _)).2 hn
  rw [fails_iff]
  rintro ⟨m, s⟩ d hr
  by_cases hx : unextended "!" (skip c).ahead
  · obtain ⟨_, hm, -⟩ := Reads.cons_iff.1 (mark_sound hr hx)
    obtain ⟨rfl, -⟩ := next_unique hn' hm
    cases ht
  · obtain ⟨r, hr'⟩ := Decidable.not_not.1 hx
    rw [← notEqual_eq] at hr'
    have hne : Starts ("!=".toList ++ r) "!=".toList (.operator (.comparison .notEqual)) r :=
      starts_of_symbol (by decide) (by decide) fun h => absurd h (by decide)
    rw [← hr'] at hn'
    obtain ⟨rfl, -⟩ := next_unique hn' hne.next
    cases ht

theorem fixed_equals : ∀ p ∈ fixed, p.1.toList.head? = some '=' →
    p.2 = .operator (.comparison .equal) := by
  decide +kernel

/-- No operand starts with an equals sign. -/
theorem next_equals {r rest : List Char} {t : Token} (hn : Next ('=' :: r) t rest) :
    t = .operator (.comparison .equal) := by
  obtain ⟨lexeme, hs⟩ := hn
  rw [afterSpace_cons (by decide)] at hs
  obtain ⟨ch, cs, rfl⟩ := hs.spelling.ne_nil
  obtain rfl : ch = '=' := (List.cons.inj hs.eq).1.symm
  exact fixed_equals _ (hs.spelling.of_symbol (by decide) (by decide) (by decide))
    (by rw [String.toList_ofList]; rfl)

theorem ne_equals_of_application (he : ReadsExpressions n element) {e : Expression}
    (h : Runs (application element) (skip c) e c') (r : List Char) : c.ahead ≠ '=' :: r := by
  intro hc
  obtain ⟨ts, hts, hphrase⟩ := (application_parses he).sound h
  obtain ⟨t, us, rfl, ht⟩ := hphrase.first
  obtain ⟨_, hn, -⟩ := Reads.cons_iff.1 (reads_skip.1 hts)
  rw [hc] at hn
  obtain rfl := next_equals hn
  cases ht

theorem bare_foldr_unary (ms : List (Mark × Span)) (operand : Expression) :
    (ms.foldr (fun (m, s) e => .unary m e (s.through e.span)) operand).bare =
      (ms.map Prod.fst).foldr (fun m e => .unary m e .nowhere) operand.bare := by
  induction ms with
  | nil => rfl
  | cons m ms ih =>
    rw [List.map_cons, List.foldr_cons, List.foldr_cons, ← ih]
    rfl

theorem unary_parses (he : ReadsExpressions n element) :
    Parses (n + 1) (unary element) Expression.bare (Phrase .unary) (goesOn .unary) where
  sound := by
    intro c c' e hr
    simp only [unary, runs_named, runs_bind, runs_space, runs_pure] at hr
    obtain ⟨ms, d, hms, _, _, rfl, operand, _, hoperand, rfl, rfl⟩ := hr
    obtain ⟨us, hus, hphrase⟩ := (application_parses he).sound hoperand
    have hne := ne_equals_of_application he hoperand
    refine ⟨_, (marks_sound (repeats_of_many hms) hne).append (reads_skip.1 hus), ?_⟩
    rw [bare_foldr_unary]
    have h := phrase_of_marks (ms.map Prod.fst) hphrase
    rwa [List.map_map] at h
  complete := by
    intro c ts rest b hn ht hr hphrase hs
    obtain ⟨marks, us, operand, rfl, hoperand, rfl⟩ := hphrase.marks
    obtain ⟨middle, hmarks, hus⟩ := Reads.append_iff.1 hr
    obtain ⟨ms, d, hms, rfl, hd⟩ := repeats_of_marks hmarks
    have hnext := hus.congr_left hd.symm
    have hshort : (skip d).ahead.length < n + 1 := by
      have hle := hmarks.length_le
      have htext := length_afterSpace_le c.ahead
      rw [ahead_skip, hd]
      omega
    have hstop : Fails mark (skip d) := by
      obtain ⟨t, vs, rfl, htf⟩ := hoperand.first
      obtain ⟨_, hn', -⟩ := Reads.cons_iff.1 hnext
      exact fails_mark hn' htf
    have hlength : ms.length ≤ c.ahead.length := by
      have hle := hmarks.length_le
      have htext := length_afterSpace_le c.ahead
      rw [List.length_map, List.length_map] at hle
      omega
    obtain ⟨e, c', he', rfl, hc'⟩ := (application_parses he).complete hshort (isTrimmed_skip d)
      (reads_skip.2 hnext) hoperand (stops_mono (fun _ => @goesOn_of_tighter .unary _) hs)
    refine ⟨_, c', ?_, bare_foldr_unary ms e, hc'⟩
    simp only [unary, runs_named, runs_bind, runs_space, runs_pure]
    exact ⟨ms, d, many_of_repeats hms (fails_item.2 hstop) hlength, (), skip d, rfl, e, c', he',
      rfl, rfl⟩

/-! ## Expressions -/

theorem expressionOver_reads (he : ReadsExpressions n element) :
    ReadsExpressions (n + 1) (expressionOver element) := by
  have hrelation := chain_parses .relation rfl relationToken_picks (unary_parses he)
  have hequality := chain_parses .equality rfl equalityToken_picks hrelation
  have hconjunction := chain_parses .conjunction rfl andToken_picks hequality
  have hdisjunction := chain_parses .disjunction rfl orToken_picks hconjunction
  exact hdisjunction.named .expression

theorem expressionWithin_reads (depth : Nat) : ReadsExpressions depth (expressionWithin depth) := by
  induction depth with
  | zero =>
    constructor
    · intro c c' e hr
      cases hr
    · intro c ts rest b hn
      exact absurd hn (Nat.not_lt_zero _)
  | succ depth ih => exact expressionOver_reads ih

/-! ## Queries -/

theorem runs_program {e : Expression} : Runs program c e c' ↔ Runs (do
    space
    let e ← sequence (expressionWithin (c.ahead.length + 1))
    space
    named .endOfText endOfText
    return e) c e c' := by
  unfold Runs program
  rw [result_named]

/-- The parser of queries finds the trees of the derivations. -/
theorem program_iff {text : List Char} {tree : Expression} :
    (∃ e c', Runs program (Cursor.start text) e c' ∧ e.bare = tree) ↔
      ∃ tokens, Reads text tokens [] ∧ Series tokens tree := by
  have he := sequence_parses (expressionWithin_reads (text.length + 1))
  have hprogram : ∀ {e c'}, Runs program (Cursor.start text) e c' ↔
      ∃ d, Runs (sequence (expressionWithin (text.length + 1))) (skip (Cursor.start text)) e d ∧
        (skip d).ahead = [] ∧ c' = skip d := by
    intro e c'
    rw [runs_program]
    simp only [runs_named, runs_bind, runs_space, runs_pure, runs_endOfText]
    constructor
    · rintro ⟨_, _, rfl, e, d, hd, _, _, rfl, _, _, ⟨hend, rfl⟩, rfl, rfl⟩
      exact ⟨d, hd, hend, rfl⟩
    · rintro ⟨d, hd, hend, rfl⟩
      exact ⟨(), _, rfl, e, d, hd, (), _, rfl, (), _, ⟨hend, rfl⟩, rfl, rfl⟩
  constructor
  · rintro ⟨e, c', hr, rfl⟩
    obtain ⟨d, hd, hend, rfl⟩ := hprogram.1 hr
    obtain ⟨ts, hts, hseries⟩ := he.sound hd
    refine ⟨ts, (reads_skip.1 hts).congr_right ?_, hseries⟩
    rw [← ahead_skip, hend]
    rfl
  · rintro ⟨tokens, hts, hseries⟩
    have hshort : (skip (Cursor.start text)).ahead.length < text.length + 1 := by
      rw [ahead_skip]
      exact Nat.lt_succ_of_le (length_afterSpace_le text)
    obtain ⟨e, d, hd, rfl, hrest⟩ := he.complete hshort (isTrimmed_skip _) (reads_skip.2 hts)
      hseries (stops_nil _)
    exact ⟨e, skip d, hprogram.2 ⟨d, hd, by rw [ahead_skip, hrest]; rfl, rfl⟩, rfl⟩

end DirectiveQuery.Grammar

namespace DirectiveQuery.Expression

open Grammar DirectiveQuery.Parser

theorem parse_eq_ok {query : String} {e : Expression} : parse query = .ok e ↔
    ∃ e' c', Runs program (Cursor.start query.toList) e' c' ∧
      e = e'.inCharacters (Text.Positions.ofText query.toList) := by
  unfold parse Runs
  dsimp only
  split
  · next e' c' m h => simp [h, eq_comm]
  · next m h => simp [h]

theorem exists_parse_iff {query : String} {tree : Expression} :
    (∃ e, parse query = .ok e ∧ e.bare = tree) ↔ Derives query tree := by
  rw [Derives, ← program_iff]
  constructor
  · rintro ⟨e, he, rfl⟩
    obtain ⟨e', c', hr, rfl⟩ := parse_eq_ok.1 he
    exact ⟨e', c', hr, (bare_mapSpans _ e').symm⟩
  · rintro ⟨e', c', hr, rfl⟩
    exact ⟨_, parse_eq_ok.2 ⟨e', c', hr, rfl⟩, bare_mapSpans _ e'⟩

/-- Exactly the texts of the grammar are accepted. Each has one tree, which is the one that is
found, and it is found for every text of that tree: other spaces between the tokens, more
parentheses, other quotes and commas behind a list make no difference. -/
theorem parse_unambiguous :
    (∀ query tree, (∃ e, parse query = .ok e ∧ e.bare = tree) ↔ Derives query tree) ∧
    (∀ query tree other, Derives query tree → Derives query other → tree = other) ∧
    (∀ query respelled tree, Derives query tree → Derives respelled tree →
      ∃ e e', parse query = .ok e ∧ parse respelled = .ok e' ∧ e.bare = tree ∧
        e'.bare = tree) := by
  refine ⟨fun _ _ => exists_parse_iff, ?_, ?_⟩
  · intro query tree other h h'
    obtain ⟨e, he, rfl⟩ := exists_parse_iff.2 h
    obtain ⟨e', he', rfl⟩ := exists_parse_iff.2 h'
    rw [he] at he'
    cases he'
    rfl
  · intro query respelled tree h h'
    obtain ⟨e, he, rfl⟩ := exists_parse_iff.2 h
    obtain ⟨e', he', hb⟩ := exists_parse_iff.2 h'
    exact ⟨e, e', he, he', rfl, hb⟩

end DirectiveQuery.Expression
