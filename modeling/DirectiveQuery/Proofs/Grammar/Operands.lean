import DirectiveQuery.Proofs.Grammar.Phrases

/-
  Brackets and operands: literals, arrays, identifiers, groups and calls, over a parser of the
  expressions inside brackets.
-/
namespace DirectiveQuery.Grammar

open DirectiveQuery.Parser Token

variable {c c' : Cursor} {n : Nat} {element : Parser Expression}

/-! ## Lists in brackets -/

theorem Elements.cases_nil {ts : List Token} (h : Elements ts []) : ts = [] := by
  cases h with
  | none => rfl
  | listing hl => exact absurd rfl hl.ne_nil
  | trailing hl => exact absurd rfl hl.ne_nil

theorem Elements.first {ts : List Token} {es : List Expression} (h : Elements ts es)
    (hne : es ≠ []) : ∃ t us, ts = t :: us ∧ isFirst .disjunction t := by
  have listing : ∀ {ts es}, Listing ts es → ∃ t us, ts = t :: us ∧ isFirst .disjunction t := by
    intro ts es hl
    obtain ⟨vs, us, first, others, rfl, hf, -, -⟩ := hl.further
    obtain ⟨t, ws, rfl, ht⟩ := hf.first
    exact ⟨t, ws ++ us, rfl, ht⟩
  cases h with
  | none => exact absurd rfl hne
  | listing hl => exact listing hl
  | trailing hl =>
    obtain ⟨t, us, rfl, ht⟩ := listing hl
    exact ⟨t, _, rfl, ht⟩

theorem optional_elements_sound (he : ReadsExpressions n element) {es : List Expression}
    (hr : Runs (withDefault [] (elements element)) c es c') :
    ∃ us, Reads c.ahead us c'.ahead ∧ Elements us (es.map Expression.bare) := by
  obtain hes | ⟨-, rfl, rfl⟩ := runs_withDefault.1 hr
  · obtain ⟨us, hus, helements, -⟩ := elements_sound he hes
    exact ⟨us, hus, helements⟩
  · exact ⟨[], .refl _, .none⟩

theorem bracketed_sound (he : ReadsExpressions n element) {opening closing : String}
    {o t : Token} (hopening : Picks anywhere (token opening) (only o ()))
    (hclosing : Picks anywhere (token closing) (only t ())) {es : List Expression}
    (hr : Runs (bracketed opening closing element) c es c') :
    ∃ ts, Reads c.ahead ts c'.ahead ∧ Bracketed o t ts (es.map Expression.bare) := by
  simp only [bracketed, runs_bind, runs_space, runs_pure] at hr
  obtain ⟨_, d, hopen, _, _, rfl, es, e, hes, _, _, rfl, _, f, hclose, rfl, rfl⟩ := hr
  have hots := hopening.reads_only hopen
  have htts := hclosing.reads_only hclose
  obtain ⟨us, hus, helements⟩ := optional_elements_sound he hes
  exact ⟨_, hots.append ((reads_skip.1 hus).append (reads_skip.1 htts)), us, rfl, helements⟩

/-- Nothing or a list, before a closing bracket. -/
theorem optional_elements_complete (he : ReadsExpressions n element) {us : List Token}
    {es : List Expression} {rest tail : List Char} {t : Token} (hn : c.ahead.length < n)
    (ht : IsTrimmed c) (hr : Reads c.ahead us rest) (helements : Elements us es)
    (hclose : Next rest t tail) (htc : isClosing t = true) :
    ∃ es' c', Runs (withDefault [] (elements element)) c es' c' ∧
      es'.map Expression.bare = es ∧ afterSpace c'.ahead = afterSpace rest := by
  by_cases hne : es = []
  · subst hne
    obtain rfl := helements.cases_nil
    obtain ⟨hrest⟩ := hr
    refine ⟨[], c, runs_withDefault.2 (.inr ⟨?_, rfl, rfl⟩), rfl, hrest⟩
    rw [fails_iff]
    intro es' e hes
    obtain ⟨us, hus, helements, hne⟩ := elements_sound he hes
    obtain ⟨t', vs, rfl, ht'⟩ := helements.first hne
    obtain ⟨_, hnext, -⟩ := Reads.cons_iff.1 hus
    obtain ⟨rfl, -⟩ := next_unique ((next_congr hrest).1 hnext) hclose
    rw [isFirst_of_isClosing htc] at ht'
    cases ht'
  · obtain ⟨es', e, hes, hviews, he'⟩ := elements_complete he hn ht hr helements hne hclose htc
    exact ⟨es', e, runs_withDefault.2 (.inl hes), hviews, he'⟩

theorem bracketed_complete (he : ReadsExpressions n element) {opening closing : String}
    {o t : Token} (hopening : Picks anywhere (token opening) (only o ()))
    (hclosing : Picks anywhere (token closing) (only t ())) (htc : isClosing t = true)
    {ts : List Token} {es : List Expression} {rest : List Char}
    (hn : c.ahead.length < n + 1) (ht : IsTrimmed c) (hr : Reads c.ahead ts rest)
    (hb : Bracketed o t ts es) :
    ∃ es' c', Runs (bracketed opening closing element) c es' c' ∧
      es'.map Expression.bare = es ∧ afterSpace c'.ahead = afterSpace rest := by
  obtain ⟨us, rfl, helements⟩ := hb
  obtain ⟨d, hopen, hd, hlt⟩ := hopening.runs ht hr (only_eq_some.2 ⟨rfl, rfl⟩)
  obtain ⟨middle, hus, hlast⟩ := Reads.append_iff.1 hd
  obtain ⟨after, hnext, hafter⟩ := Reads.cons_iff.1 hlast
  have hshort : (skip d).ahead.length < n := Nat.lt_of_lt_of_le hlt (Nat.le_of_lt_succ hn)
  obtain ⟨es', e, hes, hviews, he'⟩ := optional_elements_complete he hshort (isTrimmed_skip d)
    (reads_skip.2 hus) helements hnext htc
  obtain ⟨f, hf, hrest⟩ := hclosing.runs_last he' hlast
  refine ⟨es', f, ?_, hviews, hrest⟩
  simp only [bracketed, runs_bind, runs_space, runs_pure]
  exact ⟨(), d, hopen, (), skip d, rfl, es', e, hes, (), skip e, rfl, (), f, hf, rfl, rfl⟩

/-! ## Operands -/

theorem openBracket_picks : Picks anywhere (token "[") (only .openBracket ()) :=
  punctuation_picks "[" .openBracket (by decide) (by decide) (by decide)

theorem closeBracket_picks : Picks anywhere (token "]") (only .closeBracket ()) :=
  punctuation_picks "]" .closeBracket (by decide) (by decide) (by decide)

theorem openParen_picks : Picks anywhere (token "(") (only .openParen ()) :=
  punctuation_picks "(" .openParen (by decide) (by decide) (by decide)

theorem closeParen_picks : Picks anywhere (token ")") (only .closeParen ()) :=
  punctuation_picks ")" .closeParen (by decide) (by decide) (by decide)

/-- Nothing carries a phrase on that ends with its last token. -/
def nothing (_ : Token) : Bool := false

/-- A token that is an expression by itself. -/
theorem leaf_parses {α : Type} {p : Parser α} {value : Token → Option α} {token : α → Token}
    {leaf : α → Span → Expression} (hp : Picks anywhere p value)
    (ht : ∀ {t a}, value t = some a ↔ t = token a)
    (hl : ∀ a s, (leaf a s).bare = leaf a .nowhere) :
    Parses n (do
      let (a, s) ← spanned p
      return leaf a s) Expression.bare
      (fun ts e => ∃ a, ts = [token a] ∧ e = leaf a .nowhere) nothing where
  sound := by
    intro c c' e hr
    simp only [runs_bind, runs_pure, Prod.exists, runs_spanned] at hr
    obtain ⟨a, s, d, ⟨ha, rfl⟩, rfl, rfl⟩ := hr
    obtain ⟨t, hv, hts⟩ := hp.reads ha
    obtain rfl := ht.1 hv
    exact ⟨_, hts, a, rfl, hl a _⟩
  complete := by
    rintro c ts rest e - htrim hr ⟨a, rfl, rfl⟩ -
    obtain ⟨c', ha, hrest, -⟩ := hp.runs htrim hr (ht.2 rfl)
    obtain ⟨hrest⟩ := hrest
    refine ⟨leaf a (c.spanTo c'), c', ?_, hl a _, hrest⟩
    simp only [runs_bind, runs_pure, Prod.exists, runs_spanned]
    exact ⟨a, _, c', ⟨ha, rfl⟩, rfl, rfl⟩

theorem literal_parses : Parses n literal Expression.bare
    (fun ts e => ∃ value, ts = [.literal value] ∧ e = .literal value .nowhere) nothing :=
  leaf_parses literal_picks (fun {t a} => by cases t <;> simp [literalOf]) fun _ _ => rfl

theorem identifier_parses : Parses n identifier Expression.bare
    (fun ts e => ∃ name, ts = [.identifier name] ∧ e = .identifier name .nowhere) nothing :=
  (leaf_parses identifier_picks (fun {t a} => by cases t <;> simp [identifierOf])
    fun _ _ => rfl).named .identifier

theorem array_parses (he : ReadsExpressions n element) : Parses (n + 1) (array element)
    Expression.bare (fun ts e => ∃ es, Bracketed .openBracket .closeBracket ts es ∧
      e = .array es .nowhere) nothing where
  sound := by
    intro c c' e hr
    simp only [array, runs_named, runs_bind, runs_pure, Prod.exists, runs_spanned] at hr
    obtain ⟨es, s, d, ⟨hes, rfl⟩, rfl, rfl⟩ := hr
    obtain ⟨ts, hts, hb⟩ := bracketed_sound he openBracket_picks closeBracket_picks hes
    exact ⟨ts, hts, _, hb, Expression.bare_array es _⟩
  complete := by
    rintro c ts rest e hn ht hr ⟨es, hb, rfl⟩ -
    obtain ⟨es', c', hes, rfl, hc'⟩ :=
      bracketed_complete he openBracket_picks closeBracket_picks rfl hn ht hr hb
    refine ⟨.array es' (c.spanTo c'), c', ?_, Expression.bare_array es' _, hc'⟩
    simp only [array, runs_named, runs_bind, runs_pure, Prod.exists, runs_spanned]
    exact ⟨es', _, c', ⟨hes, rfl⟩, rfl, rfl⟩

theorem group_parses (he : ReadsExpressions n element) : Parses (n + 1) (group element)
    Expression.bare (fun ts e => ∃ us, ts = .openParen :: (us ++ [.closeParen]) ∧ Series us e)
      nothing where
  sound := by
    intro c c' e hr
    simp only [group, runs_named, runs_bind, runs_space, runs_pure] at hr
    obtain ⟨_, d, hopen, _, _, rfl, e, d', he', _, _, rfl, _, f, hclose, rfl, rfl⟩ := hr
    obtain ⟨t, us, ho, hus, hseries⟩ := openParen_picks.reads_behind (sequence_parses he) hopen he'
    obtain ⟨rfl, -⟩ := only_eq_some.1 ho
    have htts := closeParen_picks.reads_only hclose
    exact ⟨_, hus.append (reads_skip.1 htts), us, rfl, hseries⟩
  complete := by
    rintro c ts rest e hn ht hr ⟨us, rfl, hseries⟩ -
    rw [← List.cons_append] at hr
    obtain ⟨middle, hus, hlast⟩ := Reads.append_iff.1 hr
    obtain ⟨d, e', f, hopen, he', rfl, hf⟩ := openParen_picks.runs_behind (sequence_parses he) hn ht
      hus (only_eq_some.2 ⟨rfl, rfl⟩) hseries (stops_of_reads hlast rfl)
    obtain ⟨c', hclose, hrest⟩ := closeParen_picks.runs_last hf hlast
    refine ⟨e', c', ?_, rfl, hrest⟩
    simp only [group, runs_named, runs_bind, runs_space, runs_pure]
    exact ⟨(), d, hopen, (), skip d, rfl, e', f, he', (), skip f, rfl, (), c', hclose, rfl, rfl⟩

theorem stops_nothing (text : List Char) : Stops nothing text := fun _ _ _ => rfl

theorem orFail_parses {α β : Type} {p : Parser α} {view : α → β}
    {phrase : List Token → β → Prop} {goesOn : Token → Bool} (hp : Parses n p view phrase goesOn) :
    Parses n (Parser.orElse p Parser.fail) view phrase goesOn where
  sound hr := by
    obtain hr | ⟨-, hr⟩ := runs_orElse.1 hr
    · exact hp.sound hr
    · cases hr
  complete hn ht hr hphrase hs := by
    obtain ⟨a, c', ha, hview, hc'⟩ := hp.complete hn ht hr hphrase hs
    exact ⟨a, c', runs_orElse.2 (.inl ha), hview, hc'⟩

theorem primary_parses (he : ReadsExpressions n element) :
    Parses (n + 1) (primary element) Expression.bare (Phrase .primary) nothing := by
  have hgroup := orFail_parses (group_parses he)
  have hidentifier := identifier_parses.orElse (fun t => (identifierOf t).isSome) hgroup
    (fun ⟨name, hts, _⟩ => ⟨_, _, hts, rfl⟩) fun ⟨us, hts, _⟩ => ⟨_, _, hts, rfl⟩
  have harray := (array_parses he).orElse (fun t => t = .openBracket) hidentifier
    (fun ⟨es, ⟨us, hts, _⟩, _⟩ => ⟨_, _, hts, rfl⟩) (by
      rintro ts e (⟨name, rfl, -⟩ | ⟨us, rfl, -⟩)
      · exact ⟨_, _, rfl, rfl⟩
      · exact ⟨_, _, rfl, rfl⟩)
  have hliteral := literal_parses.orElse (fun t => (literalOf t).isSome) harray
    (fun ⟨value, hts, _⟩ => ⟨_, _, hts, rfl⟩) (by
      rintro ts e (⟨es, ⟨us, rfl, -⟩, -⟩ | ⟨name, rfl, -⟩ | ⟨us, rfl, -⟩)
      · exact ⟨_, _, rfl, rfl⟩
      · exact ⟨_, _, rfl, rfl⟩
      · exact ⟨_, _, rfl, rfl⟩)
  refine hliteral.congr fun ts e => ⟨?_, Phrase.operand⟩
  rintro (⟨value, rfl, rfl⟩ | ⟨es, ⟨us, rfl, hes⟩, rfl⟩ | ⟨name, rfl, rfl⟩ | ⟨us, rfl, hs⟩)
  · exact .literal value
  · exact .array hes
  · exact .identifier name
  · exact .group hs

/-- The arguments of a call, without positions. -/
def bareArguments (arguments : List Expression × Span) : List Expression :=
  arguments.1.map Expression.bare

theorem arguments_parses (he : ReadsExpressions n element) :
    Parses (n + 1) (arguments element) bareArguments Arguments nothing where
  sound := by
    rintro c c' ⟨es, s⟩ hr
    simp only [arguments, runs_named, runs_spanned] at hr
    exact bracketed_sound he openParen_picks closeParen_picks hr.1
  complete := by
    rintro c ts rest es hn ht hr hb -
    obtain ⟨es', c', hes, rfl, hc'⟩ :=
      bracketed_complete he openParen_picks closeParen_picks rfl hn ht hr hb
    refine ⟨(es', c.spanTo c'), c', ?_, rfl, hc'⟩
    rw [arguments, runs_named, runs_spanned]
    exact ⟨hes, rfl⟩

theorem bare_foldl_call (head : Expression) (calls : List (List Expression × Span)) :
    (calls.foldl (fun callee (es, s) => .call callee es (callee.span.through s)) head).bare =
      (calls.map bareArguments).foldl (fun f es => .call f es .nowhere) head.bare := by
  rw [List.foldl_map]
  exact (List.foldl_hom Expression.bare fun e call => (e.bare_call call.1 _).symm).symm

theorem application_parses (he : ReadsExpressions n element) :
    Parses (n + 1) (application element) Expression.bare (Phrase .application)
      (goesOn .application) where
  sound := by
    intro c c' e hr
    simp only [application, runs_named, runs_bind, runs_space, runs_pure] at hr
    obtain ⟨head, d, hhead, _, _, rfl, calls, f, hcalls, rfl, rfl⟩ := hr
    obtain ⟨vs, hvs, hf⟩ := (primary_parses he).sound hhead
    obtain ⟨us, hus, hc⟩ := spaced_sound (arguments_parses he).sound hcalls
    refine ⟨vs ++ us, hvs.append (reads_skip.1 hus), ?_⟩
    rw [bare_foldl_call]
    exact phrase_of_calls hf hc
  complete := by
    intro c ts rest b hn ht hr hphrase hs
    obtain ⟨vs, us, head, calls, rfl, hf, hc, rfl⟩ := hphrase.calls
    have hend : ∀ {d : Cursor}, afterSpace d.ahead = afterSpace rest →
        Fails (arguments element) (skip d) := fun {d} hd =>
      fails_of_stops (arguments_parses he).sound
        (fun ⟨us, hus, _⟩ => ⟨_, _, hus, rfl⟩) (stops_skip.2 (stops_congr hd.symm hs))
    obtain ⟨e, d, es, c', hhead, rfl, hcalls, rfl, hc'⟩ :=
      runs_items (primary_parses he) (arguments_parses he)
        (fun ⟨us, hus, _⟩ => ⟨_, _, hus, rfl⟩) hn ht hr hf hc (stops_nothing rest) hend
    refine ⟨_, c', ?_, bare_foldl_call e es, hc'⟩
    simp only [application, runs_named, runs_bind, runs_space, runs_pure]
    exact ⟨e, d, hhead, (), skip d, rfl, es, c', hcalls, rfl, rfl⟩

end DirectiveQuery.Grammar
