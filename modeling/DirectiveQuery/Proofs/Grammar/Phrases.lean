import DirectiveQuery.Proofs.Grammar.Reading

/-
  Comma lists, and what stands in brackets. All are read over one parser of the expressions in
  them, which is assumed to read expressions from texts below a bound; with brackets around them
  they are read from texts that are longer by one.
-/
namespace DirectiveQuery.Grammar

open DirectiveQuery.Parser Token

variable {c c' : Cursor} {n : Nat} {element : Parser Expression}

/-- The parser reads expressions from texts below the bound. -/
def ReadsExpressions (bound : Nat) (element : Parser Expression) : Prop :=
  Parses bound element Expression.bare (Phrase .disjunction) (goesOn .disjunction)

/-! ## Comma lists -/

theorem comma_picks : Picks anywhere (token ",") (only .comma ()) :=
  punctuation_picks "," .comma (by decide) (by decide) (by decide)

/-- The token is a comma. -/
def isComma (t : Token) : Bool := t = .comma

theorem fails_comma (hs : Stops isComma c.ahead) : Fails (token ",") c := by
  rw [fails_iff]
  intro u c' hr
  obtain ⟨middle, hn, -⟩ := Reads.cons_iff.1 (comma_picks.reads_only hr)
  exact Bool.noConfusion (hs _ _ hn)

theorem further_parses (he : ReadsExpressions n element) :
    Parses n (do
      token ","
      space
      element) Expression.bare Further (goesOn .disjunction) where
  sound := by
    intro c c' e hr
    simp only [runs_bind, runs_space] at hr
    obtain ⟨_, d, hcomma, _, _, rfl, hr⟩ := hr
    obtain ⟨t, us, ht, hus, hphrase⟩ := comma_picks.reads_behind he hcomma hr
    obtain ⟨rfl, -⟩ := only_eq_some.1 ht
    exact ⟨_, hus, us, rfl, hphrase⟩
  complete := by
    rintro c ts rest e hn ht hr ⟨us, rfl, hphrase⟩ hs
    obtain ⟨d, a, c', hd, ha, rfl, hc'⟩ := comma_picks.runs_behind he (Nat.lt_succ_of_lt hn) ht hr
      (only_eq_some.2 ⟨rfl, rfl⟩) hphrase hs
    refine ⟨a, c', ?_, rfl, hc'⟩
    simp only [runs_bind, runs_space]
    exact ⟨(), d, hd, (), skip d, rfl, ha⟩

theorem Further.first {ts : List Token} {e : Expression} (h : Further ts e) :
    ∃ t us, ts = t :: us ∧ goesOn .disjunction t = false := by
  obtain ⟨us, rfl, -⟩ := h
  exact ⟨_, us, rfl, rfl⟩

/-- The token carries a comma list on. -/
def goesOnListing (t : Token) : Bool := goesOn .disjunction t || isComma t

theorem listing_sound (he : ReadsExpressions n element) {first : Expression}
    {others : List Expression} {d : Cursor} (hfirst : Runs element c first d)
    (hothers : Runs (furtherElements element) (skip d) others c') :
    ∃ ts, Reads c.ahead ts c'.ahead ∧ Listing ts ((first :: others).map Expression.bare) := by
  obtain ⟨vs, hvs, hphrase⟩ := he.sound hfirst
  obtain ⟨us, hus, hitems⟩ := spaced_sound (further_parses he).sound hothers
  exact ⟨vs ++ us, hvs.append (reads_skip.1 hus), (Listing.one hphrase).append hitems⟩

/-- Where a list ends, the loop over further elements ends: no comma is next, or the comma that
may follow the list. -/
theorem listing_complete (he : ReadsExpressions n element) {ts : List Token}
    {es : List Expression} {rest : List Char} (hn : c.ahead.length < n) (ht : IsTrimmed c)
    (hr : Reads c.ahead ts rest) (hl : Listing ts es) (hs : Stops (goesOn .disjunction) rest)
    (hend : ∀ {d : Cursor}, afterSpace d.ahead = afterSpace rest →
      Fails (do token ","; space; element) (skip d)) :
    ∃ first d others c', Runs element c first d ∧
      Runs (furtherElements element) (skip d) others c' ∧
      (first :: others).map Expression.bare = es ∧ afterSpace c'.ahead = afterSpace rest := by
  obtain ⟨vs, us, first, others, rfl, hf, hothers, rfl⟩ := hl.further
  obtain ⟨e, d, es, c', hfirst, rfl, hes, rfl, hc'⟩ :=
    runs_items he (further_parses he) Further.first hn ht hr hf hothers hs hend
  exact ⟨e, d, es, c', hfirst, hes, rfl, hc'⟩

/-- The loop over further elements ends where no comma is next. -/
theorem fails_further (he : ReadsExpressions n element) {rest : List Char}
    (hs : Stops isComma rest) {d : Cursor} (hd : afterSpace d.ahead = afterSpace rest) :
    Fails (do token ","; space; element) (skip d) := by
  refine fails_of_stops (further_parses he).sound (fun h => ?_)
    (stops_skip.2 (stops_congr hd.symm hs))
  obtain ⟨us, rfl, -⟩ := h
  exact ⟨_, us, rfl, rfl⟩

theorem sequence_parses (he : ReadsExpressions n element) :
    Parses n (sequence element) Expression.bare Series goesOnListing where
  sound := by
    intro c c' e hr
    simp only [sequence, runs_named, runs_bind, runs_here, runs_space, runs_pure] at hr
    obtain ⟨_, _, ⟨rfl, rfl⟩, first, d, hfirst, _, _, rfl, others, e, hothers, _, _, ⟨rfl, rfl⟩,
      rfl, rfl⟩ := hr
    obtain ⟨ts, hts, hl⟩ := listing_sound he hfirst hothers
    refine ⟨ts, hts, ?_⟩
    cases others with
    | nil => exact .single hl
    | cons other others =>
      rw [List.isEmpty_cons, if_neg Bool.false_ne_true, Expression.bare_sequence]
      exact .several hl (by simp)
  complete := by
    intro c ts rest e hn ht hr hseries hs
    have hdisjunction : Stops (goesOn .disjunction) rest :=
      stops_mono (fun t h => by rw [goesOnListing, h, Bool.true_or]) hs
    have hcomma : Stops isComma rest :=
      stops_mono (fun t h => by rw [goesOnListing, h, Bool.or_true]) hs
    obtain ⟨es, hl, hview⟩ : ∃ es, Listing ts es ∧
        (es = [e] ∨ 1 < es.length ∧ e = .sequence es .nowhere) := by
      cases hseries with
      | single hl => exact ⟨[e], hl, .inl rfl⟩
      | several hl hlen => exact ⟨_, hl, .inr ⟨hlen, rfl⟩⟩
    obtain ⟨first, d, others, c', hfirst, hothers, rfl, hc'⟩ :=
      listing_complete he hn ht hr hl hdisjunction (fails_further he hcomma)
    refine ⟨if others.isEmpty then first else .sequence (first :: others) (c.spanTo c'), c',
      ?_, ?_, hc'⟩
    · simp only [sequence, runs_named, runs_bind, runs_here, runs_space, runs_pure]
      exact ⟨_, _, ⟨rfl, rfl⟩, first, d, hfirst, (), skip d, rfl, others, c', hothers, _, _,
        ⟨rfl, rfl⟩, rfl, rfl⟩
    · cases others with
      | nil =>
        obtain h | ⟨hlen, -⟩ := hview
        · exact (List.cons.inj h).1
        · simp at hlen
      | cons other others =>
        rw [List.isEmpty_cons, if_neg Bool.false_ne_true, Expression.bare_sequence]
        obtain h | ⟨-, h⟩ := hview
        · simp at h
        · exact h.symm

/-! ## Lists in brackets -/

/-- The token closes brackets. -/
def isClosing (t : Token) : Bool := t = .closeParen || t = .closeBracket

theorem isFirst_of_isClosing {t : Token} (h : isClosing t = true) :
    isFirst .disjunction t = false := by
  cases t <;> first | rfl | cases h

theorem Listing.ne_nil {ts : List Token} {es : List Expression} (h : Listing ts es) :
    es ≠ [] := by
  cases h <;> simp

theorem elements_sound (he : ReadsExpressions n element) {es : List Expression}
    (hr : Runs (elements element) c es c') :
    ∃ ts, Reads c.ahead ts c'.ahead ∧ Elements ts (es.map Expression.bare) ∧
      es.map Expression.bare ≠ [] := by
  simp only [elements, runs_bind, runs_space, runs_pure] at hr
  obtain ⟨first, d, hfirst, _, _, rfl, others, e, hothers, _, _, rfl, _, f, hcomma, rfl, rfl⟩ := hr
  obtain ⟨ts, hts, hl⟩ := listing_sound he hfirst hothers
  obtain hcomma | ⟨-, -, rfl⟩ := runs_withDefault.1 hcomma
  · have hcts := comma_picks.reads_only hcomma
    exact ⟨_, hts.append (reads_skip.1 hcts), .trailing hl, hl.ne_nil⟩
  · exact ⟨ts, hts.congr_right (afterSpace_skip e).symm, .listing hl, hl.ne_nil⟩

/-- A list in brackets, up to the comma that may follow it. -/
theorem runs_elements (he : ReadsExpressions n element) {ts : List Token}
    {es : List Expression} {rest : List Char} (hn : c.ahead.length < n) (ht : IsTrimmed c)
    (hr : Reads c.ahead ts rest) (hl : Listing ts es) (hs : Stops (goesOn .disjunction) rest)
    (hend : ∀ {d : Cursor}, afterSpace d.ahead = afterSpace rest →
      Fails (do token ","; space; element) (skip d)) :
    ∃ es' e, es'.map Expression.bare = es ∧ afterSpace e.ahead = afterSpace rest ∧
      ∀ {u f}, Runs (withDefault () (token ",")) (skip e) u f → Runs (elements element) c es' f := by
  obtain ⟨first, d, others, e, hfirst, hothers, hviews, he'⟩ :=
    listing_complete he hn ht hr hl hs hend
  refine ⟨first :: others, e, hviews, he', fun hcomma => ?_⟩
  simp only [elements, runs_bind, runs_space, runs_pure]
  exact ⟨first, d, hfirst, (), skip d, rfl, others, e, hothers, (), skip e, rfl, _, _, hcomma,
    rfl, rfl⟩

/-- The comma behind a list is no further element, since no expression starts with a closing
bracket. -/
theorem fails_further_closing (he : ReadsExpressions n element) {middle after rest tail : List Char}
    {t : Token} (hcomma : Next middle .comma after) (hafter : afterSpace after = afterSpace rest)
    (hclose : Next rest t tail) (htc : isClosing t = true) {d : Cursor}
    (hd : afterSpace d.ahead = afterSpace middle) :
    Fails (do token ","; space; element) (skip d) := by
  rw [fails_iff]
  intro e d' hr
  obtain ⟨ts, hts, us, rfl, hphrase⟩ := (further_parses he).sound hr
  obtain ⟨after', hcomma', hus⟩ := Reads.cons_iff.1 (reads_skip.1 hts)
  obtain ⟨-, rfl⟩ := next_unique ((next_congr hd).1 hcomma') hcomma
  obtain ⟨t', vs, rfl, ht'⟩ := hphrase.first
  obtain ⟨_, hn, -⟩ := Reads.cons_iff.1 hus
  obtain ⟨rfl, -⟩ := next_unique ((next_congr hafter).1 hn) hclose
  rw [isFirst_of_isClosing htc] at ht'
  cases ht'

/-- A closing bracket ends a list, and so does a comma before it. -/
theorem elements_complete (he : ReadsExpressions n element) {ts : List Token}
    {es : List Expression} {rest : List Char} (hn : c.ahead.length < n) (ht : IsTrimmed c)
    (hr : Reads c.ahead ts rest) (hes : Elements ts es) (hne : es ≠ [])
    {t : Token} {tail : List Char} (hclose : Next rest t tail) (htc : isClosing t = true) :
    ∃ es' c', Runs (elements element) c es' c' ∧ es'.map Expression.bare = es ∧
      afterSpace c'.ahead = afterSpace rest := by
  have hgoesOn : goesOn .disjunction t = false := by
    cases t <;> first | rfl | cases htc
  have hcomma : isComma t = false := by
    cases t <;> first | rfl | cases htc
  cases hes with
  | none => exact absurd rfl hne
  | listing hl =>
    have hstop : Stops isComma rest := stops_of_next hclose hcomma
    obtain ⟨es', e, hviews, he', hruns⟩ :=
      runs_elements he hn ht hr hl (stops_of_next hclose hgoesOn) (fails_further he hstop)
    refine ⟨es', skip e, hruns (runs_withDefault.2 (.inr ⟨fails_comma ?_, rfl, rfl⟩)), hviews, ?_⟩
    · exact stops_skip.2 (stops_congr he'.symm hstop)
    · rw [afterSpace_skip, he']
  | trailing hl =>
    obtain ⟨middle, hus, hlast⟩ := Reads.append_iff.1 hr
    obtain ⟨after, hnext, hafter⟩ := Reads.cons_iff.1 hlast
    obtain ⟨hafter⟩ := hafter
    obtain ⟨es', e, hviews, he', hruns⟩ := runs_elements he hn ht hus hl
      (stops_of_next hnext rfl) (fails_further_closing he hnext hafter hclose htc)
    obtain ⟨f, hf, hrest⟩ := comma_picks.runs_last he' hlast
    exact ⟨es', f, hruns (runs_withDefault.2 (.inl hf)), hviews, hrest⟩

end DirectiveQuery.Grammar
