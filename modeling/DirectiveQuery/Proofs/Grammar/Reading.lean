import DirectiveQuery.Proofs.Grammar.Picking

/-
  The parsers of the grammar read its phrases. Of each parser two halves are shown together
  (`Parses`): whatever it finds is a phrase that stands in the text, and where a phrase stands
  and no token behind it can carry the phrase on, the parser finds it and stops behind it. The
  second half is what makes the greedy loops harmless: an operator behind a phrase of its level
  or of a tighter one is taken into it, and nothing else is.
-/
namespace DirectiveQuery.Grammar

open DirectiveQuery.Parser Token

variable {α β : Type} {p : Parser α} {c c' : Cursor} {n : Nat}

/-- No token of the kind is next. -/
def Stops (kind : Token → Bool) (text : List Char) : Prop :=
  ∀ t rest, Next text t rest → kind t = false

/-- The parser reads the phrases, where no token of the kind `goesOn` comes behind them. Values
are compared by their views, and texts at cursors are shorter than the bound. -/
structure Parses (bound : Nat) (p : Parser α) (view : α → β) (phrase : List Token → β → Prop)
    (goesOn : Token → Bool) : Prop where
  sound : ∀ {c c' : Cursor} {a : α}, Runs p c a c' →
    ∃ ts, Reads c.ahead ts c'.ahead ∧ phrase ts (view a)
  complete : ∀ {c : Cursor} {ts : List Token} {rest : List Char} {b : β},
    c.ahead.length < bound → IsTrimmed c → Reads c.ahead ts rest → phrase ts b →
    Stops goesOn rest →
    ∃ a c', Runs p c a c' ∧ view a = b ∧ afterSpace c'.ahead = afterSpace rest

namespace Parses

variable {view : α → β} {phrase other : List Token → β → Prop} {goesOn : Token → Bool}

theorem congr (h : Parses n p view phrase goesOn) (hp : ∀ ts b, phrase ts b ↔ other ts b) :
    Parses n p view other goesOn := by
  have heq : phrase = other := funext fun ts => funext fun b => propext (hp ts b)
  rwa [← heq]

theorem named (rule : Rule) (h : Parses n p view phrase goesOn) :
    Parses n (named rule p) view phrase goesOn where
  sound hr := h.sound (runs_named.1 hr)
  complete hn ht hr hp hs := by
    obtain ⟨a, c', ha, hview, hc'⟩ := h.complete hn ht hr hp hs
    exact ⟨a, c', runs_named.2 ha, hview, hc'⟩

end Parses

/-! ## What comes next -/

theorem stops_congr {kind : Token → Bool} {text other : List Char}
    (h : afterSpace text = afterSpace other) (hs : Stops kind text) : Stops kind other :=
  fun t rest hn => hs t rest ((next_congr h).2 hn)

theorem stops_of_next {kind : Token → Bool} {text rest : List Char} {t : Token}
    (h : Next text t rest) (ht : kind t = false) : Stops kind text := by
  intro u r hn
  obtain ⟨rfl, -⟩ := next_unique h hn
  exact ht

theorem stops_of_reads {kind : Token → Bool} {text rest : List Char} {t : Token}
    {ts : List Token} (h : Reads text (t :: ts) rest) (ht : kind t = false) : Stops kind text := by
  obtain ⟨middle, hn, -⟩ := Reads.cons_iff.1 h
  exact stops_of_next hn ht

theorem stops_mono {kind other : Token → Bool} {text : List Char}
    (hk : ∀ t, kind t = true → other t = true) (h : Stops other text) : Stops kind text := by
  intro t rest hn
  have ho := h t rest hn
  cases hkt : kind t with
  | false => rfl
  | true => rw [hk t hkt] at ho; exact ho

theorem stops_nil (kind : Token → Bool) : Stops kind [] := by
  intro t rest hn
  have h := hn.length_lt
  simp [afterSpace] at h

theorem afterSpace_skip (c : Cursor) : afterSpace (skip c).ahead = afterSpace c.ahead := by
  rw [ahead_skip, afterSpace_afterSpace]

theorem reads_skip {ts : List Token} {rest : List Char} :
    Reads (skip c).ahead ts rest ↔ Reads c.ahead ts rest :=
  ⟨.congr_left (afterSpace_skip c), .congr_left (afterSpace_skip c).symm⟩

theorem stops_skip {kind : Token → Bool} : Stops kind (skip c).ahead ↔ Stops kind c.ahead :=
  ⟨stops_congr (afterSpace_skip c), stops_congr (afterSpace_skip c).symm⟩

/-- A parser of phrases fails before a token that starts none. -/
theorem fails_of_stops {view : α → β} {phrase : List Token → β → Prop} {starts : Token → Bool}
    (hp : ∀ {c c' a}, Runs p c a c' → ∃ ts, Reads c.ahead ts c'.ahead ∧ phrase ts (view a))
    (hf : ∀ {ts b}, phrase ts b → ∃ t us, ts = t :: us ∧ starts t = true)
    (hs : Stops starts c.ahead) : Fails p c := by
  rw [fails_iff]
  intro a c' hr
  obtain ⟨ts, hts, hphrase⟩ := hp hr
  obtain ⟨t, us, rfl, ht⟩ := hf hphrase
  obtain ⟨middle, hn, -⟩ := Reads.cons_iff.1 hts
  have h := hs t middle hn
  rw [ht] at h
  cases h

/-- Of two parsers the first one fails where a phrase of the second one starts. -/
theorem Parses.orElse {q : Parser α} {view : α → β} {phrase other : List Token → β → Prop}
    {goesOn : Token → Bool} (hp : Parses n p view phrase goesOn) (starts : Token → Bool)
    (hq : Parses n q view other goesOn)
    (hps : ∀ {ts b}, phrase ts b → ∃ t us, ts = t :: us ∧ starts t = true)
    (hqs : ∀ {ts b}, other ts b → ∃ t us, ts = t :: us ∧ starts t = false) :
    Parses n (orElse p q) view (fun ts b => phrase ts b ∨ other ts b) goesOn where
  sound := by
    intro c c' a hr
    obtain hr | ⟨-, hr⟩ := runs_orElse.1 hr
    · obtain ⟨ts, hts, hphrase⟩ := hp.sound hr
      exact ⟨ts, hts, .inl hphrase⟩
    · obtain ⟨ts, hts, hphrase⟩ := hq.sound hr
      exact ⟨ts, hts, .inr hphrase⟩
  complete := by
    rintro c ts rest b hn ht hr (hphrase | hphrase) hs
    · obtain ⟨a, c', ha, hview, hc'⟩ := hp.complete hn ht hr hphrase hs
      exact ⟨a, c', runs_orElse.2 (.inl ha), hview, hc'⟩
    · obtain ⟨a, c', ha, hview, hc'⟩ := hq.complete hn ht hr hphrase hs
      obtain ⟨t, us, rfl, hstart⟩ := hqs hphrase
      have hf : Fails p c := fails_of_stops hp.sound hps (stops_of_reads hr hstart)
      exact ⟨a, c', runs_orElse.2 (.inr ⟨hf, ha⟩), hview, hc'⟩

/-! ## One token -/

theorem Picks.reads {value : Token → Option α} {a : α} (h : Picks anywhere p value)
    (hr : Runs p c a c') : ∃ t, value t = some a ∧ Reads c.ahead [t] c'.ahead := by
  obtain ⟨t, lexeme, hv, hs⟩ := h.sound trivial hr
  exact ⟨t, hv, .single hs.next⟩

theorem Picks.runs {value : Token → Option α} {a : α} {t : Token} {ts : List Token}
    {rest : List Char} (h : Picks anywhere p value) (ht : IsTrimmed c)
    (hr : Reads c.ahead (t :: ts) rest) (hv : value t = some a) :
    ∃ c', Runs p c a c' ∧ Reads c'.ahead ts rest ∧
      (skip c').ahead.length < c.ahead.length := by
  obtain ⟨middle, hn, hts⟩ := Reads.cons_iff.1 hr
  obtain ⟨c', hc, rfl⟩ := h.stop trivial ht hn hv
  refine ⟨c', hc, hts, ?_⟩
  have hlt := hn.length_lt
  have hle := length_afterSpace_le c'.ahead
  rw [IsTrimmed] at ht
  rw [ht] at hlt
  rw [ahead_skip]
  omega

/-- What a parser of one token takes is that token. -/
theorem Picks.reads_only {t : Token} {a b : α} (h : Picks anywhere p (only t a))
    (hr : Runs p c b c') : Reads c.ahead [t] c'.ahead := by
  obtain ⟨u, hu, hts⟩ := h.reads hr
  obtain ⟨rfl, -⟩ := only_eq_some.1 hu
  exact hts

/-- A token that is the last one before a rest is taken up to that rest. -/
theorem Picks.runs_last {t : Token} {a : α} {middle rest : List Char}
    (h : Picks anywhere p (only t a)) (hc : afterSpace c.ahead = afterSpace middle)
    (hr : Reads middle [t] rest) :
    ∃ c', Runs p (skip c) a c' ∧ afterSpace c'.ahead = afterSpace rest := by
  have hnext : Reads (skip c).ahead [t] rest := reads_skip.2 (hr.congr_left hc.symm)
  obtain ⟨c', hc', hrest, -⟩ := h.runs (isTrimmed_skip c) hnext (only_eq_some.2 ⟨rfl, rfl⟩)
  obtain ⟨hrest⟩ := hrest
  exact ⟨c', hc', hrest⟩

section Behind

variable {q : Parser β} {γ : Type} {view : β → γ} {phrase : List Token → γ → Prop}
  {goesOn : Token → Bool} {value : Token → Option α}

/-- A token and a phrase behind it. -/
theorem Picks.reads_behind {d : Cursor} {a : α} {b : β} (h : Picks anywhere p value)
    (hq : Parses n q view phrase goesOn) (ha : Runs p c a d) (hb : Runs q (skip d) b c') :
    ∃ t us, value t = some a ∧ Reads c.ahead (t :: us) c'.ahead ∧ phrase us (view b) := by
  obtain ⟨t, ht, hts⟩ := h.reads ha
  obtain ⟨us, hus, hphrase⟩ := hq.sound hb
  exact ⟨t, us, ht, hts.append (reads_skip.1 hus), hphrase⟩

/-- The token makes the text that is left shorter, so the bound may be larger by one. -/
theorem Picks.runs_behind {t : Token} {us : List Token} {a : α} {b : γ} {rest : List Char}
    (h : Picks anywhere p value) (hq : Parses n q view phrase goesOn)
    (hn : c.ahead.length < n + 1) (ht : IsTrimmed c) (hr : Reads c.ahead (t :: us) rest)
    (hv : value t = some a) (hphrase : phrase us b) (hs : Stops goesOn rest) :
    ∃ d b' c', Runs p c a d ∧ Runs q (skip d) b' c' ∧ view b' = b ∧
      afterSpace c'.ahead = afterSpace rest := by
  obtain ⟨d, hd, hus, hlt⟩ := h.runs ht hr hv
  have hshort : (skip d).ahead.length < n := Nat.lt_of_lt_of_le hlt (Nat.le_of_lt_succ hn)
  obtain ⟨b', c', hb, hview, hc'⟩ :=
    hq.complete hshort (isTrimmed_skip d) (reads_skip.2 hus) hphrase hs
  exact ⟨d, b', c', hd, hb, hview, hc'⟩

end Behind

/-! ## Repetition -/

section Spaced

variable {view : α → β} {item : List Token → β → Prop} {goesOn : Token → Bool}

theorem runs_item {a : α} :
    Runs (do space; p) c a c' ↔ Runs p (skip c) a c' := by
  simp only [runs_bind, runs_space]
  constructor
  · rintro ⟨_, _, rfl, h⟩
    exact h
  · intro h
    exact ⟨(), _, rfl, h⟩

theorem fails_item : Fails (do space; p) c ↔ Fails p (skip c) := by
  simp only [fails_iff, runs_item]

theorem repeats_sound {as : List α}
    (hp : ∀ {c c' a}, Runs p c a c' → ∃ ts, Reads c.ahead ts c'.ahead ∧ item ts (view a))
    (hr : Repeats (do space; p) c as c') :
    ∃ us, Reads c.ahead us c'.ahead ∧ Repeated item us (as.map view) := by
  induction hr with
  | nil c => exact ⟨[], .refl _, .nil⟩
  | cons hrun _ ih =>
    obtain ⟨ts, hts, hi⟩ := hp (runs_item.1 hrun)
    obtain ⟨us, hus, hrep⟩ := ih
    exact ⟨ts ++ us, (reads_skip.1 hts).append hus, .cons hi hrep⟩

theorem spaced_sound {as : List α}
    (hp : ∀ {c c' a}, Runs p c a c' → ∃ ts, Reads c.ahead ts c'.ahead ∧ item ts (view a))
    (hr : Runs (spaced p) c as c') :
    ∃ us, Reads c.ahead us c'.ahead ∧ Repeated item us (as.map view) :=
  repeats_sound hp (repeats_of_many hr)

theorem stops_of_repeated (hf : ∀ {ts b}, item ts b → ∃ t us, ts = t :: us ∧ goesOn t = false)
    {us : List Token} {bs : List β} {text rest : List Char} (h : Repeated item us bs)
    (hr : Reads text us rest) (hs : Stops goesOn rest) : Stops goesOn text := by
  cases h with
  | nil =>
    cases hr with
    | nil he => exact stops_congr he.symm hs
  | cons hi _ =>
    obtain ⟨t, vs, rfl, ht⟩ := hf hi
    exact stops_of_reads hr ht

/-- Items follow one another where the first token of an item carries no item on. -/
theorem repeats_of_repeated (hp : Parses n p view item goesOn)
    (hf : ∀ {ts b}, item ts b → ∃ t us, ts = t :: us ∧ goesOn t = false) {us : List Token}
    {bs : List β} {rest : List Char} (h : Repeated item us bs)
    (hn : (afterSpace c.ahead).length < n) (hr : Reads c.ahead us rest)
    (hs : Stops goesOn rest) :
    ∃ as c', Repeats (do space; p) c as c' ∧ as.map view = bs ∧
      afterSpace c'.ahead = afterSpace rest := by
  induction h generalizing c with
  | nil =>
    cases hr with
    | nil he => exact ⟨[], c, .nil c, rfl, he⟩
  | @cons ts us b bs hi hrep ih =>
    obtain ⟨middle, hts, hus⟩ := Reads.append_iff.1 hr
    have hstop := stops_of_repeated hf hrep hus hs
    have hskip : (skip c).ahead.length < n := by rwa [ahead_skip]
    obtain ⟨a, d, hrun, hview, hd⟩ :=
      hp.complete hskip (isTrimmed_skip c) (reads_skip.2 hts) hi hstop
    have hshort : (afterSpace d.ahead).length < n := by
      have := hts.length_le
      rw [hd]
      omega
    obtain ⟨as, c', hreps, hviews, hc'⟩ := ih hshort (hus.congr_left hd.symm)
    exact ⟨a :: as, c', .cons (runs_item.2 hrun) hreps, by rw [List.map_cons, hview, hviews], hc'⟩

theorem Repeated.length_le (hf : ∀ {ts b}, item ts b → ∃ t us, ts = t :: us ∧ goesOn t = false)
    {us : List Token} {bs : List β} (h : Repeated item us bs) : bs.length ≤ us.length := by
  induction h with
  | nil => exact Nat.le_refl _
  | cons hi _ ih =>
    obtain ⟨t, us, rfl, -⟩ := hf hi
    simp only [List.length_cons, List.length_append]
    omega

theorem spaced_complete (hp : Parses n p view item goesOn)
    (hf : ∀ {ts b}, item ts b → ∃ t us, ts = t :: us ∧ goesOn t = false) {us : List Token}
    {bs : List β} {rest : List Char} (h : Repeated item us bs)
    (hn : (afterSpace c.ahead).length < n) (hr : Reads c.ahead us rest)
    (hs : Stops goesOn rest)
    (hend : ∀ {d : Cursor}, afterSpace d.ahead = afterSpace rest → Fails p (skip d)) :
    ∃ as c', Runs (spaced p) c as c' ∧ as.map view = bs ∧
      afterSpace c'.ahead = afterSpace rest := by
  obtain ⟨as, c', hreps, hviews, hc'⟩ := repeats_of_repeated hp hf h hn hr hs
  refine ⟨as, c', many_of_repeats hreps (fails_item.2 (hend hc')) ?_, hviews, hc'⟩
  have hitems := h.length_le hf
  have htokens := hr.length_le
  have htext := length_afterSpace_le c.ahead
  rw [← hviews, List.length_map] at hitems
  omega

/-- A first part and then items: the first part ends before the items, and each item before the
next one. -/
theorem runs_items {γ δ : Type} {q : Parser γ} {viewed : γ → δ} {phrase : List Token → δ → Prop}
    (hq : Parses n q viewed phrase goesOn) (hp : Parses n p view item goesOn)
    (hf : ∀ {ts b}, item ts b → ∃ t us, ts = t :: us ∧ goesOn t = false)
    {vs us : List Token} {first : δ} {bs : List β} {rest : List Char}
    (hn : c.ahead.length < n) (ht : IsTrimmed c) (hr : Reads c.ahead (vs ++ us) rest)
    (hfirst : phrase vs first) (hitems : Repeated item us bs) (hs : Stops goesOn rest)
    (hend : ∀ {d : Cursor}, afterSpace d.ahead = afterSpace rest → Fails p (skip d)) :
    ∃ a d as c', Runs q c a d ∧ viewed a = first ∧ Runs (spaced p) (skip d) as c' ∧
      as.map view = bs ∧ afterSpace c'.ahead = afterSpace rest := by
  obtain ⟨middle, hvs, hus⟩ := Reads.append_iff.1 hr
  obtain ⟨a, d, hrun, hview, hd⟩ :=
    hq.complete hn ht hvs hfirst (stops_of_repeated hf hitems hus hs)
  have hshort : (afterSpace (skip d).ahead).length < n := by
    have hle := hvs.length_le
    have htext := length_afterSpace_le c.ahead
    rw [afterSpace_skip, hd]
    omega
  obtain ⟨as, c', hspaced, hviews, hc'⟩ := spaced_complete hp hf hitems hshort
    (reads_skip.2 (hus.congr_left hd.symm)) hs hend
  exact ⟨a, d, as, c', hrun, hview, hspaced, hviews, hc'⟩

end Spaced

/-! ## What carries a phrase on -/

/-- The token carries a phrase of the level on: it opens a call, or it joins phrases of this or
a tighter level. -/
def goesOn (l : Level) : Token → Bool
  | .openParen => l ≠ .primary
  | .operator o => l.rank ≤ (operatorLevel o).rank
  | _ => false

theorem goesOn_of_tighter {l : Level} {t : Token} (h : goesOn l.tighter t = true) :
    goesOn l t = true := by
  cases t with
  | openParen => cases l <;> first | rfl | exact h
  | operator o =>
    simp only [goesOn, decide_eq_true_eq] at h ⊢
    have hl : l.rank ≤ l.tighter.rank := by cases l <;> decide
    omega
  | _ => exact h

theorem goesOn_operator (o : Operator) : goesOn (operatorLevel o) (.operator o) = true := by
  simp [goesOn]

theorem goesOn_tighter_operator (o : Operator) :
    goesOn (operatorLevel o).tighter (.operator o) = false := by
  rcases o with o | o <;> cases o <;> rfl

/-! ## Chains of operators -/

section Chain

variable {l : Level} {operator : Parser Operator} {operand : Parser Expression}

/-- An operator and its right operand, without positions. -/
def bareJoint (joint : Operator × Expression) : Operator × Expression :=
  (joint.1, joint.2.bare)

theorem bare_joined (left : Expression) (o : Operator) (right : Expression) :
    (joined left o right).bare = node left.bare o right.bare := by
  cases o <;> rfl

theorem bare_foldl_joined (first : Expression) (joints : List (Operator × Expression)) :
    (joints.foldl (fun left (o, right) => joined left o right) first).bare =
      (joints.map bareJoint).foldl (fun left j => node left j.1 j.2) first.bare := by
  rw [List.foldl_map]
  exact (List.foldl_hom Expression.bare fun e j => (bare_joined e j.1 j.2).symm).symm

theorem Joint.first {ts : List Token} {joint : Operator × Expression} (h : Joint l ts joint) :
    ∃ t us, ts = t :: us ∧ goesOn l t = true := by
  obtain ⟨rfl, us, rfl, -⟩ := h
  exact ⟨_, us, rfl, goesOn_operator _⟩

theorem Joint.notTighter {ts : List Token} {joint : Operator × Expression} (h : Joint l ts joint) :
    ∃ t us, ts = t :: us ∧ goesOn l.tighter t = false := by
  obtain ⟨rfl, us, rfl, -⟩ := h
  exact ⟨_, us, rfl, goesOn_tighter_operator _⟩

theorem joint_parses (ho : Picks anywhere operator (operatorOf l))
    (hp : Parses n operand Expression.bare (Phrase l.tighter) (goesOn l.tighter)) :
    Parses n (do
      let o ← operator
      space
      let right ← operand
      return (o, right)) bareJoint (Joint l) (goesOn l.tighter) where
  sound := by
    intro c c' joint hr
    simp only [runs_bind, runs_space, runs_pure] at hr
    obtain ⟨o, d, ho', _, _, rfl, right, e, hright, rfl, rfl⟩ := hr
    obtain ⟨t, us, ht, hus, hphrase⟩ := ho.reads_behind hp ho' hright
    obtain ⟨rfl, hl⟩ := operatorOf_eq_some.1 ht
    exact ⟨_, hus, hl, us, rfl, hphrase⟩
  complete := by
    rintro c ts rest ⟨o, e⟩ hn ht hr ⟨hl, us, rfl, hphrase⟩ hs
    obtain ⟨d, right, c', hd, hright, rfl, hc'⟩ := ho.runs_behind hp (Nat.lt_succ_of_lt hn) ht hr
      (operatorOf_eq_some.2 ⟨rfl, hl⟩) hphrase hs
    refine ⟨(o, right), c', ?_, rfl, hc'⟩
    simp only [runs_bind, runs_space, runs_pure]
    exact ⟨o, d, hd, (), skip d, rfl, right, c', hright, rfl, rfl⟩

theorem chain_parses (rule : Rule) (hl : l.isChain) (ho : Picks anywhere operator (operatorOf l))
    (hp : Parses n operand Expression.bare (Phrase l.tighter) (goesOn l.tighter)) :
    Parses n (chain rule operator operand) Expression.bare (Phrase l) (goesOn l) where
  sound := by
    intro c c' e hr
    simp only [chain, runs_named, runs_bind, runs_space, runs_pure] at hr
    obtain ⟨first, d, hfirst, _, _, rfl, joints, e, hjoints, rfl, rfl⟩ := hr
    obtain ⟨vs, hvs, hf⟩ := hp.sound hfirst
    obtain ⟨us, hus, hj⟩ := spaced_sound (joint_parses ho hp).sound hjoints
    refine ⟨vs ++ us, hvs.append (reads_skip.1 hus), ?_⟩
    rw [bare_foldl_joined]
    exact phrase_of_chain hl hf hj
  complete := by
    intro c ts rest b hn ht hr hphrase hs
    obtain ⟨vs, us, first, joints, rfl, hf, hj, rfl⟩ := hphrase.chain hl
    have hitems := joint_parses ho hp
    have htighter : Stops (goesOn l.tighter) rest := stops_mono (fun _ => goesOn_of_tighter) hs
    have hend : ∀ {d : Cursor}, afterSpace d.ahead = afterSpace rest →
        Fails _ (skip d) := fun {d} hd =>
      fails_of_stops hitems.sound Joint.first
        (stops_skip.2 (stops_congr hd.symm hs))
    obtain ⟨e, d, es, c', hfirst, rfl, hjoints, rfl, hc'⟩ :=
      runs_items hp hitems Joint.notTighter hn ht hr hf hj htighter hend
    refine ⟨_, c', ?_, bare_foldl_joined e es, hc'⟩
    simp only [chain, runs_named, runs_bind, runs_space, runs_pure]
    exact ⟨e, d, hfirst, (), skip d, rfl, es, c', hjoints, rfl, rfl⟩

end Chain

end DirectiveQuery.Grammar
