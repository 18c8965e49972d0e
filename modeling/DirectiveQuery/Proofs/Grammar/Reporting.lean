import DirectiveQuery.Proofs.Grammar.Places

/-
  What parsers report. The rules that are blamed for a failure come out of reports that were
  merged, renamed and overridden on the way. Here a blame is followed back to the parser that it
  comes from (`Reports`), with one lemma for each way to build a parser; and it is told when a
  report is sure to override another one, since it lies behind it (`From`).
-/
namespace DirectiveQuery

namespace Misses

variable {m m' : Misses} {c : Cursor} {rule other : Rule} {b k : Nat}

/-- The rule is among those that failed furthest on, at the byte position. -/
def Names (m : Misses) (rule : Rule) (byte : Nat) : Prop :=
  ∃ place rules, m = .tried place rules ∧ place.byte = byte ∧ rule ∈ rules

/-- What failed furthest on, if anything, failed at the byte position or behind it. -/
def NotBefore (m : Misses) (byte : Nat) : Prop :=
  ∀ place rules, m = .tried place rules → rules ≠ [] ∧ byte ≤ place.byte

/-- What failed furthest on, if anything, failed at a cursor along the text ahead of this one. -/
def Along (m : Misses) (c : Cursor) : Prop :=
  ∀ place rules, m = .tried place rules → ∃ n ≤ c.ahead.length, place = c.advance n

/-- Something failed at the byte position or behind it. -/
def From (m : Misses) (byte : Nat) : Prop :=
  ∃ place rules, m = .tried place rules ∧ byte ≤ place.byte

/-- Something failed behind the cursor, or one rule alone. -/
def Settled (m : Misses) (c : Cursor) : Prop :=
  ∃ place rules, m = .tried place rules ∧ (c.byte < place.byte ∨ rules.length = 1)

/-- Something failed behind the cursor, or several rules did at it. -/
def Crowded (m : Misses) (c : Cursor) : Prop :=
  ∃ place rules, m = .tried place rules ∧
    (c.byte < place.byte ∨ c.byte = place.byte ∧ 2 ≤ rules.length)

theorem not_names_nothing : ¬ Names nothing rule b := by
  rintro ⟨_, _, h, -⟩
  cases h

theorem Names.le (h : m.Names rule k) (hf : m.From b) : b ≤ k := by
  obtain ⟨p, rs, rfl, rfl, -⟩ := h
  obtain ⟨_, _, ⟨⟩, hb⟩ := hf
  exact hb

theorem From.mono {b' : Nat} (h : m.From b) (hb : b' ≤ b) : m.From b' := by
  obtain ⟨p, rs, hm, hle⟩ := h
  exact ⟨p, rs, hm, Nat.le_trans hb hle⟩

theorem From.settled (h : m.From b) (hb : c.byte < b) : m.Settled c := by
  obtain ⟨p, rs, hm, hle⟩ := h
  exact ⟨p, rs, hm, .inl (Nat.lt_of_lt_of_le hb hle)⟩

theorem NotBefore.mono {b' : Nat} (h : m.NotBefore b) (hb : b' ≤ b) : m.NotBefore b' :=
  fun p rs hm => ⟨(h p rs hm).1, Nat.le_trans hb (h p rs hm).2⟩

theorem notBefore_nothing (b : Nat) : NotBefore nothing b := by
  rintro _ _ ⟨⟩

theorem along_nothing (c : Cursor) : Along nothing c := by
  rintro _ _ ⟨⟩

theorem Along.behind {n : Nat} (h : m.Along (c.advance n)) (hn : n ≤ c.ahead.length) :
    m.Along c := by
  intro p rs hm
  obtain ⟨k, hk, rfl⟩ := h p rs hm
  rw [Cursor.ahead_advance, List.length_drop] at hk
  exact ⟨n + k, by omega, Cursor.advance_advance n k c⟩

theorem Settled.mono {c' : Cursor} (h : m.Settled c') (hc : c.byte ≤ c'.byte) : m.Settled c := by
  obtain ⟨p, rs, hm, hlt | hone⟩ := h
  · exact ⟨p, rs, hm, .inl (Nat.lt_of_le_of_lt hc hlt)⟩
  · exact ⟨p, rs, hm, .inr hone⟩

/-! ## Two reports -/

theorem names_merge (h : (m.merge m').Names rule b) : m.Names rule b ∨ m'.Names rule b := by
  obtain ⟨p, rs, hm, rfl, hr⟩ := h
  cases m <;> cases m' <;> grind [merge, Names]

theorem notBefore_merge (h : m.NotBefore b) (h' : m'.NotBefore b) :
    (m.merge m').NotBefore b := by
  intro p rs hm
  cases m <;> cases m' <;> grind [merge, NotBefore, List.append_eq_nil_iff]

theorem along_merge (h : m.Along c) (h' : m'.Along c) : (m.merge m').Along c := by
  intro p rs hm
  cases m <;> cases m' <;> grind [merge, Along]

theorem from_merge_left (h : m.From b) : (m.merge m').From b := by
  obtain ⟨p, rs, rfl, hle⟩ := h
  cases m' <;> grind [merge, From]

theorem from_merge_right (h : m'.From b) : (m.merge m').From b := by
  obtain ⟨p, rs, rfl, hle⟩ := h
  cases m <;> grind [merge, From]

theorem crowded_merge (h : m.Crowded c) (h' : m'.NotBefore c.byte) : (m.merge m').Crowded c := by
  obtain ⟨p, rs, rfl, hle⟩ := h
  cases m' <;> grind [merge, Crowded, NotBefore]

/-- Of two rules that failed at the same place both are told. -/
theorem crowded_merge_tried {rs rs' : List Rule} (h : rs ≠ []) (h' : rs' ≠ []) :
    ((tried c rs).merge (tried c rs')).Crowded c := by
  have := List.length_pos_iff.2 h
  have := List.length_pos_iff.2 h'
  refine ⟨c, rs ++ rs', by simp [merge], .inr ⟨rfl, ?_⟩⟩
  rw [List.length_append]
  omega

/-! ## Under a name -/

theorem names_nameAt (h : (m.nameAt c other).Names rule b) :
    rule = other ∧ b = c.byte ∨ m.Names rule b := by
  obtain ⟨p, rs, hm, rfl, hr⟩ := h
  cases m <;> grind [nameAt, Names]

theorem names_nameAt_of_crowded (hc : m.Crowded c) (h : (m.nameAt c other).Names rule b) :
    rule = other ∧ b = c.byte ∨ m.Names rule b ∧ c.byte < b := by
  obtain ⟨p, rs, rfl, hlt⟩ := hc
  obtain ⟨q, qs, hm, rfl, hr⟩ := h
  grind [nameAt, Names]

theorem nameAt_of_settled (h : m.Settled c) : m.nameAt c other = m := by
  obtain ⟨p, rs, rfl, hlt⟩ := h
  grind [nameAt]

theorem notBefore_nameAt (h : m.NotBefore c.byte) : (m.nameAt c rule).NotBefore c.byte := by
  intro p rs hm
  cases m <;> grind [nameAt, NotBefore]

theorem along_nameAt (h : m.Along c) : (m.nameAt c rule).Along c := by
  intro p rs hm
  cases m with
  | nothing =>
    cases hm
    exact ⟨0, Nat.zero_le _, rfl⟩
  | tried q qs =>
    rw [nameAt] at hm
    split at hm
    · exact h p rs hm
    · cases hm
      exact ⟨0, Nat.zero_le _, rfl⟩

theorem settled_nameAt (m : Misses) (c : Cursor) (rule : Rule) : (m.nameAt c rule).Settled c := by
  cases m <;> grind [nameAt, Settled]

theorem from_nameAt (h : m.NotBefore c.byte) : (m.nameAt c rule).From c.byte := by
  obtain ⟨p, rs, hm, -⟩ := settled_nameAt m c rule
  exact ⟨p, rs, hm, (notBefore_nameAt h p rs hm).2⟩

end Misses

namespace Parser

open Misses

variable {α β : Type} {p q : Parser α} {c c' : Cursor} {a : α} {rule other : Rule} {b : Nat}

/-! ## The reports of parsers -/

theorem misses_bind_of_fails {f : α → Parser β} (h : Fails p c) :
    ((p >>= f) c).misses = (p c).misses := by
  show (Parser.bind p f c).misses = _
  unfold Fails at h
  unfold Parser.bind
  split <;> simp_all

theorem misses_bind_of_runs {f : α → Parser β} (h : Runs p c a c') :
    ((p >>= f) c).misses = (p c).misses.merge (f a c').misses := by
  show (Parser.bind p f c).misses = _
  unfold Runs at h
  unfold Parser.bind
  split <;> simp_all

theorem misses_orElse_of_fails (h : Fails p c) :
    (orElse p q c).misses = (p c).misses.merge (q c).misses := by
  unfold Fails at h
  unfold orElse
  split <;> simp_all

theorem misses_orElse_of_runs (h : Runs p c a c') : (orElse p q c).misses = (p c).misses := by
  unfold Runs at h
  unfold orElse
  split <;> simp_all

theorem misses_named_of_fails (h : Fails p c) :
    (named rule p c).misses = (p c).misses.nameAt c rule := by
  unfold Fails at h
  unfold named
  split <;> simp_all

theorem misses_named_of_runs (h : Runs p c a c') : (named rule p c).misses = (p c).misses := by
  unfold Runs at h
  unfold named
  split <;> simp_all

theorem misses_repeatWithin_of_fails {ch : Char} {bound : List Char} (h : Fails p c) :
    (repeatWithin p (ch :: bound) c).misses = (p c).misses := by
  unfold Fails at h
  rw [repeatWithin]
  split <;> simp_all

theorem misses_repeatWithin_of_runs {ch : Char} {bound : List Char} (h : Runs p c a c') :
    (repeatWithin p (ch :: bound) c).misses =
      (p c).misses.merge (repeatWithin p bound c').misses := by
  unfold Runs at h
  rw [repeatWithin]
  split <;> simp_all

theorem fails_or_runs (p : Parser α) (c : Cursor) : Fails p c ∨ ∃ a c', Runs p c a c' := by
  unfold Fails Runs
  cases h : (p c).result with
  | none => exact .inl rfl
  | some x => exact .inr ⟨x.1, x.2, rfl⟩

theorem fails_orElse : Fails (orElse p q) c ↔ Fails p c ∧ Fails q c := by
  rw [Fails, Fails, Fails, result_orElse, Option.or_eq_none_iff]

/-- The parser never fails. -/
def Total (p : Parser α) : Prop := ∀ c, ∃ a c', Runs p c a c'

theorem total_pure (a : α) : Total (Pure.pure a : Parser α) := fun _ => ⟨_, _, rfl⟩

theorem total_here : Total here := fun _ => ⟨_, _, rfl⟩

theorem Total.bind {f : α → Parser β} (hp : Total p) (hf : ∀ a, Total (f a)) :
    Total (p >>= f) := by
  intro c
  obtain ⟨a, d, ha⟩ := hp c
  obtain ⟨x, c', hx⟩ := hf a d
  exact ⟨x, c', runs_bind.2 ⟨a, d, ha, hx⟩⟩

theorem total_many (p : Parser α) : Total (many p) := by
  have hbound : ∀ (bound : List Char) c, ∃ as c',
      (repeatWithin p bound c).result = some (as, c') := by
    intro bound
    induction bound with
    | nil => exact fun c => ⟨_, _, rfl⟩
    | cons ch bound ih =>
      intro c
      rw [result_repeatWithin_cons]
      cases (p c).result with
      | none => exact ⟨_, _, rfl⟩
      | some x =>
        obtain ⟨as, c', h⟩ := ih x.2
        exact ⟨x.1 :: as, c', by dsimp only; rw [h]; rfl⟩
  exact fun c => hbound _ c

/-- With parsers behind it that never fail, a parser is what fails. -/
theorem fails_of_fails_bind {f : α → Parser β} (hf : ∀ a, Total (f a)) (h : Fails (p >>= f) c) :
    Fails p c := by
  refine fails_iff.2 fun a d ha => ?_
  obtain ⟨x, c', hx⟩ := hf a d
  exact fails_iff.1 h x c' (runs_bind.2 ⟨a, d, ha, hx⟩)

theorem misses_here_bind (f : Cursor → Parser β) (c : Cursor) :
    ((here >>= f) c).misses = (f c c).misses :=
  (misses_bind_of_runs (runs_here.2 ⟨rfl, rfl⟩)).trans (nothing_merge _)

theorem fails_here_bind {f : Cursor → Parser β} (h : Fails (here >>= f) c) : Fails (f c) c :=
  fails_iff.2 fun a c' hr =>
    fails_iff.1 h a c' (runs_bind.2 ⟨c, c, runs_here.2 ⟨rfl, rfl⟩, hr⟩)

theorem misses_spanned_of_fails (h : Fails p c) : (spanned p c).misses = (p c).misses := by
  rw [spanned, misses_here_bind, misses_bind_of_fails h]

/-- The parser blames no rule. -/
def Silent (p : Parser α) : Prop := ∀ c, (p c).misses = .nothing

theorem silent_pure (a : α) : Silent (Pure.pure a : Parser α) := fun _ => rfl

theorem silent_here : Silent here := fun _ => rfl

theorem silent_fail : Silent (fail : Parser α) := fun _ => rfl

theorem silent_scanned (scan : List Char → Option (α × List Char)) : Silent (scanned scan) := by
  intro c
  unfold scanned
  split <;> rfl

theorem silent_endOfText : Silent endOfText := by
  intro c
  unfold endOfText
  split <;> rfl

theorem Silent.bind {f : α → Parser β} (hp : Silent p) (hf : ∀ a, Silent (f a)) :
    Silent (p >>= f) := by
  intro c
  obtain h | ⟨a, c', hr⟩ := fails_or_runs p c
  · rw [misses_bind_of_fails h, hp c]
  · rw [misses_bind_of_runs hr, hp c, hf a c', merge_nothing]

theorem Silent.orElse (hp : Silent p) (hq : Silent q) : Silent (Parser.orElse p q) := by
  intro c
  obtain h | ⟨a, c', hr⟩ := fails_or_runs p c
  · rw [misses_orElse_of_fails h, hp c, hq c, merge_nothing]
  · rw [misses_orElse_of_runs hr, hp c]

/-! ## Following a blame -/

/-- At the cursor the parser, whether it succeeds or not, blames the rule for a failure at the
byte position. -/
def Reports (p : Parser α) (c : Cursor) (rule : Rule) (byte : Nat) : Prop :=
  (p c).misses.Names rule byte

theorem Silent.not_reports (h : Silent p) : ¬ Reports p c rule b := by
  rw [Reports, h c]
  exact not_names_nothing

theorem reports_bind {f : α → Parser β} (h : Reports (p >>= f) c rule b) :
    Reports p c rule b ∨ ∃ a c', Runs p c a c' ∧ Reports (f a) c' rule b := by
  obtain hf | ⟨a, c', hr⟩ := fails_or_runs p c
  · rw [Reports, misses_bind_of_fails hf] at h
    exact .inl h
  · rw [Reports, misses_bind_of_runs hr] at h
    exact (names_merge h).imp id fun h => ⟨a, c', hr, h⟩

theorem Silent.reports_bind {f : α → Parser β} (hp : Silent p)
    (h : Reports (p >>= f) c rule b) : ∃ a c', Runs p c a c' ∧ Reports (f a) c' rule b :=
  (Parser.reports_bind h).resolve_left hp.not_reports

/-- What comes behind a parser, if it blames no rule, does not count. -/
theorem reports_bind_silent {f : α → Parser β} (hf : ∀ a, Silent (f a))
    (h : Reports (p >>= f) c rule b) : Reports p c rule b :=
  (reports_bind h).elim id fun ⟨a, _, _, h⟩ => absurd h (hf a).not_reports

theorem reports_orElse (h : Reports (orElse p q) c rule b) :
    Reports p c rule b ∨ Fails p c ∧ Reports q c rule b := by
  obtain hf | ⟨a, c', hr⟩ := fails_or_runs p c
  · rw [Reports, misses_orElse_of_fails hf] at h
    exact (names_merge h).imp id fun h => ⟨hf, h⟩
  · rw [Reports, misses_orElse_of_runs hr] at h
    exact .inl h

theorem reports_withDefault {d : α} (h : Reports (withDefault d p) c rule b) :
    Reports p c rule b :=
  (reports_orElse h).elim id fun ⟨_, h⟩ => absurd h (silent_pure d).not_reports

/-- A named parser blames its own rule where it starts, or what the parser under the name
blames. -/
theorem reports_named (h : Reports (named other p) c rule b) :
    Fails p c ∧ rule = other ∧ b = c.byte ∨ Reports p c rule b := by
  obtain hf | ⟨a, c', hr⟩ := fails_or_runs p c
  · rw [Reports, misses_named_of_fails hf] at h
    exact (names_nameAt h).imp (fun h => ⟨hf, h⟩) id
  · rw [Reports, misses_named_of_runs hr] at h
    exact .inr h

theorem reports_named_of_silent (hp : Silent p) (h : Reports (named other p) c rule b) :
    Fails p c ∧ rule = other ∧ b = c.byte :=
  (reports_named h).resolve_right hp.not_reports

/-- A failure that several rules share is told under the name. -/
theorem reports_named_of_crowded (hc : Fails p c → (p c).misses.Crowded c)
    (h : Reports (named other p) c rule b) :
    Fails p c ∧ rule = other ∧ b = c.byte ∨ Reports p c rule b ∧ (Fails p c → c.byte < b) := by
  obtain hf | ⟨a, c', hr⟩ := fails_or_runs p c
  · rw [Reports, misses_named_of_fails hf] at h
    exact (names_nameAt_of_crowded (hc hf) h).imp (fun h => ⟨hf, h⟩) fun h => ⟨h.1, fun _ => h.2⟩
  · rw [Reports, misses_named_of_runs hr] at h
    exact .inr ⟨h, fun hf => absurd hr (fails_iff.1 hf a c')⟩

theorem reports_named_of_settled (hs : Fails p c → (p c).misses.Settled c)
    (h : Reports (named other p) c rule b) : Reports p c rule b := by
  obtain hf | ⟨a, c', hr⟩ := fails_or_runs p c
  · rwa [Reports, misses_named_of_fails hf, nameAt_of_settled (hs hf)] at h
  · rwa [Reports, misses_named_of_runs hr] at h

theorem reports_spanned (h : Reports (spanned p) c rule b) : Reports p c rule b := by
  obtain ⟨_, _, hhere, hbody⟩ := silent_here.reports_bind h
  obtain ⟨rfl, rfl⟩ := runs_here.1 hhere
  exact reports_bind_silent (fun a => silent_here.bind fun _ => silent_pure _) hbody

theorem reports_many (h : Reports (many p) c rule b) :
    ∃ as c', Repeats p c as c' ∧ Reports p c' rule b := by
  have hbound : ∀ (bound : List Char) c, (repeatWithin p bound c).misses.Names rule b →
      ∃ as c', Repeats p c as c' ∧ Reports p c' rule b := by
    intro bound
    induction bound with
    | nil => exact fun c h => absurd h not_names_nothing
    | cons ch bound ih =>
      intro c h
      obtain hf | ⟨a, c', hr⟩ := fails_or_runs p c
      · rw [misses_repeatWithin_of_fails hf] at h
        exact ⟨[], c, .nil c, h⟩
      · rw [misses_repeatWithin_of_runs hr] at h
        obtain h | h := names_merge h
        · exact ⟨[], c, .nil c, h⟩
        · obtain ⟨as, d, has, hd⟩ := ih c' h
          exact ⟨a :: as, d, .cons hr has, hd⟩
  exact hbound _ c h

/-! ## Reports about one place -/

/-- The parser blames rules for failures where it starts, and for no others. -/
def Local (p : Parser α) : Prop := ∀ c rule b, Reports p c rule b → b = c.byte

theorem Silent.isLocal (hp : Silent p) : Local p := fun _ _ _ h => absurd h hp.not_reports

theorem Silent.named_isLocal (hp : Silent p) : Local (named other p) :=
  fun _ _ _ h => (reports_named_of_silent hp h).2.2

theorem Local.orElse (hp : Local p) (hq : Local q) : Local (Parser.orElse p q) :=
  fun _ _ _ h => (reports_orElse h).elim (hp _ _ _) fun h => hq _ _ _ h.2

theorem Local.spanned (hp : Local p) : Local (Parser.spanned p) :=
  fun _ _ _ h => hp _ _ _ (reports_spanned h)

theorem Local.bind {f : α → Parser β} (hp : Local p) (hf : ∀ a, Silent (f a)) :
    Local (p >>= f) :=
  fun _ _ _ h => hp _ _ _ (reports_bind_silent hf h)

/-- The rule is the only one that the parser blames when it fails, and where it starts is the
only place. -/
structure Blames (rule : Rule) (p : Parser α) : Prop where
  isLocal : Local p
  of_fails : ∀ c other b, Fails p c → Reports p c other b → other = rule

theorem Silent.blames (hp : Silent p) : Blames rule (named rule p) :=
  ⟨hp.named_isLocal, fun _ _ _ _ h => (reports_named_of_silent hp h).2.1⟩

theorem Local.blames (hp : Local p) (hc : ∀ c, Fails p c → (p c).misses.Crowded c) :
    Blames rule (named rule p) where
  isLocal _ _ _ h := (reports_named h).elim (fun h => h.2.2) (hp _ _ _)
  of_fails c other b hf h := by
    obtain ⟨-, hrule, -⟩ | ⟨h, hlt⟩ := reports_named_of_crowded (hc c) h
    · exact hrule
    · exact absurd (hp _ _ _ h) (Nat.ne_of_gt (hlt (by rwa [Fails, result_named] at hf)))

/-! ## Where reports lie -/

theorem from_bind {f : α → Parser β} (h : (p c).misses.From b) : ((p >>= f) c).misses.From b := by
  obtain hf | ⟨a, c', hr⟩ := fails_or_runs p c
  · rwa [misses_bind_of_fails hf]
  · rw [misses_bind_of_runs hr]
    exact from_merge_left h

theorem from_bind_of_runs {f : α → Parser β} (hr : Runs p c a c')
    (h : (f a c').misses.From b) : ((p >>= f) c).misses.From b := by
  rw [misses_bind_of_runs hr]
  exact from_merge_right h

theorem from_withDefault {d : α} (h : (p c).misses.From b) :
    (withDefault d p c).misses.From b := by
  obtain hf | ⟨a, c', hr⟩ := fails_or_runs p c
  · rw [withDefault, misses_orElse_of_fails hf]
    exact from_merge_left h
  · rwa [withDefault, misses_orElse_of_runs hr]

theorem from_many (h : (p c).misses.From b) : (many p c).misses.From b := by
  rw [many]
  obtain hf | ⟨a, c', hr⟩ := fails_or_runs p c
  · rwa [misses_repeatWithin_of_fails hf]
  · rw [misses_repeatWithin_of_runs hr]
    exact from_merge_left h

theorem from_spanned (h : (p c).misses.From b) : (spanned p c).misses.From b :=
  from_bind_of_runs (runs_here.2 ⟨rfl, rfl⟩) (from_bind h)

/-- The parser goes along the text and blames nothing before its start or off the text. -/
structure Onward (p : Parser α) : Prop where
  strides : Strides p
  notBefore : ∀ c, (p c).misses.NotBefore c.byte
  along : ∀ c, (p c).misses.Along c

theorem from_named (hp : Onward p) (h : ∀ a c', Runs p c a c' → (p c).misses.From c.byte) :
    (named rule p c).misses.From c.byte := by
  obtain hf | ⟨a, c', hr⟩ := fails_or_runs p c
  · rw [misses_named_of_fails hf]
    exact from_nameAt (hp.notBefore c)
  · rw [misses_named_of_runs hr]
    exact h a c' hr

theorem misses_named_of_silent (hp : Silent p) (hf : Fails (named rule p) c) :
    (named rule p c).misses = .tried c [rule] := by
  rw [Fails, result_named] at hf
  rw [misses_named_of_fails hf, hp c]
  rfl

/-- Two rules that start with their names, and whatever is tried behind them. -/
theorem crowded_orElse {r : Parser α} (hp : Silent p) (hq : Silent q) (hr : Onward r)
    (hf : Fails (orElse (named rule p) (orElse (named other q) r)) c) :
    (orElse (named rule p) (orElse (named other q) r) c).misses.Crowded c := by
  obtain ⟨hpf, hrest⟩ := fails_orElse.1 hf
  obtain ⟨hqf, -⟩ := fails_orElse.1 hrest
  rw [misses_orElse_of_fails hpf, misses_orElse_of_fails hqf, misses_named_of_silent hp hpf,
    misses_named_of_silent hq hqf, ← merge_assoc]
  exact crowded_merge (crowded_merge_tried (by simp) (by simp)) (hr.notBefore c)

/-- Before others, a parser that blames no rule does not count if it fails. -/
theorem crowded_orElse_silent (hp : Silent p) (hq : Fails q c → (q c).misses.Crowded c)
    (hf : Fails (orElse p q) c) : (orElse p q c).misses.Crowded c := by
  obtain ⟨hpf, hqf⟩ := fails_orElse.1 hf
  rw [misses_orElse_of_fails hpf, hp c, nothing_merge]
  exact hq hqf

theorem settled_named (hf : Fails (named rule p) c) : (named rule p c).misses.Settled c := by
  have hp : Fails p c := by rwa [Fails, result_named] at hf
  rw [misses_named_of_fails hp]
  exact settled_nameAt _ c rule

end Parser

namespace Parser.Onward

open Misses

variable {α β : Type} {p q : Parser α}

theorem of_silent (hs : Strides p) (h : Silent p) : Onward p :=
  ⟨hs, fun c => h c ▸ notBefore_nothing _, fun c => h c ▸ along_nothing _⟩

theorem pure (a : α) : Onward (Pure.pure a : Parser α) := of_silent (.pure a) (silent_pure a)

theorem here : Onward Parser.here := of_silent .here silent_here

theorem fail : Onward (Parser.fail : Parser α) := of_silent .fail silent_fail

theorem endOfText : Onward Parser.endOfText := of_silent .endOfText silent_endOfText

theorem scanned (scan : List Char → Option (α × List Char)) : Onward (Parser.scanned scan) :=
  of_silent (.scanned scan) (silent_scanned scan)

theorem bind {f : α → Parser β} (hp : Onward p) (hf : ∀ a, Onward (f a)) :
    Onward (p >>= f) where
  strides := hp.strides.bind fun a => (hf a).strides
  notBefore c := by
    obtain h | ⟨a, c', hr⟩ := fails_or_runs p c
    · rw [misses_bind_of_fails h]
      exact hp.notBefore c
    · rw [misses_bind_of_runs hr]
      obtain ⟨n, -, rfl⟩ := hp.strides c a c' hr
      exact notBefore_merge (hp.notBefore c)
        (((hf a).notBefore _).mono (Cursor.byte_advance_le n c))
  along c := by
    obtain h | ⟨a, c', hr⟩ := fails_or_runs p c
    · rw [misses_bind_of_fails h]
      exact hp.along c
    · rw [misses_bind_of_runs hr]
      obtain ⟨n, hn, rfl⟩ := hp.strides c a c' hr
      exact along_merge (hp.along c) (((hf a).along _).behind hn)

theorem orElse (hp : Onward p) (hq : Onward q) : Onward (Parser.orElse p q) where
  strides := hp.strides.orElse hq.strides
  notBefore c := by
    obtain h | ⟨a, c', hr⟩ := fails_or_runs p c
    · rw [misses_orElse_of_fails h]
      exact notBefore_merge (hp.notBefore c) (hq.notBefore c)
    · rw [misses_orElse_of_runs hr]
      exact hp.notBefore c
  along c := by
    obtain h | ⟨a, c', hr⟩ := fails_or_runs p c
    · rw [misses_orElse_of_fails h]
      exact along_merge (hp.along c) (hq.along c)
    · rw [misses_orElse_of_runs hr]
      exact hp.along c

theorem withDefault (a : α) (hp : Onward p) : Onward (Parser.withDefault a p) :=
  hp.orElse (pure a)

theorem named (rule : Rule) (hp : Onward p) : Onward (Parser.named rule p) where
  strides := hp.strides.named rule
  notBefore c := by
    obtain h | ⟨a, c', hr⟩ := fails_or_runs p c
    · rw [misses_named_of_fails h]
      exact notBefore_nameAt (hp.notBefore c)
    · rw [misses_named_of_runs hr]
      exact hp.notBefore c
  along c := by
    obtain h | ⟨a, c', hr⟩ := fails_or_runs p c
    · rw [misses_named_of_fails h]
      exact along_nameAt (hp.along c)
    · rw [misses_named_of_runs hr]
      exact hp.along c

theorem spanned (hp : Onward p) : Onward (Parser.spanned p) :=
  here.bind fun _ => hp.bind fun _ => here.bind fun _ => pure _

theorem many (hp : Onward p) : Onward (Parser.many p) where
  strides := hp.strides.many
  notBefore c := by
    have hbound : ∀ (bound : List Char) c, (repeatWithin p bound c).misses.NotBefore c.byte := by
      intro bound
      induction bound with
      | nil => exact fun c => notBefore_nothing _
      | cons ch bound ih =>
        intro c
        obtain h | ⟨a, c', hr⟩ := fails_or_runs p c
        · rw [misses_repeatWithin_of_fails h]
          exact hp.notBefore c
        · rw [misses_repeatWithin_of_runs hr]
          obtain ⟨n, -, rfl⟩ := hp.strides c a c' hr
          exact notBefore_merge (hp.notBefore c) ((ih _).mono (Cursor.byte_advance_le n c))
    exact hbound _ c
  along c := by
    have hbound : ∀ (bound : List Char) c, (repeatWithin p bound c).misses.Along c := by
      intro bound
      induction bound with
      | nil => exact fun c => along_nothing _
      | cons ch bound ih =>
        intro c
        obtain h | ⟨a, c', hr⟩ := fails_or_runs p c
        · rw [misses_repeatWithin_of_fails h]
          exact hp.along c
        · rw [misses_repeatWithin_of_runs hr]
          obtain ⟨n, hn, rfl⟩ := hp.strides c a c' hr
          exact along_merge (hp.along c) ((ih _).behind hn)
    exact hbound _ c

end Parser.Onward

end DirectiveQuery
