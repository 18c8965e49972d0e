import DirectiveQuery.Grammar.Query
import DirectiveQuery.Proofs.Grammar.Token

/-
  Runs of parsers. A run is what a parser finds and where it stops, without the failures that
  it reports; a parser built from others runs as they do. Repetition stops where a parser fails
  at last, for every run but the last one moves on.
-/
namespace DirectiveQuery

namespace Parser

variable {α β : Type} {p q : Parser α} {c c' d : Cursor} {a b : α} {as : List α}

/-- The parser finds a value at one cursor and stops at another one. -/
def Runs (p : Parser α) (c : Cursor) (a : α) (c' : Cursor) : Prop := (p c).result = some (a, c')

/-- The parser finds nothing at the cursor. -/
def Fails (p : Parser α) (c : Cursor) : Prop := (p c).result = none

theorem fails_iff : Fails p c ↔ ∀ a c', ¬ Runs p c a c' := by
  simp only [Fails, Runs, Option.eq_none_iff_forall_ne_some, Prod.forall, ne_eq]

theorem runs_pure : Runs (Pure.pure a) c b c' ↔ b = a ∧ c' = c := by
  simp only [Runs, result_pure, Option.some.injEq, Prod.mk.injEq]
  exact and_congr eq_comm eq_comm

theorem runs_bind {f : α → Parser β} {b : β} :
    Runs (p >>= f) c b d ↔ ∃ a c', Runs p c a c' ∧ Runs (f a) c' b d := by
  simp only [Runs, result_bind, Option.bind_eq_some_iff, Prod.exists]

theorem runs_named {rule : Rule} : Runs (named rule p) c a c' ↔ Runs p c a c' := by
  simp only [Runs, result_named]

theorem runs_here : Runs here c d c' ↔ d = c ∧ c' = c := by
  simp only [Runs, here, Option.some.injEq, Prod.mk.injEq]
  exact and_congr eq_comm eq_comm

theorem runs_spanned {s : Span} :
    Runs (spanned p) c (a, s) c' ↔ Runs p c a c' ∧ s = c.spanTo c' := by
  simp only [spanned, runs_bind, runs_here, runs_pure, Prod.mk.injEq]
  constructor
  · rintro ⟨_, _, ⟨rfl, rfl⟩, _, _, h, _, _, ⟨rfl, rfl⟩, ⟨rfl, rfl⟩, rfl⟩
    exact ⟨h, rfl⟩
  · rintro ⟨h, rfl⟩
    exact ⟨_, _, ⟨rfl, rfl⟩, _, _, h, _, _, ⟨rfl, rfl⟩, ⟨rfl, rfl⟩, rfl⟩

theorem runs_orElse : Runs (orElse p q) c a c' ↔ Runs p c a c' ∨ Fails p c ∧ Runs q c a c' := by
  simp only [Runs, Fails, result_orElse, Option.or_eq_some_iff]

theorem runs_withDefault :
    Runs (withDefault b p) c a c' ↔ Runs p c a c' ∨ Fails p c ∧ a = b ∧ c' = c := by
  rw [withDefault, runs_orElse]
  exact or_congr_right (and_congr_right fun _ => runs_pure)

theorem runs_scanned {scan : List Char → Option (α × List Char)} :
    Runs (scanned scan) c a c' ↔
      ∃ lexeme, scan c.ahead = some (a, lexeme) ∧ c' = c.advance lexeme.length := by
  simp only [Runs, result_scanned, Option.map_eq_some_iff, Prod.exists, Prod.mk.injEq]
  constructor
  · rintro ⟨_, lexeme, h, rfl, rfl⟩
    exact ⟨lexeme, h, rfl⟩
  · rintro ⟨lexeme, h, rfl⟩
    exact ⟨a, lexeme, h, rfl, rfl⟩

theorem runs_endOfText {u : Unit} : Runs endOfText c u c' ↔ c.ahead = [] ∧ c' = c := by
  unfold Runs endOfText
  split
  · next h => simp [List.isEmpty_iff.1 h, eq_comm]
  · next h =>
    rw [List.isEmpty_iff] at h
    simp [h]

/-- Runs of a parser one after the other. -/
inductive Repeats (p : Parser α) : Cursor → List α → Cursor → Prop
  | nil (c : Cursor) : Repeats p c [] c
  | cons {c c' c'' : Cursor} {a : α} {as : List α} : Runs p c a c' → Repeats p c' as c'' →
      Repeats p c (a :: as) c''

theorem repeats_of_repeatWithin {bound : List Char}
    (h : (repeatWithin p bound c).result = some (as, c')) : Repeats p c as c' := by
  induction bound generalizing c as with
  | nil =>
    cases h
    exact .nil _
  | cons ch bound ih =>
    rw [result_repeatWithin_cons] at h
    split at h
    · cases h
      exact .nil _
    · next a d hp =>
      obtain ⟨⟨bs, e⟩, hr, he⟩ := Option.map_eq_some_iff.1 h
      cases he
      exact .cons hp (ih hr)

theorem repeats_of_many (h : Runs (many p) c as c') : Repeats p c as c' :=
  repeats_of_repeatWithin h

theorem repeatWithin_of_repeats {bound : List Char} (h : Repeats p c as c') (hf : Fails p c')
    (hb : as.length ≤ bound.length) : (repeatWithin p bound c).result = some (as, c') := by
  induction h generalizing bound with
  | nil c =>
    cases bound with
    | nil => rfl
    | cons ch bound =>
      unfold Fails at hf
      rw [result_repeatWithin_cons, hf]
  | cons hp _ ih =>
    cases bound with
    | nil => cases hb
    | cons ch bound =>
      have hr := ih hf (Nat.le_of_succ_le_succ hb)
      unfold Runs at hp
      rw [result_repeatWithin_cons, hp]
      dsimp only
      rw [hr]
      rfl

/-- A parser that fails behind some runs is run that often by `many`, unless it stays where it
is. -/
theorem many_of_repeats (h : Repeats p c as c') (hf : Fails p c')
    (hb : as.length ≤ c.ahead.length) : Runs (many p) c as c' :=
  repeatWithin_of_repeats h hf (Nat.le_succ_of_le hb)

end Parser

namespace Grammar

open DirectiveQuery.Parser Token

variable {c c' : Cursor}

/-- The cursor behind the spaces ahead. -/
def skip (c : Cursor) : Cursor := c.advance (c.ahead.takeWhile Lexeme.isSpace).length

theorem ahead_skip (c : Cursor) : (skip c).ahead = afterSpace c.ahead := by
  rw [skip, Cursor.ahead_advance]
  conv => lhs; rhs; rw [← List.takeWhile_append_dropWhile (p := Lexeme.isSpace) (l := c.ahead)]
  exact List.drop_left

theorem runs_space {u : Unit} : Runs space c u c' ↔ c' = skip c := by
  rw [space, runs_scanned]
  constructor
  · rintro ⟨lexeme, h, rfl⟩
    cases h
    rfl
  · rintro rfl
    exact ⟨_, rfl, rfl⟩

/-- No space is next. -/
def IsTrimmed (c : Cursor) : Prop := afterSpace c.ahead = c.ahead

theorem isTrimmed_skip (c : Cursor) : IsTrimmed (skip c) := by
  rw [IsTrimmed, ahead_skip, afterSpace_afterSpace]

end Grammar

end DirectiveQuery
