import DirectiveQuery.Proofs.Grammar.Running
import DirectiveQuery.Proofs.Text.Position

/-
  The cursors of one text. Every parser goes along the text (`Strides`), so a cursor that it
  reaches is a place behind some number of characters, and that number says all about it: the
  bytes, the line and the column are those of the characters behind (`Counts`).
-/
namespace DirectiveQuery

namespace Cursor

/-- What the cursor tells is what these characters behind it come to. -/
structure Counts (behind : List Char) (c : Cursor) : Prop where
  byte : c.byte = Text.byteLength behind
  line : c.line = 1 + behind.count '\n'
  column : c.column = 1 + (behind.reverse.takeWhile (· != '\n')).length

theorem counts_start (text : List Char) : Counts [] (start text) := ⟨rfl, rfl, rfl⟩

theorem Counts.next {behind rest : List Char} {ch : Char} {c : Cursor} (h : Counts behind c)
    (hc : c.ahead = ch :: rest) : Counts (behind ++ [ch]) c.next := by
  have hbyte := Text.byteLength_append behind [ch]
  by_cases hn : ch = '\n'
  · subst hn
    have hsize : '\n'.utf8Size = 1 := by decide
    constructor <;> simp [Cursor.next, hc, hbyte, Text.byteLength, hsize, h.byte, h.line]
    omega
  · have hnext : c.next = ⟨rest, c.byte + ch.utf8Size, c.line, c.column + 1⟩ := by
      unfold Cursor.next
      split
      · next h0 => rw [hc] at h0; cases h0
      · next h0 => rw [hc] at h0; cases h0; exact absurd rfl hn
      · next h0 => rw [hc] at h0; cases h0; rfl
    rw [hnext]
    constructor
    · simp [hbyte, Text.byteLength, h.byte]
    · simp [h.line, List.count_append, hn]
    · simp [h.column, hn]
      omega

theorem advance_advance (m n : Nat) (c : Cursor) : (c.advance m).advance n = c.advance (m + n) := by
  induction m generalizing c with
  | zero => rw [Nat.zero_add]; rfl
  | succ m ih => rw [advance, ih, Nat.succ_add]; rfl

theorem advance_nil {c : Cursor} (h : c.ahead = []) (n : Nat) : c.advance n = c := by
  have hnext : c.next = c := by
    unfold next
    split <;> simp_all
  induction n with
  | zero => rfl
  | succ n ih => rw [advance, hnext, ih]

/-- The end of the text is not passed. -/
theorem advance_min (n : Nat) (c : Cursor) : c.advance (min n c.ahead.length) = c.advance n := by
  by_cases h : n ≤ c.ahead.length
  · rw [Nat.min_eq_left h]
  · obtain ⟨k, rfl⟩ := Nat.exists_eq_add_of_le (Nat.le_of_not_le h)
    have hend : (c.advance c.ahead.length).ahead = [] := by rw [ahead_advance, List.drop_length]
    rw [Nat.min_eq_right (Nat.le_of_not_le h), ← advance_advance, advance_nil hend]

/-- The cursor behind the first `n` characters of a text. -/
def place (text : List Char) (n : Nat) : Cursor := (start text).advance n

variable {text : List Char} {i j : Nat}

theorem ahead_place (text : List Char) (n : Nat) : (place text n).ahead = text.drop n :=
  ahead_advance n _

theorem advance_place (text : List Char) (i n : Nat) :
    (place text i).advance n = place text (i + n) :=
  advance_advance i n _

theorem counts_place (text : List Char) (n : Nat) : Counts (text.take n) (place text n) := by
  induction n with
  | zero => exact counts_start text
  | succ n ih =>
    rw [← advance_place]
    cases h : text.drop n with
    | nil =>
      rw [advance_nil (by rw [ahead_place, h])]
      have hle := List.drop_eq_nil_iff.1 h
      rw [List.take_of_length_le hle] at ih
      rwa [List.take_of_length_le (Nat.le_succ_of_le hle)]
    | cons ch rest =>
      have htake : text.take (n + 1) = text.take n ++ [ch] := by
        rw [List.take_add, h]
        rfl
      rw [htake]
      exact ih.next ((ahead_place text n).trans h)

theorem byte_next_le (c : Cursor) : c.byte ≤ c.next.byte := by
  unfold next
  split
  · exact Nat.le_refl _
  · exact Nat.le_add_right _ _
  · exact Nat.le_add_right _ _

theorem byte_next_lt {c : Cursor} (h : c.ahead ≠ []) : c.byte < c.next.byte := by
  unfold next
  split
  · next hc => exact absurd hc h
  · exact Nat.lt_succ_self _
  · next ch _ _ _ => exact Nat.lt_add_of_pos_right ch.utf8Size_pos

theorem byte_advance_le (n : Nat) (c : Cursor) : c.byte ≤ (c.advance n).byte := by
  induction n generalizing c with
  | zero => exact Nat.le_refl _
  | succ n ih => exact Nat.le_trans c.byte_next_le (ih c.next)

theorem byte_place_le (text : List Char) (h : i ≤ j) :
    (place text i).byte ≤ (place text j).byte := by
  obtain ⟨n, rfl⟩ := Nat.exists_eq_add_of_le h
  rw [← advance_place]
  exact byte_advance_le n _

/-- The characters behind a place, counted from its bytes. -/
theorem character_place (h : i ≤ text.length) :
    (Text.Positions.ofText text).character (place text i).byte = i := by
  rw [(counts_place text i).byte]
  have hcharacter := Text.character_byteLength (text.take i) (text.drop i)
  rwa [List.take_append_drop, List.length_take, Nat.min_eq_left h] at hcharacter

end Cursor

namespace Parser

variable {α β : Type} {p q : Parser α}

/-- The parser stops somewhere along the text ahead. -/
def Strides (p : Parser α) : Prop :=
  ∀ c a c', Runs p c a c' → ∃ n ≤ c.ahead.length, c' = c.advance n

namespace Strides

theorem pure (a : α) : Strides (Pure.pure a : Parser α) := by
  intro c b c' h
  obtain ⟨-, rfl⟩ := runs_pure.1 h
  exact ⟨0, Nat.zero_le _, rfl⟩

theorem here : Strides Parser.here := by
  intro c b c' h
  obtain ⟨-, rfl⟩ := runs_here.1 h
  exact ⟨0, Nat.zero_le _, rfl⟩

theorem endOfText : Strides Parser.endOfText := by
  intro c u c' h
  obtain ⟨-, rfl⟩ := runs_endOfText.1 h
  exact ⟨0, Nat.zero_le _, rfl⟩

theorem fail : Strides (Parser.fail : Parser α) := by
  intro c a c' h
  cases h

theorem bind {f : α → Parser β} (hp : Strides p) (hf : ∀ a, Strides (f a)) :
    Strides (p >>= f) := by
  intro c b d h
  obtain ⟨a, c', ha, hb⟩ := runs_bind.1 h
  obtain ⟨m, hm, rfl⟩ := hp _ _ _ ha
  obtain ⟨n, hn, rfl⟩ := hf a _ _ _ hb
  rw [Cursor.ahead_advance, List.length_drop] at hn
  exact ⟨m + n, by omega, Cursor.advance_advance m n c⟩

theorem named (rule : Rule) (hp : Strides p) : Strides (named rule p) :=
  fun _ _ _ h => hp _ _ _ (runs_named.1 h)

theorem orElse (hp : Strides p) (hq : Strides q) : Strides (orElse p q) := by
  intro c a c' h
  obtain h | ⟨-, h⟩ := runs_orElse.1 h
  · exact hp _ _ _ h
  · exact hq _ _ _ h

theorem firstOf {ps : List (Parser α)} (h : ∀ p ∈ ps, Strides p) : Strides (firstOf ps) := by
  induction ps with
  | nil => exact fail
  | cons p ps ih =>
    exact (h p List.mem_cons_self).orElse (ih fun q hq => h q (List.mem_cons_of_mem _ hq))

theorem withDefault (a : α) (hp : Strides p) : Strides (withDefault a p) := hp.orElse (.pure a)

theorem spanned (hp : Strides p) : Strides (Parser.spanned p) :=
  here.bind fun _ => hp.bind fun _ => here.bind fun _ => .pure _

theorem of_spanned (hp : Strides (Parser.spanned p)) : Strides p := fun c a c' h =>
  hp c (a, c.spanTo c') c' (runs_spanned.2 ⟨h, rfl⟩)

theorem scanned (scan : List Char → Option (α × List Char)) : Strides (scanned scan) := by
  intro c a c' h
  obtain ⟨lexeme, -, rfl⟩ := runs_scanned.1 h
  exact ⟨_, Nat.min_le_right _ _, (Cursor.advance_min _ c).symm⟩

theorem byte_le (hp : Strides p) {c c' : Cursor} {a : α} (h : Runs p c a c') :
    c.byte ≤ c'.byte := by
  obtain ⟨n, -, rfl⟩ := hp c a c' h
  exact Cursor.byte_advance_le n c

theorem length_le (hp : Strides p) {c c' : Cursor} {a : α} (h : Runs p c a c') :
    c'.ahead.length ≤ c.ahead.length := by
  obtain ⟨n, -, rfl⟩ := hp c a c' h
  rw [Cursor.ahead_advance, List.length_drop]
  omega

theorem repeats (hp : Strides p) {c c' : Cursor} {as : List α} (h : Repeats p c as c') :
    ∃ n ≤ c.ahead.length, c' = c.advance n := by
  induction h with
  | nil c => exact ⟨0, Nat.zero_le _, rfl⟩
  | cons ha _ ih =>
    obtain ⟨m, hm, rfl⟩ := hp _ _ _ ha
    obtain ⟨n, hn, rfl⟩ := ih
    rw [Cursor.ahead_advance, List.length_drop] at hn
    exact ⟨m + n, by omega, Cursor.advance_advance m n _⟩

theorem many (hp : Strides p) : Strides (many p) :=
  fun _ _ _ h => hp.repeats (repeats_of_many h)

/-- From a place of a text a parser comes to a later place of it. -/
theorem place (hp : Strides p) {text : List Char} {i : Nat} {a : α} {c' : Cursor}
    (hi : i ≤ text.length) (h : Runs p (Cursor.place text i) a c') :
    ∃ j, i ≤ j ∧ j ≤ text.length ∧ c' = Cursor.place text j := by
  obtain ⟨n, hn, rfl⟩ := hp _ _ _ h
  rw [Cursor.ahead_place, List.length_drop] at hn
  exact ⟨i + n, Nat.le_add_right _ _, by omega, Cursor.advance_place text i n⟩

end Strides

end Parser

namespace Grammar

open DirectiveQuery.Parser

/-! ## The tokens of the grammar -/

/-- A parser of one scan, with a meaning for what the scan finds. -/
theorem scannedAs_strides {α β : Type} (scan : List Char → Option (α × List Char)) (f : α → β) :
    Strides (do return f (← scanned scan)) :=
  (Strides.scanned scan).bind fun _ => .pure _

theorem tokenFor_strides {α : Type} (s : String) (a : α) : Strides (tokenFor s a) :=
  scannedAs_strides _ fun _ => a

theorem keyword_strides {α : Type} (rule : Rule) (s : String) (a : α) :
    Strides (keyword rule s a) :=
  (scannedAs_strides _ fun _ => a).named rule

theorem literal_strides : Strides (firstOf
    [keyword .nullWord "null" Literal.null,
      named .booleanWord do return Literal.boolean (← scanned Lexeme.boolean?),
      named .number do return Literal.number (← scanned Lexeme.number?),
      named .string do return Literal.string (← scanned Lexeme.string?)]) :=
  (keyword_strides _ _ _).orElse (((scannedAs_strides _ _).named _).orElse
    (((scannedAs_strides _ _).named _).orElse (((scannedAs_strides _ _).named _).orElse .fail)))

theorem mark_strides : Strides mark :=
  (((tokenFor_strides _ _).orElse ((tokenFor_strides _ _).orElse
    ((tokenFor_strides _ _).orElse .fail))).named _).spanned

theorem relationToken_strides : Strides relationToken :=
  (Strides.firstOf (by simp [tokenFor_strides, keyword_strides])).named _

theorem equalityToken_strides : Strides equalityToken :=
  (Strides.firstOf (by simp [tokenFor_strides])).named _

theorem andToken_strides : Strides andToken := (tokenFor_strides _ _).named _

theorem orToken_strides : Strides orToken := (tokenFor_strides _ _).named _

end Grammar

end DirectiveQuery
