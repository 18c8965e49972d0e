import Mathlib.Data.List.Range
import DirectiveQuery.Proofs.Text.Position

/-
  The byte positions at which the characters of a text start. The table of them ascends, so one
  place parts the starts before a byte position from the others, and that place is the number of
  characters that start before it; whoever searches the table finds it. Where every character is
  one byte long, the position itself is that number, and no table is asked.
-/
namespace DirectiveQuery.Text

/-- A character starts at the byte position, or the text ends there. -/
def IsBoundary (text : List Char) (byte : Nat) : Prop :=
  ∃ i ≤ text.length, byteLength (text.take i) = byte

/-- The number of characters that start before a byte position. -/
def startingBefore (text : List Char) (byte : Nat) : Nat :=
  (List.range text.length).countP fun i => byteLength (text.take i) < byte

/-- The place parts the numbers below a bound from the others. -/
structure Parts (numbers : List Nat) (bound place : Nat) : Prop where
  le_length : place ≤ numbers.length
  before : ∀ n ∈ numbers.take place, n < bound
  behind : ∀ n ∈ numbers.drop place, bound ≤ n

variable {text : List Char} {numbers : List Nat} {bound place byte : Nat}

/-! ## The table -/

theorem startsFrom_eq_map (start : Nat) (text : List Char) :
    startsFrom start text =
      (List.range text.length).map fun i => start + byteLength (text.take i) := by
  induction text generalizing start with
  | nil => rfl
  | cons c rest ih =>
    rw [startsFrom, ih, List.length_cons, List.range_succ_eq_map, List.map_cons, List.map_map]
    refine congrArg (start :: ·) (List.map_congr_left fun i _ => ?_)
    simp only [Function.comp_apply, List.take_succ_cons, byteLength, Nat.add_assoc]

theorem startsFrom_ascends (start : Nat) (text : List Char) :
    (startsFrom start text).Pairwise (· < ·) := by
  induction text generalizing start with
  | nil => exact .nil
  | cons c rest ih =>
    refine List.pairwise_cons.2 ⟨fun n hn => ?_, ih _⟩
    rw [startsFrom_eq_map] at hn
    obtain ⟨i, -, rfl⟩ := List.mem_map.1 hn
    have := c.utf8Size_pos
    omega

/-! ## Searching a table -/

theorem Parts.eq_length_takeWhile (h : Parts numbers bound place) :
    place = (numbers.takeWhile (· < bound)).length := by
  have hbefore : ∀ n ∈ numbers.take place, decide (n < bound) := fun n hn =>
    decide_eq_true (h.before n hn)
  have hbehind : (numbers.drop place).takeWhile (· < bound) = [] := by
    cases hd : numbers.drop place with
    | nil => rfl
    | cons n ns =>
      have hn := h.behind n (hd ▸ List.mem_cons_self)
      exact List.takeWhile_cons_of_neg (by simpa using hn)
  rw [← List.take_append_drop place numbers, List.takeWhile_append_of_pos hbefore, hbehind,
    List.append_nil, List.length_take, Nat.min_eq_left h.le_length]

/-- In an ascending table there is a place to find. -/
theorem parts_length_takeWhile (h : numbers.Pairwise (· < ·)) (bound : Nat) :
    Parts numbers bound (numbers.takeWhile (· < bound)).length := by
  induction numbers with
  | nil => exact ⟨Nat.le_refl _, nofun, nofun⟩
  | cons n ns ih =>
    obtain ⟨hn, hns⟩ := List.pairwise_cons.1 h
    by_cases hlt : n < bound
    · rw [List.takeWhile_cons, decide_eq_true hlt, if_pos rfl]
      obtain ⟨hle, hbefore, hbehind⟩ := ih hns
      exact ⟨Nat.succ_le_succ hle, List.forall_mem_cons.2 ⟨hlt, hbefore⟩, hbehind⟩
    · rw [List.takeWhile_cons, decide_eq_false hlt, if_neg Bool.false_ne_true]
      refine ⟨Nat.zero_le _, nofun, List.forall_mem_cons.2 ⟨Nat.le_of_not_lt hlt, fun m hm => ?_⟩⟩
      have := hn m hm
      omega

/-- The place is as far along the table as there are numbers below the bound. -/
theorem Parts.countP_eq (h : Parts numbers bound place) : numbers.countP (· < bound) = place := by
  have hbefore : (numbers.take place).countP (· < bound) = (numbers.take place).length :=
    List.countP_eq_length.2 fun n hn => decide_eq_true (h.before n hn)
  have hbehind : (numbers.drop place).countP (· < bound) = 0 :=
    List.countP_eq_zero.2 fun n hn => by simpa using h.behind n hn
  rw [← List.take_append_drop place numbers, List.countP_append, hbefore, hbehind, Nat.add_zero,
    List.length_take, Nat.min_eq_left h.le_length]

theorem countP_startsFrom (text : List Char) (byte : Nat) :
    (startsFrom 0 text).countP (· < byte) = startingBefore text byte := by
  rw [startsFrom_eq_map, List.countP_map, startingBefore]
  simp only [Nat.zero_add, Function.comp_def]

/-! ## Positions of characters -/

/-- With the table, what starts before any byte position is counted. -/
theorem character_table (text : List Char) (byte : Nat) :
    (Positions.mk (some (startsFrom 0 text))).character byte = startingBefore text byte := by
  rw [← countP_startsFrom, (parts_length_takeWhile (startsFrom_ascends 0 text) byte).countP_eq]
  rfl

/-- The characters that start before a boundary are those before it. -/
theorem startingBefore_byteLength (before after : List Char) :
    startingBefore (before ++ after) (byteLength before) = before.length := by
  have hstarts := takeWhile_startsFrom before after 0
  rw [Nat.zero_add] at hstarts
  rw [← character_table, Positions.character]
  dsimp only
  rw [hstarts, length_startsFrom]

/-- Without a table, in a text of one-byte characters, the same is counted. -/
theorem character_ascii (h : isAscii text) (hb : IsBoundary text byte) :
    (Positions.mk none).character byte = startingBefore text byte := by
  obtain ⟨i, -, rfl⟩ := hb
  have hcount := startingBefore_byteLength (text.take i) (text.drop i)
  rw [List.take_append_drop] at hcount
  rw [hcount]
  refine byteLength_of_isAscii (List.all_eq_true.2 fun c hc => ?_)
  exact List.all_eq_true.1 h c (List.mem_of_mem_take hc)

theorem character_ofText (hb : IsBoundary text byte) :
    (Positions.ofText text).character byte = startingBefore text byte := by
  unfold Positions.ofText
  split
  · next h => exact character_ascii h hb
  · exact character_table text byte

/-- Between two boundaries there are characters. -/
theorem character_lt_character {byte' : Nat} (hb : IsBoundary text byte)
    (hb' : IsBoundary text byte') (hlt : byte < byte') :
    (Positions.ofText text).character byte < (Positions.ofText text).character byte' := by
  obtain ⟨i, hi, rfl⟩ := hb
  obtain ⟨j, hj, rfl⟩ := hb'
  have hcount : ∀ k ≤ text.length,
      (Positions.ofText text).character (byteLength (text.take k)) = k := by
    intro k hk
    have hk' := character_byteLength (text.take k) (text.drop k)
    rwa [List.take_append_drop, List.length_take, Nat.min_eq_left hk] at hk'
  rw [hcount i hi, hcount j hj]
  by_contra hji
  have hsplit : text.take i = text.take j ++ (text.take i).drop j := by
    conv => lhs; rw [← List.take_append_drop j (text.take i), List.take_take,
      Nat.min_eq_left (Nat.le_of_not_lt hji)]
  rw [hsplit, byteLength_append] at hlt
  omega

end DirectiveQuery.Text
