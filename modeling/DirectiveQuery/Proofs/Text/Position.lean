import DirectiveQuery.Text.Position

/-
  Positions in a text. The byte position before a character becomes the number of characters
  before it, whether or not a table of boundaries is kept; and what stands between two positions
  is cut out of the text (`slice`).
-/
namespace DirectiveQuery.Text

/-! ## Bytes and characters -/

theorem byteLength_of_isAscii {text : List Char} (h : isAscii text) :
    byteLength text = text.length := by
  induction text with
  | nil => rfl
  | cons c rest ih =>
    simp only [isAscii, List.all_cons, Bool.and_eq_true, decide_eq_true_eq] at h
    have hc : c.utf8Size = 1 := Char.utf8Size_eq_one_iff.2 (by
      rw [UInt32.le_iff_toNat_le]
      exact Nat.le_of_lt_succ h.1)
    rw [byteLength, ih h.2, hc, List.length_cons, Nat.add_comm]

/-- The boundaries before a place are the starts of the characters before it. -/
theorem takeWhile_startsFrom (before after : List Char) (start : Nat) :
    (startsFrom start (before ++ after)).takeWhile (· < start + byteLength before) =
      startsFrom start before := by
  induction before generalizing start with
  | nil => cases after <;> simp [startsFrom, byteLength]
  | cons c before ih =>
    have hc := c.utf8Size_pos
    have hlt : start < start + byteLength (c :: before) := by
      rw [byteLength]
      omega
    rw [List.cons_append, startsFrom, List.takeWhile_cons, decide_eq_true hlt, if_pos rfl,
      byteLength, ← Nat.add_assoc, ih]
    rfl

theorem character_byteLength (before after : List Char) :
    (Positions.ofText (before ++ after)).character (byteLength before) = before.length := by
  unfold Positions.ofText Positions.character
  by_cases h : isAscii (before ++ after)
  · rw [if_pos h]
    rw [isAscii, List.all_append, Bool.and_eq_true] at h
    exact byteLength_of_isAscii h.1
  · rw [if_neg h]
    have hstarts := takeWhile_startsFrom before after 0
    rw [Nat.zero_add] at hstarts
    dsimp only
    rw [hstarts, length_startsFrom]

/-! ## Parts of a text -/

/-- The characters from one position to another one. -/
def slice (text : List Char) (i j : Nat) : List Char := (text.take j).drop i

variable {text : List Char} {i j k : Nat}

theorem slice_self (text : List Char) (i : Nat) : slice text i i = [] := by
  simp [slice]

theorem slice_append_drop (h : i ≤ j) : slice text i j ++ text.drop j = text.drop i := by
  rw [slice, List.drop_take]
  conv => rhs; rw [← List.take_append_drop (j - i) (text.drop i), List.drop_drop,
    Nat.add_sub_cancel' h]

theorem slice_append_slice (hik : i ≤ k) (hkj : k ≤ j) :
    slice text i k ++ slice text k j = slice text i j := by
  have h : slice text i k ++ slice text k j ++ text.drop j = slice text i j ++ text.drop j := by
    rw [List.append_assoc, slice_append_drop hkj, slice_append_drop hik,
      slice_append_drop (Nat.le_trans hik hkj)]
  exact List.append_cancel_right h

/-- What stands before the rest of a text ends where the rest starts. -/
theorem slice_of_drop_eq {part : List Char} (hi : i ≤ text.length)
    (h : text.drop i = part ++ text.drop j) (hj : j ≤ text.length) :
    i + part.length = j ∧ slice text i j = part := by
  have hlength := congrArg List.length h
  rw [List.length_append, List.length_drop, List.length_drop] at hlength
  have hij : i + part.length = j := by omega
  have hslice : slice text i j ++ text.drop j = text.drop i := slice_append_drop (by omega)
  exact ⟨hij, List.append_cancel_right (hslice.trans h)⟩

end DirectiveQuery.Text
