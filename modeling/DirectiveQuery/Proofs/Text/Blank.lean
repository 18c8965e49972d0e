import Mathlib.Data.List.DropRight
import DirectiveQuery.Text.Blank

/-
  What trimming leaves of a text: the part between two runs of blanks that neither starts nor
  ends with a blank itself. There is one such part in every text (`trim_eq_iff`).
-/
namespace DirectiveQuery.Text

/-- The text is `inner` between blanks, and `inner` neither starts nor ends with one. -/
def IsAmongBlanks (inner text : List Char) : Prop :=
  ∃ before after, text = before ++ (inner ++ after) ∧
    (∀ c ∈ before, isBlank c) ∧ (∀ c ∈ after, isBlank c) ∧
    (∀ c ∈ inner.head?, ¬ isBlank c) ∧ ∀ c ∈ inner.getLast?, ¬ isBlank c

theorem trimStart_append {before text : List Char} (hb : ∀ c ∈ before, isBlank c)
    (ht : ∀ c ∈ text.head?, ¬ isBlank c) : trimStart (before ++ text) = text := by
  rw [trimStart, List.dropWhile_append_of_pos hb]
  cases text with
  | nil => rfl
  | cons c cs => exact List.dropWhile_cons_of_neg (ht c rfl)

theorem trimEnd_append {text after : List Char} (ht : ∀ c ∈ text.getLast?, ¬ isBlank c)
    (ha : ∀ c ∈ after, isBlank c) : trimEnd (text ++ after) = text := by
  have h := @trimStart_append after.reverse text.reverse (by simpa using ha) (by simpa using ht)
  rw [trimStart] at h
  rw [trimEnd, List.reverse_append, h, List.reverse_reverse]

theorem isAmongBlanks_trim (text : List Char) : IsAmongBlanks (trim text) text := by
  refine ⟨text.takeWhile isBlank, (trimStart text).rtakeWhile isBlank, ?_, ?_, ?_, ?_, ?_⟩
  · have hend : trim text ++ (trimStart text).rtakeWhile isBlank = trimStart text :=
      List.rdropWhile_append_rtakeWhile ..
    rw [hend]
    exact List.takeWhile_append_dropWhile.symm
  · exact fun c hc => List.mem_takeWhile_imp hc
  · exact fun c hc => List.mem_rtakeWhile_imp hc
  · intro c hc
    -- what is cut off behind leaves the head in place
    have hprefix : trim text <+: trimStart text := List.rdropWhile_prefix isBlank _
    obtain ⟨cs, hcs⟩ := List.head?_eq_some_iff.1 hc
    obtain ⟨rest, hrest⟩ := hprefix
    have hhead := List.head?_dropWhile_not isBlank text
    rw [← trimStart, ← hrest, hcs] at hhead
    simpa using hhead
  · intro c hc
    have hne : trim text ≠ [] := List.ne_nil_of_mem (List.mem_of_getLast? hc)
    have hlast := List.rdropWhile_last_not isBlank (trimStart text) hne
    rwa [← List.getLast_of_mem_getLast? hc]

/-- A text has one part that is left by trimming. -/
theorem trim_eq_iff {text inner : List Char} : trim text = inner ↔ IsAmongBlanks inner text := by
  constructor
  · rintro rfl
    exact isAmongBlanks_trim text
  · rintro ⟨before, after, rfl, hbefore, hafter, hhead, hlast⟩
    cases inner with
    | nil =>
      have hall : ∀ c ∈ before ++ after, isBlank c :=
        List.forall_mem_append.2 ⟨hbefore, hafter⟩
      rw [List.nil_append, trim, trimStart, List.dropWhile_eq_nil_iff.2 hall]
      rfl
    | cons c cs =>
      have hstart : ∀ d ∈ ((c :: cs) ++ after).head?, ¬ isBlank d := hhead
      rw [trim, trimStart_append hbefore hstart, trimEnd_append hlast hafter]

/-- A blank at the end does not matter. -/
theorem trim_concat {text : List Char} {c : Char} (hc : isBlank c) :
    trim (text ++ [c]) = trim text := by
  obtain ⟨before, after, htext, hbefore, hafter, hinner⟩ := isAmongBlanks_trim text
  refine trim_eq_iff.2 ⟨before, after ++ [c], ?_, hbefore, ?_, hinner⟩
  · conv => lhs; rw [htext]
    rw [List.append_assoc, List.append_assoc]
  · refine List.forall_mem_append.2 ⟨hafter, ?_⟩
    rintro d hd
    rwa [List.mem_singleton.1 hd]

theorem trim_eq_nil_iff {text : List Char} : trim text = [] ↔ ∀ c ∈ text, isBlank c := by
  rw [trim_eq_iff]
  constructor
  · rintro ⟨before, after, rfl, hbefore, hafter, -⟩
    exact List.forall_mem_append.2 ⟨hbefore, hafter⟩
  · intro h
    exact ⟨text, [], (List.append_nil _).symm, h, nofun, nofun, nofun⟩

end DirectiveQuery.Text
