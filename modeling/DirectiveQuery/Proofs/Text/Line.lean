import Mathlib.Data.List.Induction
import DirectiveQuery.Text.Line

/-
  Lines one after another. A text that is terminated, empty or with a line feed at its end, has
  its lines to itself: what follows it adds lines and changes none (`lines_append`). So the
  lines of a text are those of its terminated lines, each without its ending (`lines_line`), and
  of what is left without a line feed.
-/
namespace DirectiveQuery.Text

/-- The text is empty or ends with a line feed. -/
def IsTerminated (text : List Char) : Prop := ∀ c ∈ text.getLast?, c = '\n'

/-- A line without the carriage return that belongs to its ending. -/
def withoutReturn (line : List Char) : List Char :=
  if line.getLast? = some '\r' then line.dropLast else line

theorem isTerminated_nil : IsTerminated [] := nofun

theorem isTerminated_concat (text : List Char) : IsTerminated (text ++ ['\n']) := by
  intro c hc
  rw [List.getLast?_concat] at hc
  exact (Option.some.inj hc).symm

theorem IsTerminated.tail {c : Char} {rest : List Char} (h : IsTerminated (c :: rest)) :
    IsTerminated rest := by
  cases rest with
  | nil => exact isTerminated_nil
  | cons d ds =>
    intro e he
    exact h e (by rwa [List.getLast?_cons_cons])

theorem lines_newline (rest : List Char) : lines ('\n' :: rest) = [] :: lines rest := by
  rw [lines]

theorem lines_return_newline (rest : List Char) :
    lines ('\r' :: '\n' :: rest) = [] :: lines rest := by
  rw [lines]

/-- A character that is no part of an ending goes into the first line. -/
theorem lines_cons {c : Char} {rest : List Char} (hc : c ≠ '\n')
    (hrest : c = '\r' → rest.head? ≠ some '\n') : lines (c :: rest) =
      (c :: (lines rest).headD []) :: (lines rest).tail := by
  rw [lines.eq_4 c rest hc fun others h hr => hrest h (by rw [hr]; rfl)]
  cases lines rest <;> rfl

theorem eq_nil_of_lines {text : List Char} (h : lines text = []) : text = [] := by
  unfold lines at h
  split at h
  · rfl
  · cases h
  · cases h
  · split at h <;> cases h

/-- What follows a terminated text has its own lines. -/
theorem lines_append {text : List Char} (h : IsTerminated text) (more : List Char) :
    lines (text ++ more) = lines text ++ lines more := by
  fun_induction lines text with
  | case1 => rfl
  | case2 rest ih => rw [List.cons_append, lines_newline, ih h.tail, List.cons_append]
  | case3 rest ih =>
    rw [List.cons_append, List.cons_append, lines_return_newline, ih h.tail.tail,
      List.cons_append]
  | case4 c rest hc hrest hnil =>
    obtain rfl := eq_nil_of_lines hnil
    exact absurd (h c rfl) hc
  | case5 c rest hc hrest line others hlines ih =>
    obtain ⟨d, ds, rfl⟩ : ∃ d ds, rest = d :: ds := by
      cases rest with
      | nil => cases hlines
      | cons d ds => exact ⟨d, ds, rfl⟩
    have hnext : c = '\r' → (d :: ds ++ more).head? ≠ some '\n' := by
      rintro hreturn hd
      cases hd
      exact hrest ds hreturn rfl
    rw [List.cons_append, lines_cons hc hnext, ih h.tail, hlines]
    rfl

/-- A terminated text has as many lines as line feeds. -/
theorem length_lines {text : List Char} (h : IsTerminated text) :
    (lines text).length = text.count '\n' := by
  fun_induction lines text with
  | case1 => rfl
  | case2 rest ih => rw [List.length_cons, List.count_cons_self, ih h.tail]
  | case3 rest ih =>
    rw [List.length_cons, List.count_cons_of_ne (by decide), List.count_cons_self,
      ih h.tail.tail]
  | case4 c rest hc hrest hnil =>
    obtain rfl := eq_nil_of_lines hnil
    exact absurd (h c rfl) hc
  | case5 c rest hc hrest line others hlines ih =>
    rw [List.count_cons_of_ne hc, ← ih h.tail, hlines]
    rfl

/-- A text is a terminated one with a part behind it in which no line feed stands. -/
theorem exists_terminated_append (text : List Char) :
    ∃ start last, text = start ++ last ∧ IsTerminated start ∧ '\n' ∉ last := by
  induction text using List.reverseRecOn with
  | nil => exact ⟨[], [], rfl, isTerminated_nil, List.not_mem_nil⟩
  | append_singleton text c ih =>
    obtain ⟨start, last, rfl, hstart, hlast⟩ := ih
    by_cases hc : c = '\n'
    · subst hc
      exact ⟨_, [], (List.append_nil _).symm, isTerminated_concat _, List.not_mem_nil⟩
    · refine ⟨start, last ++ [c], List.append_assoc .., hstart, ?_⟩
      rw [List.mem_append, List.mem_singleton, not_or]
      exact ⟨hlast, fun h => hc h.symm⟩

/-- A text without a line feed is one line, unless it is empty. -/
theorem lines_of_not_mem {text : List Char} (h : '\n' ∉ text) :
    lines text = if text = [] then [] else [text] := by
  induction text with
  | nil => rfl
  | cons c rest ih =>
    obtain ⟨hc, hrest⟩ := not_or.1 (mt List.mem_cons.2 h)
    have hreturn : c = '\r' → rest.head? ≠ some '\n' := fun _ hnext =>
      hrest (List.mem_of_head? hnext)
    rw [lines_cons (fun h => hc h.symm) hreturn, ih hrest, if_neg (List.cons_ne_nil _ _)]
    split
    · next hnil => rw [hnil]; rfl
    · rfl

/-- A line with its ending. -/
theorem lines_line {line : List Char} (h : '\n' ∉ line) :
    lines (line ++ ['\n']) = [withoutReturn line] := by
  induction line with
  | nil => rfl
  | cons c rest ih =>
    obtain ⟨hc, hrest⟩ := not_or.1 (mt List.mem_cons.2 h)
    cases rest with
    | nil =>
      by_cases hreturn : c = '\r'
      · subst hreturn
        rfl
      · rw [List.cons_append, lines_cons (fun h => hc h.symm) fun h => absurd h hreturn]
        simp [withoutReturn, hreturn, lines]
    | cons d ds =>
      have hd : d ≠ '\n' := fun hd => hrest (hd ▸ List.mem_cons_self)
      have hnext : c = '\r' → (d :: ds ++ ['\n']).head? ≠ some '\n' := fun _ hnext =>
        hd (Option.some.inj hnext)
      rw [List.cons_append, lines_cons (fun h => hc h.symm) hnext, ih hrest]
      unfold withoutReturn
      rw [List.getLast?_cons_cons]
      split
      · rfl
      · rfl

/-- The first lines of a text are the lines of what it starts with. -/
theorem exists_prefix_of_lines {text : List Char} {first others : List (List Char)}
    (h : lines text = first ++ others) : ∃ start rest, text = start ++ rest ∧ lines start = first := by
  induction first generalizing text with
  | nil => exact ⟨[], text, rfl, rfl⟩
  | cons line first ih =>
    by_cases hfeed : '\n' ∈ text
    · obtain ⟨head, tail, rfl, hhead⟩ := List.eq_append_cons_of_mem hfeed
      have hsplit : head ++ '\n' :: tail = (head ++ ['\n']) ++ tail := by simp
      rw [hsplit, lines_append (isTerminated_concat head), lines_line hhead] at h
      obtain ⟨hline, hlines⟩ := List.cons.inj h
      obtain ⟨start, rest, rfl, hstart⟩ := ih hlines
      refine ⟨(head ++ ['\n']) ++ start, rest, by simp, ?_⟩
      rw [lines_append (isTerminated_concat head), lines_line hhead, hstart, ← hline]
      rfl
    · rw [lines_of_not_mem hfeed] at h
      split at h
      · cases h
      · next hne =>
        obtain ⟨hline, hnil⟩ := List.cons.inj h
        refine ⟨text, [], (List.append_nil _).symm, ?_⟩
        rw [lines_of_not_mem hfeed, if_neg hne, hline, (List.append_eq_nil_iff.1 hnil.symm).1]

end DirectiveQuery.Text
