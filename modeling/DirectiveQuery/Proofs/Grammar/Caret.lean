import DirectiveQuery.Proofs.Grammar.Expectation
import DirectiveQuery.Text.Line

/-
  Where the mark under a syntax error stands. The text of an error is made of lines: the place in
  numbers, the line of the query that holds the place, and the mark, as far to the right as there
  are characters before the place in its line. The line is shown without its ending, and without
  any other carriage return, so the mark stands as many characters too far to the right as there
  are carriage returns before the place (`returnsLeftOut`): under the character of the place if
  there is none. A place on a line ending has every carriage return of its line shown by a sign.
-/
namespace DirectiveQuery

open DirectiveQuery.Parser Grammar
open Text (splitAll)

namespace Text

variable {mark : Char} {part : List Char}

theorem splitAll_append (h : mark ∉ part) (rest : List Char) :
    splitAll mark (part ++ mark :: rest) = part :: splitAll mark rest := by
  induction part with
  | nil => rw [List.nil_append, splitAll, if_pos rfl]
  | cons c part ih =>
    obtain ⟨hc, hpart⟩ := List.ne_and_not_mem_of_not_mem_cons h
    rw [List.cons_append, splitAll, if_neg hc.symm, ih hpart]

end Text

namespace SyntaxError

/-- A carriage return or a line feed. -/
def isEnding (c : Char) : Bool := c == '\r' || c == '\n'

/-- The characters before a position in its line. -/
def lineBefore (text : List Char) (n : Nat) : List Char :=
  ((text.take n).reverse.takeWhile (· != '\n')).reverse

/-- The carriage returns before a position in its line that are not shown: all of them, or none if
the position is on a line ending. -/
def returnsLeftOut (text : List Char) (n : Nat) : Nat :=
  if (text[n]?).any isEnding then 0 else (lineBefore text n).count '\r'

variable {text line : List Char} {c : Char} {n : Nat}

/-! ## The line of a position -/

theorem not_mem_lineBefore (text : List Char) (n : Nat) : '\n' ∉ lineBefore text n := by
  intro h
  cases List.all_eq_true.1 List.all_takeWhile _ (List.mem_reverse.1 h)

/-- The character at a position is the next one in its line, a line feed too. -/
theorem exists_lineAround (h : text[n]? = some c) :
    ∃ rest, lineAround text n = lineBefore text n ++ c :: rest := by
  obtain ⟨hn, rfl⟩ := List.getElem?_eq_some_iff.1 h
  rw [lineAround, List.drop_eq_getElem_cons hn, List.append_assoc]
  by_cases hc : text[n] = '\n'
  · refine ⟨[], ?_⟩
    simp [lineBefore, hc]
  · have hp : (text[n] != '\n') = true := by simpa using hc
    rw [List.takeWhile_cons, hp, if_pos rfl]
    exact ⟨_, rfl⟩

theorem lineAround_length (text : List Char) :
    lineAround text text.length = lineBefore text text.length := by
  simp [lineAround, lineBefore]

/-- Of a line without a line feed, all but the carriage returns is shown. -/
theorem length_filter_add_count (h : '\n' ∉ line) :
    (line.filter fun c => !isEnding c).length + line.count '\r' = line.length := by
  induction line with
  | nil => rfl
  | cons c line ih =>
    obtain ⟨hc, hline⟩ := List.ne_and_not_mem_of_not_mem_cons h
    have hrest := ih hline
    by_cases hr : c = '\r'
    · subst hr
      simp only [isEnding, List.filter_cons, List.count_cons_self, List.length_cons,
        beq_self_eq_true, Bool.true_or, Bool.not_true, Bool.false_eq_true, if_false] at hrest ⊢
      omega
    · have hkeep : isEnding c = false := by simp [isEnding, hr, hc.symm]
      rw [List.filter_cons_of_pos (by simp [hkeep]), List.count_cons_of_ne hr, List.length_cons,
        List.length_cons]
      omega

/-! ## The line as it is shown -/

theorem snippetAt_eq (text : List Char) (n : Nat) : snippetAt text n =
    if (text[n]?).any isEnding then (lineAround text n).map visible
    else (lineAround text n).filter fun c => !isEnding c := rfl

theorem visible_eq_self (h : isEnding c = false) : visible c = c := by
  simp only [isEnding, Bool.or_eq_false_iff, beq_eq_false_iff_ne] at h
  rw [visible, if_neg h.1, if_neg h.2]

theorem visible_ne_newline (c : Char) : visible c ≠ '\n' := by
  unfold visible
  split
  · decide
  · split
    · decide
    · assumption

/-- The line is shown on one line. -/
theorem not_mem_snippetAt (text : List Char) (n : Nat) : '\n' ∉ snippetAt text n := by
  rw [snippetAt_eq]
  split
  · intro h
    obtain ⟨c, -, hc⟩ := List.mem_map.1 h
    exact visible_ne_newline c hc
  · intro h
    cases (List.mem_filter.1 h).2

theorem returnsLeftOut_le (text : List Char) (n : Nat) :
    returnsLeftOut text n ≤ (lineBefore text n).length := by
  unfold returnsLeftOut
  split
  · exact Nat.zero_le _
  · exact List.count_le_length

/-- In the line as it is shown, the character of a position stands behind those before it, as far
as these are shown. -/
theorem getElem?_snippetAt (h : text[n]? = some c) :
    (snippetAt text n)[(lineBefore text n).length - returnsLeftOut text n]? = some (visible c) := by
  obtain ⟨rest, hline⟩ := exists_lineAround h
  rw [snippetAt_eq, returnsLeftOut, hline, h, Option.any_some]
  cases hc : isEnding c with
  | true =>
    rw [if_pos rfl, if_pos rfl, List.map_append, Nat.sub_zero, ← List.length_map visible,
      List.getElem?_append_right (Nat.le_refl _), Nat.sub_self]
    rfl
  | false =>
    have hcount := length_filter_add_count (not_mem_lineBefore text n)
    rw [if_neg Bool.false_ne_true, if_neg Bool.false_ne_true, List.filter_append,
      List.filter_cons, hc, Bool.not_false, if_pos rfl, ← hcount, Nat.add_sub_cancel,
      List.getElem?_append_right (Nat.le_refl _), Nat.sub_self, visible_eq_self hc]
    rfl

/-- At the end of the text, the line as it is shown ends there. -/
theorem length_snippetAt_length (text : List Char) :
    (snippetAt text text.length).length =
      (lineBefore text text.length).length - returnsLeftOut text text.length := by
  have hend : text[text.length]? = none := List.getElem?_eq_none (Nat.le_refl _)
  have hcount := length_filter_add_count (not_mem_lineBefore text text.length)
  rw [snippetAt_eq, returnsLeftOut, lineAround_length, hend, Option.any_none,
    if_neg Bool.false_ne_true, if_neg Bool.false_ne_true, ← hcount, Nat.add_sub_cancel]

/-! ## The lines of an error -/

theorem not_mem_toString (n : Nat) : '\n' ∉ (toString n).toList := by
  rw [Nat.toString_eq_repr, Nat.toList_repr]
  intro h
  cases Nat.isDigit_of_mem_toDigits (by decide) (by decide) h

/-- The first line of an error: its place in numbers. -/
def header (e : SyntaxError) : String :=
  "Syntax error at line " ++ toString e.line ++ ", column " ++ toString e.column ++ ":"

theorem not_mem_header (e : SyntaxError) : '\n' ∉ e.header.toList := by
  have hfirst : '\n' ∉ "Syntax error at line ".toList := by decide
  have hsecond : '\n' ∉ ", column ".toList := by decide
  have hthird : '\n' ∉ ":".toList := by decide
  unfold header
  simp only [String.toList_append, List.mem_append, not_or]
  exact ⟨⟨⟨⟨hfirst, not_mem_toString _⟩, hsecond⟩, not_mem_toString _⟩, hthird⟩

theorem splitAll_formatted {e : SyntaxError} (hs : e.snippet ≠ "")
    (hline : '\n' ∉ e.snippet.toList) : splitAll '\n' e.formatted.toList =
      e.header.toList :: e.snippet.toList :: (List.replicate (e.column - 1) ' ' ++ ['^']) ::
        splitAll '\n' e.message.toList := by
  have hmark : '\n' ∉ List.replicate (e.column - 1) ' ' ++ ['^'] := by
    simp [List.mem_replicate]
  have hformatted : e.formatted.toList = e.header.toList ++ '\n' :: (e.snippet.toList ++
      '\n' :: ((List.replicate (e.column - 1) ' ' ++ ['^']) ++ '\n' :: e.message.toList)) := by
    have hempty : e.snippet.isEmpty = false := by simpa using hs
    have hfirst : ":\n".toList = ":".toList ++ ['\n'] := rfl
    have hthird : "^\n".toList = ['^', '\n'] := rfl
    have hfeed : "\n".toList = ['\n'] := rfl
    unfold formatted header
    rw [hempty, if_neg Bool.false_ne_true]
    simp only [String.toList_append, String.toList_ofList, hfirst, hthird, hfeed,
      List.append_assoc, List.cons_append, List.nil_append]
  rw [hformatted, Text.splitAll_append e.not_mem_header, Text.splitAll_append hline,
    Text.splitAll_append hmark]

/-! ## Errors of queries -/

/-- An error of a query lies behind some number of its characters. -/
theorem exists_place_of_parse {query : String} {e : SyntaxError}
    (h : Expression.parse query = .error e) : ∃ k ≤ query.toList.length, ∃ rules,
      e = ofMisses query.toList (.tried (Cursor.place query.toList k) rules) := by
  obtain ⟨hf, he⟩ := parse_eq_error.1 h
  obtain ⟨place, rules, hm, -⟩ := misses_of_fails hf
  obtain ⟨k, hk, rfl⟩ := exists_place_of_misses hm
  exact ⟨k, hk, rules, hm ▸ he⟩

/-- An error stands where its offset says, in lines and columns of characters too, and its text
has the shown line on its second line and the mark on the third, behind as many spaces as there
are columns before the place. So many characters to the right, less the carriage returns that are
left out, is in the shown line the character of the place; at the end of the text, the shown line
ends there. -/
theorem parse_error_caret {query : String} {e : SyntaxError}
    (h : Expression.parse query = .error e) (hs : e.snippet ≠ "") :
    e.offset ≤ query.toList.length ∧
    e.line = 1 + (query.toList.take e.offset).count '\n' ∧
    e.column = 1 + (lineBefore query.toList e.offset).length ∧
    splitAll '\n' e.formatted.toList =
      e.header.toList :: e.snippet.toList :: (List.replicate (e.column - 1) ' ' ++ ['^']) ::
        splitAll '\n' e.message.toList ∧
    returnsLeftOut query.toList e.offset < e.column ∧
    (∀ c, query.toList[e.offset]? = some c →
      e.snippet.toList[e.column - 1 - returnsLeftOut query.toList e.offset]? = some (visible c)) ∧
    (e.offset = query.toList.length →
      e.snippet.length = e.column - 1 - returnsLeftOut query.toList e.offset) := by
  obtain ⟨k, hk, rules, he⟩ := exists_place_of_parse h
  have hcounts := Cursor.counts_place query.toList k
  have hoffset : e.offset = k := (congrArg offset he).trans (Cursor.character_place hk)
  have hline : e.line = 1 + (query.toList.take k).count '\n' :=
    (congrArg SyntaxError.line he).trans hcounts.line
  have hcolumn : e.column = 1 + (lineBefore query.toList k).length := by
    rw [lineBefore, List.length_reverse]
    exact (congrArg column he).trans hcounts.column
  have hsnippet : e.snippet.toList = snippetAt query.toList k := by
    rw [← hoffset, he]
    exact String.toList_ofList
  have hbefore : e.column - 1 = (lineBefore query.toList k).length := by
    rw [hcolumn, Nat.add_sub_cancel_left]
  have hreturns := returnsLeftOut_le query.toList k
  rw [hoffset, hbefore, ← String.length_toList, hsnippet]
  refine ⟨hk, hline, hcolumn, ?_, by omega, fun c hc => getElem?_snippetAt hc, ?_⟩
  · rw [← hsnippet, ← hbefore]
    exact splitAll_formatted hs (hsnippet ▸ not_mem_snippetAt _ _)
  · rintro rfl
    exact length_snippetAt_length _

/-- Behind a character of two bytes and a line feed. -/
theorem parse_error_caret_at_sign : ∃ e, Expression.parse "'é'\n @" = .error e ∧ e.snippet ≠ "" ∧
    e.offset = 5 ∧ e.line = 2 ∧ e.column = 2 ∧ e.snippet.toList[1]? = some '@' := by
  have hfails : Fails program (Cursor.start "'é'\n @".toList) :=
    Option.isNone_iff_eq_none.1 (by decide +kernel)
  have hparse := parse_eq_error.2 ⟨hfails, rfl⟩
  have hsnippet : (ofMisses "'é'\n @".toList
      (program (Cursor.start "'é'\n @".toList)).misses).snippet = " @" := by
    decide +kernel
  have hoffset : (ofMisses "'é'\n @".toList
      (program (Cursor.start "'é'\n @".toList)).misses).offset = 5 := by
    decide +kernel
  have hne : " @" ≠ "" := by decide
  obtain ⟨-, hline, hcolumn, -, -, hmark, -⟩ := parse_error_caret hparse (hsnippet ▸ hne)
  rw [hoffset] at hline hcolumn hmark
  have hbefore : (lineBefore "'é'\n @".toList 5).length = 1 := by decide
  have hreturns : returnsLeftOut "'é'\n @".toList 5 = 0 := by decide
  rw [hbefore] at hcolumn
  have hsign := hmark '@' (by decide)
  rw [hcolumn, hreturns] at hsign
  exact ⟨_, hparse, hsnippet ▸ hne, hoffset, hline.trans (by decide), hcolumn, hsign⟩

/-- The carriage return before this `b` is counted and not shown, so the mark is under the `c`. -/
theorem parse_error_caret_astray : ∃ e, Expression.parse "a\rbc" = .error e ∧ e.snippet ≠ "" ∧
    "a\rbc".toList[e.offset]? = some 'b' ∧ e.snippet.toList[e.column - 1]? = some 'c' := by
  have hfails : Fails program (Cursor.start "a\rbc".toList) :=
    Option.isNone_iff_eq_none.1 (by decide +kernel)
  refine ⟨_, parse_eq_error.2 ⟨hfails, rfl⟩, ?_, ?_, ?_⟩ <;> decide +kernel

end SyntaxError

end DirectiveQuery
