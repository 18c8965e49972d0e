import Mathlib.Data.List.Nodup
import DirectiveQuery.Grammar.Rule

/-
  Which rules a message names. The words of a text are the runs of characters of which names are
  made, and a rule is named if its name is one of them. Each name is a word, no two rules have the
  same one, and what stands between the names of an enumeration has no word but `or`, which is no
  name. So a list of rules is read back from its enumeration (`isNamedIn_expectation`).
-/
namespace DirectiveQuery

/-- The characters of which the names of rules are made. -/
def isNameChar (c : Char) : Bool := c.isAlpha || c = '_'

/-- The words of a text, one after the other. -/
def words (text : List Char) : List (List Char) :=
  (text.splitOnP fun c => !isNameChar c).filter (· ≠ [])

/-- The text is a word as a whole. -/
def IsWord (text : List Char) : Prop := text ≠ [] ∧ text.all isNameChar

/-- The name of the rule is a word of the text. -/
def Rule.IsNamedIn (rule : Rule) (text : String) : Prop := rule.name.toList ∈ words text.toList

section

variable {c : Char} {text : List Char} {names : List String}

theorem words_append_break (hc : isNameChar c = false) (xs ys : List Char) :
    words (xs ++ c :: ys) = words xs ++ words ys := by
  unfold words
  rw [List.splitOnP_append_cons xs ys (by simpa using hc), List.filter_append]

theorem words_cons_break (hc : isNameChar c = false) (ys : List Char) :
    words (c :: ys) = words ys :=
  words_append_break hc [] ys

theorem words_of_isWord (h : IsWord text) : words text = [text] := by
  have hchars := List.all_eq_true.1 h.2
  rw [words, List.splitOnP_eq_singleton fun c hc => by simpa using hchars c hc]
  simp [h.1]

theorem words_or (xs ys : List Char) :
    words (xs ++ " or ".toList ++ ys) = words xs ++ "or".toList :: words ys := by
  have hor : words ("or".toList ++ ' ' :: ys) = "or".toList :: words ys := by
    rw [words_append_break (by decide), words_of_isWord ⟨by decide, by decide⟩]
    rfl
  rw [List.append_assoc, ← hor]
  exact words_append_break (by decide) xs _

/-- Behind a comma and a space the next word starts. -/
theorem words_intercalate (h : ∀ name ∈ names, IsWord name.toList) :
    words (String.intercalate ", " names).toList = names.map String.toList := by
  induction names with
  | nil =>
    rw [String.intercalate_nil]
    rfl
  | cons a names ih =>
    obtain ⟨ha, hnames⟩ := List.forall_mem_cons.1 h
    cases names with
    | nil => rw [String.intercalate_singleton, words_of_isWord ha, List.map_singleton]
    | cons b names =>
      rw [String.intercalate_cons_cons, String.toList_append, String.toList_append,
        List.append_assoc, List.map_cons, ← ih hnames]
      show words (a.toList ++ ',' :: ' ' :: _) = _
      rw [words_append_break (by decide), words_cons_break (by decide), words_of_isWord ha]
      rfl

theorem mem_words_enumerated (h : ∀ name ∈ names, IsWord name.toList)
    (hor : text ≠ "or".toList) :
    text ∈ words (enumerated names).toList ↔ text ∈ names.map String.toList := by
  have hskip : ∀ xs ys : List (List Char), text ∈ xs ++ "or".toList :: ys ↔ text ∈ xs ++ ys := by
    intro xs ys
    rw [List.mem_append, List.mem_cons, or_iff_right hor, ← List.mem_append]
  match names with
  | [] => rfl
  | [a] => rw [enumerated, words_of_isWord (h a List.mem_cons_self), List.map_singleton]
  | [a, b] =>
    rw [enumerated, String.toList_append, String.toList_append, words_or, hskip,
      words_of_isWord (h a (by simp)), words_of_isWord (h b (by simp))]
    rfl
  | a :: b :: c :: rest =>
    -- the last name stands behind a comma and the `or`
    obtain ⟨init, last, heq⟩ := (List.eq_nil_or_concat (a :: b :: c :: rest)).resolve_left nofun
    have henumerated : enumerated (a :: b :: c :: rest) =
        String.intercalate ", " init ++ ", or " ++ last := by
      show String.intercalate ", " (a :: b :: c :: rest).dropLast ++ ", or " ++
        (a :: b :: c :: rest).getLast?.getD "" = _
      rw [heq, List.concat_eq_append, List.dropLast_concat, List.getLast?_concat, Option.getD_some]
    rw [henumerated, String.toList_append, String.toList_append, List.append_assoc]
    rw [heq, List.concat_eq_append] at h ⊢
    show text ∈ words (_ ++ ',' :: (([] : List Char) ++ " or ".toList ++ last.toList)) ↔ _
    rw [words_append_break (by decide), words_or,
      words_intercalate fun name hname => h name (List.mem_append_left _ hname),
      words_of_isWord (h last (by simp)), ← List.append_assoc, hskip, List.map_append]
    simp [words]

end

namespace Rule

theorem isWord_name (rule : Rule) : IsWord rule.name.toList := by
  cases rule <;> exact ⟨by decide, by decide⟩

theorem name_ne_or (rule : Rule) : rule.name.toList ≠ "or".toList := by cases rule <;> decide

theorem name_inj {a b : Rule} : a.name = b.name ↔ a = b := by
  have hnodup : (all.map name).Nodup := by decide
  exact ⟨List.inj_on_of_nodup_map hnodup (mem_all a) (mem_all b), congrArg name⟩

/-- An expectation names the rules that are enumerated in it. -/
theorem isNamedIn_expectation (rule : Rule) (expected : List Rule) :
    rule.IsNamedIn ("parsing error: expected " ++ enumerated (expected.map name)) ↔
      rule ∈ expected := by
  have hwords : ∀ n ∈ expected.map name, IsWord n.toList := by
    intro n hn
    obtain ⟨r, -, rfl⟩ := List.mem_map.1 hn
    exact r.isWord_name
  have hhead : rule.name.toList ∉ words "parsing error: expected".toList := by
    cases rule <;> decide
  have htext : ("parsing error: expected " ++ enumerated (expected.map name)).toList =
      "parsing error: expected".toList ++ ' ' :: (enumerated (expected.map name)).toList := by
    have hblank : "parsing error: expected ".toList = "parsing error: expected".toList ++ [' '] := by
      decide
    rw [String.toList_append, hblank, List.append_assoc, List.singleton_append]
  rw [IsNamedIn, htext, words_append_break (by decide), List.mem_append,
    or_iff_right hhead, mem_words_enumerated hwords rule.name_ne_or, List.map_map, List.mem_map]
  simp [String.toList_inj, name_inj]

end Rule

end DirectiveQuery
