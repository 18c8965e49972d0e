import DirectiveQuery.Proofs.Grammar.Naming
import DirectiveQuery.Proofs.Grammar.Viable

/-
  Syntax errors are true. The text before the place of an error is the beginning of a query, and
  each rule that the error names fits there: some text behind that place makes a query, in which
  the rule matches right there. The rule of the end fits if nothing needs to follow. That a rule
  was tried where it fits is shown beside the parsers; here the fitting query is written down
  and read.
-/
namespace DirectiveQuery

open DirectiveQuery.Parser Grammar Token Cursor

variable {text before : List Char} {rule : Rule} {b : Nat}

/-- With the characters `before` read, a query can go on with the rule, or, if it is the rule of
the end, can be over. That it goes on with the rule is to say: for some text behind the
characters there is a query, and in reading it the rule matches where that text starts, and not
nothing. -/
def Rule.FitsBehind (before : List Char) : Rule → Prop
  | .endOfText => ∃ tree, Expression.parse (String.ofList before) = .ok tree
  | rule => ∃ rest tree, Expression.parse (String.ofList (before ++ rest)) = .ok tree ∧
      HasMatch (Grammar.program (Cursor.start (before ++ rest))).matched rule rest

theorem Rule.fitsBehind_iff (h : rule ≠ .endOfText) : rule.FitsBehind before ↔
    ∃ rest tree, Expression.parse (String.ofList (before ++ rest)) = .ok tree ∧
      HasMatch (Grammar.program (Cursor.start (before ++ rest))).matched rule rest := by
  cases rule <;> first | rfl | exact absurd rfl h

/-- Where a rule fits, a query can be completed. -/
theorem Rule.FitsBehind.exists_parse (h : rule.FitsBehind before) :
    ∃ rest tree, Expression.parse (String.ofList (before ++ rest)) = .ok tree := by
  by_cases hrule : rule = .endOfText
  · subst hrule
    obtain ⟨tree, htree⟩ := h
    exact ⟨[], tree, by rwa [List.append_nil]⟩
  · obtain ⟨rest, tree, htree, -⟩ := (Rule.fitsBehind_iff hrule).1 h
    exact ⟨rest, tree, htree⟩

namespace Grammar

theorem endOfText_not_opened (st : Stage) (t : Token) : Rule.endOfText ∉ st.opens t := by
  have hlevel : ∀ l : Level, levelRule l ≠ .endOfText := by
    intro l
    cases l <;> decide
  cases st <;> cases t <;> simp [Stage.opens, Ne.symm (hlevel _)]

theorem exists_parse_of_reads {ts : List Token} {tree : Expression} (hr : Reads text ts [])
    (hs : Series ts tree) : ∃ e, Expression.parse (String.ofList text) = .ok e := by
  have hderives : Derives (String.ofList text) tree := by
    rw [Derives, String.toList_ofList]
    exact ⟨ts, hr, hs⟩
  obtain ⟨e, he, -⟩ := Expression.exists_parse_iff.2 hderives
  exact ⟨e, he⟩

/-- A query that is made of some tokens gives a match for each rule that one of them opens. -/
theorem hasMatch_of_reads {us : List Token} {ts : List Token} {t : Token} {rest : List Char}
    {tree : Expression} (hr : Reads text (ts ++ t :: us) []) (hs : Series (ts ++ t :: us) tree)
    (hrest : Reads text ts rest) (htrim : trimmed rest)
    (ho : rule ∈ (Stage.operand.behind ts).opens t) :
    (∃ e, Expression.parse (String.ofList text) = .ok e) ∧
      HasMatch (program (Cursor.start text)).matched rule rest := by
  obtain ⟨e, he⟩ := exists_parse_of_reads hr hs
  obtain ⟨e', c', hrun, -⟩ := Expression.parse_eq_ok.1 he
  rw [String.toList_ofList] at hrun
  obtain ⟨vs, st, hcovers⟩ := program_covered hrun
  obtain rfl := hcovers.reads.tokens_unique hr
  obtain ⟨middle, hmiddle, hmatch⟩ := hcovers.hasMatch
  have hsame : afterSpace middle = rest := (hmiddle.rest_unique hrest).trans htrim
  exact ⟨⟨e, he⟩, hsame ▸ hmatch rule ho⟩

/-- A rule that is expected fits. -/
theorem Continues.fitsBehind {ts : List Token} {w : Word} (h : Continues ts rule w)
    (hr : Reads before ts []) : rule.FitsBehind before := by
  have hne : rule ≠ .endOfText := fun he => endOfText_not_opened _ _ (he ▸ h.opens)
  obtain ⟨words, tree, hseries⟩ := h.completes
  rw [List.append_assoc, List.singleton_append] at hseries
  obtain ⟨ch, hch, hhead⟩ := h.breaks
  obtain ⟨cs, htext⟩ := List.head?_eq_some_iff.1 hhead
  have hspace : Lexeme.isSpace ch = false := by
    have hspelling := w.spelling
    rw [htext] at hspelling
    exact hspelling.noSpace_head
  obtain ⟨more, hmore⟩ : ∃ more, Word.spaced (w :: words) = ch :: more :=
    ⟨_, by rw [Word.spaced, List.flatMap_cons, htext]; rfl⟩
  have hwords := Word.reads_spaced (w :: words)
  rw [hmore] at hwords
  have hbefore : Reads (before ++ ch :: more) ts (ch :: more) := hr.extend (breaks_of_mem hch)
  obtain ⟨⟨e, he⟩, hmatch⟩ := hasMatch_of_reads (hbefore.append hwords) hseries hbefore
    (afterSpace_cons hspace more) h.opens
  exact (Rule.fitsBehind_iff hne).2 ⟨ch :: more, e, he, hmatch⟩

/-- Where the end is expected, a query ends. -/
theorem fitsBehind_of_series {ts : List Token} {tree : Expression} (hr : Reads before ts [])
    (hs : Series ts tree) : Rule.endOfText.FitsBehind before :=
  exists_parse_of_reads hr hs

/-- What a query blames lies at a place of the text, and fits there. -/
theorem program_fits (h : Reports program (Cursor.start text) rule b) :
    ∃ k, k ≤ text.length ∧ (place text k).byte = b ∧ rule.FitsBehind (text.take k) := by
  obtain ⟨k, ts, w, hk, hb, hr, hw⟩ | ⟨rfl, k, ts, tree, hk, hb, hr, hs⟩ := program_expected h
  · exact ⟨k, hk, hb, hw.fitsBehind hr⟩
  · exact ⟨k, hk, hb, fitsBehind_of_series hr hs⟩

/-- The parser of queries goes along the text, and it is a parser under a name. -/
theorem exists_onward_program (c : Cursor) :
    ∃ p : Parser Expression, Onward (named .program p) ∧ program c = named .program p c := by
  have honward : Onward (named .program do
      space
      let e ← sequence (expressionWithin (c.ahead.length + 1))
      space
      named .endOfText endOfText
      return e) :=
    (space_onward.bind fun _ =>
      (sequence_onward (expressionWithin_onward _)).bind fun e => space_onward.bind fun _ =>
        (Onward.endOfText.named .endOfText).bind fun _ => .pure e).named .program
  exact ⟨_, honward, rfl⟩

/-- A query that fails blames a rule. -/
theorem misses_of_fails (h : Fails program (Cursor.start text)) :
    ∃ place rules, (program (Cursor.start text)).misses = .tried place rules ∧ rules ≠ [] := by
  obtain ⟨p, honward, hprogram⟩ := exists_onward_program (Cursor.start text)
  rw [Fails, hprogram] at h
  obtain ⟨place, rules, hm, -⟩ := settled_named h
  exact ⟨place, rules, hprogram ▸ hm, (honward.notBefore _ _ _ hm).1⟩

/-- What a query blames lies behind some number of its characters. -/
theorem exists_place_of_misses {c : Cursor} {rules : List Rule}
    (h : (program (Cursor.start text)).misses = .tried c rules) :
    ∃ k ≤ text.length, c = place text k := by
  obtain ⟨p, honward, hprogram⟩ := exists_onward_program (Cursor.start text)
  exact honward.along _ c rules (hprogram ▸ h)

end Grammar

namespace SyntaxError

theorem parse_eq_error {query : String} {e : SyntaxError} :
    Expression.parse query = .error e ↔ Fails program (Cursor.start query.toList) ∧
      e = ofMisses query.toList (program (Cursor.start query.toList)).misses := by
  unfold Expression.parse Fails
  dsimp only
  split
  · next h => simp [h]
  · next h => simp [h, eq_comm]

theorem inOrder_ne_nil {rules : List Rule} (h : rules ≠ []) : Rule.inOrder rules ≠ [] := by
  obtain ⟨rule, hr⟩ := List.exists_mem_of_ne_nil rules h
  exact List.ne_nil_of_mem (Rule.mem_inOrder.2 hr)

theorem expectation_eq {rules : List Rule} (h : Rule.inOrder rules ≠ []) :
    expectation rules = "expected " ++ enumerated ((Rule.inOrder rules).map Rule.name) := by
  rw [expectation]
  split
  · next hnil => exact absurd hnil h
  · rfl

/-- The text before the place of an error, in characters, can be completed to a query. The message
names a rule at least, the rules that it names are those that it enumerates, and each of them fits
behind that text. -/
theorem parse_error_fits {query : String} {e : SyntaxError}
    (h : Expression.parse query = .error e) :
    e.offset ≤ query.toList.length ∧
      (∃ expected : List Rule, expected ≠ [] ∧
        e.message = "parsing error: expected " ++ enumerated (expected.map Rule.name) ∧
        (∀ rule : Rule, rule.IsNamedIn e.message ↔ rule ∈ expected) ∧
        ∀ rule ∈ expected, rule.FitsBehind (query.toList.take e.offset)) ∧
      e.message ≠ "parsing error: unknown parsing error" ∧
      ∃ rest tree,
        Expression.parse (String.ofList (query.toList.take e.offset ++ rest)) = .ok tree := by
  obtain ⟨hf, he⟩ := parse_eq_error.1 h
  obtain ⟨place, rules, hm, hne⟩ := misses_of_fails hf
  rw [hm] at he
  have hfits : ∀ rule ∈ rules, e.offset ≤ query.toList.length ∧
      rule.FitsBehind (query.toList.take e.offset) := by
    intro rule hr
    obtain ⟨k, hk, hb, hfits⟩ := program_fits ⟨place, rules, hm, rfl, hr⟩
    have hplace := character_place hk
    rw [hb] at hplace
    have hoffset : e.offset = k := (congrArg offset he).trans hplace
    rw [hoffset]
    exact ⟨hk, hfits⟩
  obtain ⟨first, hfirst⟩ := List.exists_mem_of_ne_nil rules hne
  have hinOrder := inOrder_ne_nil hne
  have hmessage : e.message =
      "parsing error: expected " ++ enumerated ((Rule.inOrder rules).map Rule.name) :=
    (congrArg message he).trans (congrArg ("parsing error: " ++ ·) (expectation_eq hinOrder))
  refine ⟨(hfits first hfirst).1, ⟨Rule.inOrder rules, hinOrder, hmessage, fun rule => ?_,
    fun rule hr => ?_⟩, ?_, (hfits first hfirst).2.exists_parse⟩
  · rw [hmessage, Rule.isNamedIn_expectation]
  · exact (hfits rule (Rule.mem_inOrder.1 hr)).2
  · rw [hmessage]
    intro hunknown
    have hchar := congrArg (fun s => s.toList[15]?) hunknown
    simp [String.toList_append] at hchar

/-- The `!` of this `!=` is taken for a mark, and what comes before the equals sign could go on
to a query. -/
theorem parse_error_fits_notEqual : ∃ e, Expression.parse "a && != b" = .error e ∧
    e.offset = 6 ∧ ∃ rest tree,
      Expression.parse (String.ofList ("a && !".toList ++ rest)) = .ok tree := by
  have hfails : Fails program (Cursor.start "a && != b".toList) :=
    Option.isNone_iff_eq_none.1 (by decide +kernel)
  have hoffset : (ofMisses "a && != b".toList
      (program (Cursor.start "a && != b".toList)).misses).offset = 6 := by
    decide +kernel
  have hparse := parse_eq_error.2 ⟨hfails, rfl⟩
  obtain ⟨-, -, -, hrest⟩ := parse_error_fits hparse
  rw [hoffset] at hrest
  exact ⟨_, hparse, hoffset, hrest⟩

end SyntaxError

end DirectiveQuery
