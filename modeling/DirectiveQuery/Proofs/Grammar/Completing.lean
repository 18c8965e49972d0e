import DirectiveQuery.Proofs.Grammar.Covering
import DirectiveQuery.Proofs.Printing.Clause

/-
  Beginnings of queries. Tokens are the beginning of a query if some words behind them complete
  it (`Completes`). Where a phrase, a list or the inside of brackets may come next, a phrase in
  it may come next as well, with the operators, commas and brackets that go with it; so inside a
  query one is never at a place from which there is no way to its end.
-/
namespace DirectiveQuery.Grammar

open Token

variable {l m : Level} {ts us : List Token} {e : Expression} {es : List Expression}

/-- Some words behind the tokens make a query. -/
def Completes (ts : List Token) : Prop :=
  ∃ (words : List Word) (tree : Expression), Series (ts ++ words.map Word.token) tree

theorem Completes.of_append (words : List Word) (h : Completes (ts ++ words.map Word.token)) :
    Completes ts := by
  obtain ⟨more, tree, h⟩ := h
  rw [List.append_assoc, ← List.map_append] at h
  exact ⟨_, tree, h⟩

/-- A phrase of the level may stand behind the tokens. -/
def Admits (l : Level) (ts : List Token) : Prop := ∀ us e, Phrase l us e → Completes (ts ++ us)

/-- Expressions with commas between them may stand behind the tokens. -/
def AdmitsList (ts : List Token) : Prop := ∀ us es, Listing us es → Completes (ts ++ us)

/-- Brackets may be opened behind the tokens. -/
def AdmitsElements (opening : Token) (ts : List Token) : Prop :=
  ∀ us es, Elements us es → Completes (ts ++ opening :: us)

/-! ## Operands -/

theorem Admits.tighten (h : Admits m ts) (hr : m.rank ≤ l.rank) : Admits l ts :=
  fun us e hp => h us e (hp.loosen hr)

theorem Admits.completes_string (h : Admits l ts) : Completes (ts ++ [(Word.quoted "").token]) := by
  have hl : l.rank ≤ Level.primary.rank := by cases l <;> decide
  exact h _ _ ((Phrase.literal (.string "")).loosen hl)

theorem Admits.mark (h : Admits .unary ts) (m : Mark) : Admits .unary (ts ++ [.mark m]) := by
  intro us e hp
  rw [List.append_assoc, List.singleton_append]
  exact h _ _ (.marked m hp)

theorem Admits.completes_mark (h : Admits .unary ts) (m : Mark) :
    Completes (ts ++ [(Word.mark m).token]) :=
  (h.mark m).completes_string.of_append [Word.quoted ""]

theorem Admits.operator {o : Operator} (h : Admits l ts) (hp : Phrase l us e)
    (ho : operatorLevel o = l) : Admits l.tighter (ts ++ us ++ [.operator o]) := by
  intro vs right hr
  have hjoined := h _ _ (.joined o ho hp hr)
  simpa using hjoined

theorem Admits.completes_operator {o : Operator} (h : Admits l ts) (hp : Phrase l us e)
    (ho : operatorLevel o = l) : Completes (ts ++ us ++ [(Word.operator o).token]) :=
  (h.operator hp ho).completes_string.of_append [Word.quoted ""]

/-! ## Lists and brackets -/

theorem AdmitsList.first (h : AdmitsList ts) : Admits .disjunction ts :=
  fun us e hp => h us [e] (.one hp)

theorem AdmitsList.further (h : AdmitsList ts) (hl : Listing us es) :
    Admits .disjunction (ts ++ us ++ [.comma]) := by
  intro vs e hp
  have hmore := h _ _ (.more hl hp)
  simpa using hmore

theorem Listing.series (hl : Listing us es) : ∃ e, Series us e := by
  match es, hl with
  | [], hl => exact absurd rfl hl.ne_nil
  | [e], hl => exact ⟨e, .single hl⟩
  | e :: e' :: es, hl => exact ⟨_, .several hl (by simp)⟩

theorem admitsList_nil : AdmitsList [] := by
  intro us es hl
  obtain ⟨e, hs⟩ := hl.series
  exact ⟨[], e, by simpa using hs⟩

theorem Admits.group (h : Admits .primary ts) : AdmitsList (ts ++ [.openParen]) := by
  intro us es hl
  obtain ⟨e, hs⟩ := hl.series
  refine Completes.of_append [Word.closeParen] ?_
  have hgroup := h _ _ (.group hs)
  rw [List.append_assoc, List.append_assoc]
  exact hgroup

theorem AdmitsElements.list {opening : Token} (h : AdmitsElements opening ts) :
    AdmitsList (ts ++ [opening]) := by
  intro us es hl
  rw [List.append_assoc, List.singleton_append]
  exact h us es (.listing hl)

theorem Admits.array (h : Admits .primary ts) : AdmitsElements .openBracket ts := by
  intro us es hes
  refine Completes.of_append [Word.closeBracket] ?_
  rw [List.append_assoc]
  exact h _ _ (.array hes)

theorem Admits.call (h : Admits .application ts) (hp : Phrase .application us e) :
    AdmitsElements .openParen (ts ++ us) := by
  intro vs es hes
  refine Completes.of_append [Word.closeParen] ?_
  rw [List.append_assoc, List.append_assoc]
  exact h _ _ (.call hp hes)

theorem Admits.completes_call (h : Admits .application ts) (hp : Phrase .application us e) :
    Completes (ts ++ us ++ [Word.openParen.token]) :=
  h.call hp [] [] .none

/-! ## Stages -/

theorem Stage.behind_append (st : Stage) (ts us : List Token) :
    st.behind (ts ++ us) = (st.behind ts).behind us := List.foldl_append

theorem Stage.behind_concat (st : Stage) (ts : List Token) (t : Token) :
    st.behind (ts ++ [t]) = .after t := by
  rw [behind_append]
  rfl

theorem Phrase.last {l : Level} {ts : List Token} {e : Expression} :
    Phrase l ts e → ∃ us t, ts = us ++ [t] ∧ Stage.after t = .ended
  | .literal _ => ⟨[], _, rfl, rfl⟩
  | .identifier _ => ⟨[], _, rfl, rfl⟩
  | .array _ => ⟨_, _, (List.cons_append ..).symm, rfl⟩
  | .group _ => ⟨_, _, (List.cons_append ..).symm, rfl⟩
  | .call _ _ => ⟨_, .closeParen, by rw [← List.cons_append, ← List.append_assoc], rfl⟩
  | .marked _ h => by
    obtain ⟨us, t, rfl, ht⟩ := h.last
    exact ⟨_, t, (List.cons_append ..).symm, ht⟩
  | .joined _ _ _ h => by
    obtain ⟨us, t, rfl, ht⟩ := h.last
    exact ⟨_, t, by rw [← List.cons_append, ← List.append_assoc], ht⟩
  | .tighter _ h => h.last

/-- Behind a phrase an operand has ended. -/
theorem Phrase.behind (hp : Phrase l us e) (st : Stage) (ts : List Token) :
    st.behind (ts ++ us) = .ended := by
  obtain ⟨vs, t, rfl, ht⟩ := hp.last
  rw [← List.append_assoc, Stage.behind_concat, ht]

end DirectiveQuery.Grammar
