import DirectiveQuery.Proofs.Grammar.Token

/-
  The grammar of queries as a context-free grammar over tokens, with the tree of each
  derivation. The rules stand in no order, and nothing says which of them is tried first; that
  a text has one tree at most is a theorem about them and no part of them. Trees are built
  without positions.
-/
namespace DirectiveQuery

/-- No place in particular. -/
def Span.nowhere : Span := ⟨0, 0, 0, 0⟩

/-- The tree without its positions. -/
def Expression.bare (e : Expression) : Expression := e.mapSpans fun _ => .nowhere

namespace Expression

mutual

theorem bare_mapSpans (f : Span → Span) : ∀ e : Expression, (e.mapSpans f).bare = e.bare
  | identifier _ _ | literal _ _ => rfl
  | unary _ argument _ => by
    have h := bare_mapSpans f argument
    simp only [bare, mapSpans] at h ⊢
    rw [h]
  | binary left _ right _ | logical left _ right _ => by
    have hl := bare_mapSpans f left
    have hr := bare_mapSpans f right
    simp only [bare, mapSpans] at hl hr ⊢
    rw [hl, hr]
  | array es _ | sequence es _ => by
    simp only [bare, mapSpans]
    rw [bare_mapSpansAll f es]
  | call callee arguments _ => by
    have h := bare_mapSpans f callee
    simp only [bare, mapSpans] at h ⊢
    rw [h, bare_mapSpansAll f arguments]

theorem bare_mapSpansAll (f : Span → Span) : ∀ es : List Expression,
    mapSpansAll (fun _ => .nowhere) (mapSpansAll f es) = mapSpansAll (fun _ => .nowhere) es
  | [] => rfl
  | e :: es => by
    have h := bare_mapSpans f e
    rw [bare] at h
    simp only [mapSpansAll]
    rw [h, bare_mapSpansAll f es]
    rfl

end

theorem bare_array (es : List Expression) (s : Span) :
    (array es s).bare = array (es.map bare) .nowhere := by
  rw [bare, mapSpans, mapSpansAll_eq_map]
  rfl

theorem bare_call (callee : Expression) (es : List Expression) (s : Span) :
    (call callee es s).bare = call callee.bare (es.map bare) .nowhere := by
  rw [bare, mapSpans, mapSpansAll_eq_map]
  rfl

theorem bare_sequence (es : List Expression) (s : Span) :
    (sequence es s).bare = sequence (es.map bare) .nowhere := by
  rw [bare, mapSpans, mapSpansAll_eq_map]
  rfl

end Expression

namespace Grammar

/-- How tightly phrases bind, from the loosest to the tightest. -/
inductive Level where
  | disjunction
  | conjunction
  | equality
  | relation
  | unary
  | application
  | primary
deriving DecidableEq, Repr

/-- The next tighter level. -/
def Level.tighter : Level → Level
  | disjunction => conjunction
  | conjunction => equality
  | equality => relation
  | relation => unary
  | unary => application
  | application => primary
  | primary => primary

/-- The place of a level, from the loosest to the tightest. -/
def Level.rank : Level → Nat
  | disjunction => 0
  | conjunction => 1
  | equality => 2
  | relation => 3
  | unary => 4
  | application => 5
  | primary => 6

/-- The level whose phrases the operator joins. -/
def operatorLevel : Operator → Level
  | .comparison .equal | .comparison .notEqual => .equality
  | .comparison _ => .relation
  | .connective .and => .conjunction
  | .connective .or => .disjunction

/-- The node of an operator. -/
def node (left : Expression) (operator : Operator) (right : Expression) : Expression :=
  match operator with
  | .comparison c => .binary left c right .nowhere
  | .connective c => .logical left c right .nowhere

mutual

/-- The phrases of each level, with their trees. -/
inductive Phrase : Level → List Token → Expression → Prop
  | literal (value : Literal) : Phrase .primary [.literal value] (.literal value .nowhere)
  | identifier (name : String) :
      Phrase .primary [.identifier name] (.identifier name .nowhere)
  | array {ts : List Token} {es : List Expression} : Elements ts es →
      Phrase .primary (.openBracket :: (ts ++ [.closeBracket])) (.array es .nowhere)
  | group {ts : List Token} {e : Expression} : Series ts e →
      Phrase .primary (.openParen :: (ts ++ [.closeParen])) e
  | call {ts us : List Token} {callee : Expression} {es : List Expression} :
      Phrase .application ts callee → Elements us es →
      Phrase .application (ts ++ .openParen :: (us ++ [.closeParen])) (.call callee es .nowhere)
  | marked {ts : List Token} {e : Expression} (mark : Mark) : Phrase .unary ts e →
      Phrase .unary (.mark mark :: ts) (.unary mark e .nowhere)
  | joined {l : Level} {ts us : List Token} {left right : Expression} (operator : Operator) :
      operatorLevel operator = l → Phrase l ts left → Phrase l.tighter us right →
      Phrase l (ts ++ .operator operator :: us) (node left operator right)
  | tighter {l : Level} {ts : List Token} {e : Expression} : l ≠ .primary →
      Phrase l.tighter ts e → Phrase l ts e

/-- One expression or more, with a comma between any two. -/
inductive Listing : List Token → List Expression → Prop
  | one {ts : List Token} {e : Expression} : Phrase .disjunction ts e → Listing ts [e]
  | more {ts us : List Token} {es : List Expression} {e : Expression} : Listing ts es →
      Phrase .disjunction us e → Listing (ts ++ .comma :: us) (es ++ [e])

/-- What stands in the brackets of an array or a call: nothing, or a list that a comma may
follow. -/
inductive Elements : List Token → List Expression → Prop
  | none : Elements [] []
  | listing {ts : List Token} {es : List Expression} : Listing ts es → Elements ts es
  | trailing {ts : List Token} {es : List Expression} : Listing ts es →
      Elements (ts ++ [.comma]) es

/-- A list of one expression is that expression, a longer one is a sequence. -/
inductive Series : List Token → Expression → Prop
  | single {ts : List Token} {e : Expression} : Listing ts [e] → Series ts e
  | several {ts : List Token} {es : List Expression} : Listing ts es → 1 < es.length →
      Series ts (.sequence es .nowhere)

end

/-- A query text derives a tree: its tokens are a series with that tree. -/
def Derives (query : String) (e : Expression) : Prop :=
  ∃ tokens, Token.Reads query.toList tokens [] ∧ Series tokens e

theorem Level.eq_of_rank {l m : Level} (h : l.rank = m.rank) : l = m := by
  cases l <;> cases m <;> first | rfl | cases h

theorem Level.rank_tighter {l : Level} (h : l ≠ .primary) : l.tighter.rank = l.rank + 1 := by
  cases l <;> first | rfl | exact absurd rfl h

/-- A phrase is a phrase of every looser level. -/
theorem Phrase.loosen {l m : Level} {ts : List Token} {e : Expression} (h : m.rank ≤ l.rank)
    (hp : Phrase l ts e) : Phrase m ts e := by
  generalize hn : l.rank - m.rank = n
  induction n generalizing m with
  | zero =>
    obtain rfl : l = m := Level.eq_of_rank (by omega)
    exact hp
  | succ n ih =>
    have hm : m ≠ .primary := by
      rintro rfl
      have hl : l.rank ≤ Level.primary.rank := by cases l <;> decide
      omega
    have hrank := Level.rank_tighter hm
    exact .tighter hm (ih (by omega) (by omega))

/-! ## First tokens -/

/-- A phrase of the level can start with the token. -/
def isFirst (l : Level) : Token → Bool
  | .literal _ | .identifier _ | .openBracket | .openParen => true
  | .mark _ => l ≠ .application && l ≠ .primary
  | _ => false

theorem isFirst_of_tighter {l : Level} {t : Token} (h : isFirst l.tighter t) : isFirst l t := by
  cases t <;> first | exact h | (cases l <;> first | rfl | exact h)

theorem Phrase.first {l : Level} {ts : List Token} {e : Expression} :
    Phrase l ts e → ∃ t us, ts = t :: us ∧ isFirst l t
  | .literal _ => ⟨_, _, rfl, rfl⟩
  | .identifier _ => ⟨_, _, rfl, rfl⟩
  | .array _ => ⟨_, _, rfl, rfl⟩
  | .group _ => ⟨_, _, rfl, rfl⟩
  | .call h _ => by
    obtain ⟨t, us, rfl, ht⟩ := h.first
    exact ⟨t, _, rfl, ht⟩
  | .marked _ _ => ⟨_, _, rfl, rfl⟩
  | .joined _ _ h _ => by
    obtain ⟨t, us, rfl, ht⟩ := h.first
    exact ⟨t, _, rfl, ht⟩
  | .tighter _ h => by
    obtain ⟨t, us, rfl, ht⟩ := h.first
    exact ⟨t, _, rfl, isFirst_of_tighter ht⟩

/-! ## Phrases as runs of items

The rules for operators, calls and lists are left-recursive. A phrase of theirs is a first part
and then any number of items that are folded into it from left to right. -/

/-- Tokens that are some items one after the other. -/
inductive Repeated {β : Type} (item : List Token → β → Prop) : List Token → List β → Prop
  | nil : Repeated item [] []
  | cons {ts us : List Token} {b : β} {bs : List β} : item ts b → Repeated item us bs →
      Repeated item (ts ++ us) (b :: bs)

namespace Repeated

variable {β : Type} {item : List Token → β → Prop} {ts us : List Token} {b : β} {bs : List β}

theorem concat (h : Repeated item ts bs) (h' : item us b) :
    Repeated item (ts ++ us) (bs ++ [b]) := by
  induction h with
  | nil =>
    have h1 := Repeated.cons h' .nil
    rwa [List.append_nil] at h1
  | cons hi _ ih =>
    rw [List.append_assoc]
    exact .cons hi ih

/-- Folding items into a first part keeps what holds of it. -/
theorem foldl {γ : Type} {whole : List Token → γ → Prop} {step : γ → β → γ}
    (hstep : ∀ {ts us c b}, whole ts c → item us b → whole (ts ++ us) (step c b))
    {c : γ} (hc : whole ts c) (h : Repeated item us bs) :
    whole (ts ++ us) (bs.foldl step c) := by
  induction h generalizing ts c with
  | nil => rwa [List.append_nil]
  | cons hi _ ih =>
    rw [← List.append_assoc]
    exact ih (hstep hc hi)

end Repeated

/-- An operator of the level with its right operand. -/
def Joint (l : Level) (ts : List Token) (joint : Operator × Expression) : Prop :=
  operatorLevel joint.1 = l ∧ ∃ us, ts = .operator joint.1 :: us ∧ Phrase l.tighter us joint.2

/-- Operators join the phrases of the level. -/
def Level.isChain : Level → Bool
  | disjunction | conjunction | equality | relation => true
  | _ => false

theorem Phrase.chain {l : Level} {ts : List Token} {e : Expression} (hl : l.isChain) :
    Phrase l ts e → ∃ vs us first joints, ts = vs ++ us ∧ Phrase l.tighter vs first ∧
      Repeated (Joint l) us joints ∧ e = joints.foldl (fun left j => node left j.1 j.2) first
  | @joined _ _ ws _ _ o ho h h' => by
    obtain ⟨vs, us, first, joints, rfl, hf, hj, rfl⟩ := h.chain hl
    refine ⟨vs, _, first, joints ++ [(o, _)], List.append_assoc _ _ _, hf,
      hj.concat ⟨ho, ws, rfl, h'⟩, ?_⟩
    simp
  | .tighter _ h => ⟨ts, [], e, [], by simp, h, .nil, rfl⟩
  | .literal _ | .identifier _ | .array _ | .group _ | .call _ _ | .marked _ _ => by cases hl

theorem phrase_of_chain {l : Level} {vs us : List Token} {first : Expression}
    {joints : List (Operator × Expression)} (hl : l.isChain) (hf : Phrase l.tighter vs first)
    (hj : Repeated (Joint l) us joints) :
    Phrase l (vs ++ us) (joints.foldl (fun left j => node left j.1 j.2) first) := by
  refine hj.foldl (fun hw hi => ?_) (.tighter (by rintro rfl; cases hl) hf)
  obtain ⟨ho, ws, rfl, hr⟩ := hi
  exact .joined _ ho hw hr

/-- A list between two tokens. -/
def Bracketed (opening closing : Token) (ts : List Token) (es : List Expression) : Prop :=
  ∃ us, ts = opening :: (us ++ [closing]) ∧ Elements us es

/-- The arguments of a call, in their parentheses. -/
def Arguments : List Token → List Expression → Prop := Bracketed .openParen .closeParen

/-- What an operand without calls and marks is. -/
theorem Phrase.operand {ts : List Token} {e : Expression} : Phrase .primary ts e →
    (∃ value, ts = [.literal value] ∧ e = .literal value .nowhere) ∨
      (∃ es, Bracketed .openBracket .closeBracket ts es ∧ e = .array es .nowhere) ∨
      (∃ name, ts = [.identifier name] ∧ e = .identifier name .nowhere) ∨
      (∃ us, ts = .openParen :: (us ++ [.closeParen]) ∧ Series us e)
  | literal value => .inl ⟨value, rfl, rfl⟩
  | array h => .inr (.inl ⟨_, ⟨_, rfl, h⟩, rfl⟩)
  | identifier name => .inr (.inr (.inl ⟨name, rfl, rfl⟩))
  | group h => .inr (.inr (.inr ⟨_, rfl, h⟩))
  | joined o ho _ _ => by rcases o with o | o <;> cases o <;> cases ho
  | tighter h _ => absurd rfl h

theorem Phrase.calls {ts : List Token} {e : Expression} :
    Phrase .application ts e → ∃ vs us first calls, ts = vs ++ us ∧ Phrase .primary vs first ∧
      Repeated Arguments us calls ∧ e = calls.foldl (fun f es => .call f es .nowhere) first
  | @call _ ws _ _ h h' => by
    obtain ⟨vs, us, first, calls, rfl, hf, hc, rfl⟩ := h.calls
    refine ⟨vs, _, first, _, List.append_assoc _ _ _, hf, hc.concat ⟨ws, rfl, h'⟩, ?_⟩
    simp
  | .tighter _ h => ⟨ts, [], e, [], by simp, h, .nil, rfl⟩

theorem phrase_of_calls {vs us : List Token} {first : Expression}
    {calls : List (List Expression)} (hf : Phrase .primary vs first)
    (hc : Repeated Arguments us calls) :
    Phrase .application (vs ++ us) (calls.foldl (fun f es => .call f es .nowhere) first) := by
  refine hc.foldl (fun hw hi => ?_) (.tighter (by decide) hf)
  obtain ⟨ws, rfl, ha⟩ := hi
  exact .call hw ha

theorem Phrase.marks {ts : List Token} {e : Expression} :
    Phrase .unary ts e → ∃ (marks : List Mark) (us : List Token) (operand : Expression),
      ts = marks.map Token.mark ++ us ∧
      Phrase .application us operand ∧ e = marks.foldr (fun m e => .unary m e .nowhere) operand
  | .marked m h => by
    obtain ⟨marks, us, operand, rfl, ho, rfl⟩ := h.marks
    exact ⟨m :: marks, us, operand, rfl, ho, rfl⟩
  | .tighter _ h => ⟨[], ts, e, rfl, h, rfl⟩

theorem phrase_of_marks {us : List Token} {operand : Expression} (marks : List Mark)
    (h : Phrase .application us operand) :
    Phrase .unary (marks.map Token.mark ++ us)
      (marks.foldr (fun m e => .unary m e .nowhere) operand) := by
  induction marks with
  | nil => exact .tighter (by decide) h
  | cons m marks ih => exact .marked m ih

/-- A comma and the expression behind it. -/
def Further (ts : List Token) (e : Expression) : Prop :=
  ∃ us, ts = .comma :: us ∧ Phrase .disjunction us e

theorem Listing.further {ts : List Token} {es : List Expression} :
    Listing ts es → ∃ vs us first others, ts = vs ++ us ∧ Phrase .disjunction vs first ∧
      Repeated Further us others ∧ es = first :: others
  | .one h => ⟨ts, [], _, [], by simp, h, .nil, rfl⟩
  | @more _ ws _ _ h h' => by
    obtain ⟨vs, us, first, others, rfl, hf, ho, rfl⟩ := h.further
    exact ⟨vs, _, first, _, List.append_assoc _ _ _, hf, ho.concat ⟨ws, rfl, h'⟩, rfl⟩

theorem Listing.append {vs us : List Token} {es others : List Expression} (h : Listing vs es)
    (ho : Repeated Further us others) : Listing (vs ++ us) (es ++ others) := by
  induction ho generalizing vs es with
  | nil => simpa using h
  | cons hi _ ih =>
    obtain ⟨ws, rfl, he⟩ := hi
    have h' := ih (.more h he)
    rwa [List.append_assoc, List.append_assoc] at h'

end Grammar

end DirectiveQuery
