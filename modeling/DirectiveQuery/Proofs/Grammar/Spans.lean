import DirectiveQuery.Proofs.Grammar.Cutting
import DirectiveQuery.Proofs.Grammar.Places
import DirectiveQuery.Proofs.Grammar.Unambiguous

/-
  Where the nodes of a tree stand. `IsPlaced` says what the span of a node has to do with the
  text: it counts characters, its line and column belong to its start, it holds the spans of the
  nodes under it one after the other, and the text in it is what the node says. The parsers build
  trees whose nodes stand so between cursors (`Placed`), each from trees that its parts have
  built; the spans are joined from spans of parts, and parentheses and spaces may lie between
  them. All of that is told in characters; that the parsers count bytes comes in once only, when
  a cursor is turned into the number of characters behind it.
-/
namespace DirectiveQuery

open Text (slice slice_self slice_append_drop slice_append_slice slice_of_drop_eq)

namespace Expression

/-- The trees right under a tree, from left to right. -/
def children : Expression → List Expression
  | identifier .. | literal .. => []
  | unary _ argument _ => [argument]
  | binary left _ right _ | logical left _ right _ => [left, right]
  | array elements _ | sequence elements _ => elements
  | call callee arguments _ => callee :: arguments

/-- What holds of a tree if it holds of the trees right under it holds of every tree. -/
@[elab_as_elim]
theorem induction {motive : Expression → Prop}
    (step : ∀ e, (∀ child ∈ e.children, motive child) → motive e) (e : Expression) :
    motive e := by
  apply step
  cases e with
  | identifier | literal => exact List.forall_mem_nil _
  | unary mark argument s => exact List.forall_mem_singleton.2 (induction step argument)
  | binary left operator right s | logical left operator right s =>
    exact List.forall_mem_cons.2
      ⟨induction step left, List.forall_mem_singleton.2 (induction step right)⟩
  | array es s | sequence es s =>
    have hes : ∀ e ∈ es, motive e := fun e _ => induction step e
    exact hes
  | call callee es s =>
    exact List.forall_mem_cons.2 ⟨induction step callee, fun e _ => induction step e⟩

/-- The first tree is the second one or somewhere under it. -/
inductive IsNode : Expression → Expression → Prop
  | root (e : Expression) : IsNode e e
  | under {node child e : Expression} : child ∈ e.children → IsNode node child → IsNode node e

/-- The text is the expressions in a pair of brackets, with commas between them. -/
def Encloses (opening closing : Char) (es : List Expression) (text : List Char) : Prop :=
  ∃ inner ts, text = opening :: (inner ++ [closing]) ∧ Token.Reads inner ts [] ∧
    Grammar.Elements ts (es.map bare)

/-- The character may stand behind an operand that is in parentheses. -/
def isTrailing (ch : Char) : Bool := ch = ')' || Lexeme.isSpace ch

/-- The text in the span of a node is what the node says. -/
def IsSpelled (text : List Char) : Expression → Prop
  | identifier name s => slice text s.start s.stop = name.toList
  | literal value s => Token.Spelling (slice text s.start s.stop) (.literal value)
  | array es s => text[s.stop - 1]? = some ']' ∧ Encloses '[' ']' es (slice text s.start s.stop)
  | call callee es s => text[s.stop - 1]? = some ')' ∧ ∃ opening, callee.span.stop ≤ opening ∧
      (∀ ch ∈ slice text callee.span.stop opening, isTrailing ch) ∧
      Encloses '(' ')' es (slice text opening s.stop)
  | _ => True

/-- The span of a node belongs to it, in the text that the tree was read from. -/
structure IsPlaced (text : List Char) (e : Expression) : Prop where
  start_lt_stop : e.span.start < e.span.stop
  stop_le : e.span.stop ≤ text.length
  line : e.span.line = 1 + (text.take e.span.start).count '\n'
  column : e.span.column =
    1 + ((text.take e.span.start).reverse.takeWhile (· != '\n')).length
  inside : ∀ child ∈ e.children,
    e.span.start ≤ child.span.start ∧ child.span.stop ≤ e.span.stop
  apart : e.children.Pairwise fun a b => a.span.stop ≤ b.span.start
  isSpelled : e.IsSpelled text

end Expression

namespace Grammar

open DirectiveQuery.Parser Token Expression Cursor

variable {text : List Char} {i j k l n : Nat}

/-! ## Trees between places -/

/-- Only closing parentheses and spaces stand between the positions. -/
def Trailing (text : List Char) (i j : Nat) : Prop := ∀ ch ∈ slice text i j, isTrailing ch

/-- The span between two places, as the parsers have it. -/
def between (text : List Char) (i j : Nat) : Span := (place text i).spanTo (place text j)

mutual

/-- A tree whose nodes stand where the text says so, from one place to another one. -/
inductive Placed (text : List Char) : Nat → Expression → Nat → Prop
  | identifier {i j : Nat} {name : String} : i < j → j ≤ text.length →
      slice text i j = name.toList → Placed text i (.identifier name (between text i j)) j
  | literal {i j : Nat} {value : Literal} : i < j → j ≤ text.length →
      Spelling (slice text i j) (.literal value) →
      Placed text i (.literal value (between text i j)) j
  | unary {i k l j : Nat} {e : Expression} {mark : Mark} :
      slice text i k = mark.token.toList → i < k → k ≤ l → Placed text l e j →
      Placed text i (.unary mark e (between text i j)) j
  | binary {i k l j : Nat} {left right : Expression} (operator : Comparison) :
      Placed text i left k → k ≤ l → Placed text l right j →
      Placed text i (.binary left operator right (between text i j)) j
  | logical {i k l j : Nat} {left right : Expression} (operator : Connective) :
      Placed text i left k → k ≤ l → Placed text l right j →
      Placed text i (.logical left operator right (between text i j)) j
  | array {i j : Nat} {es : List Expression} : i < j → j ≤ text.length → Listed text i es j →
      Encloses '[' ']' es (slice text i j) → Placed text i (.array es (between text i j)) j
  | call {i k l j : Nat} {callee : Expression} {es : List Expression} :
      Placed text i callee k → k ≤ l → l < j → j ≤ text.length → Listed text l es j →
      Trailing text k l → Encloses '(' ')' es (slice text l j) →
      Placed text i (.call callee es (between text i j)) j
  | sequence {i j : Nat} {es : List Expression} : i < j → j ≤ text.length → Listed text i es j →
      Placed text i (.sequence es (between text i j)) j

/-- Such trees one after the other, between two places. -/
inductive Listed (text : List Char) : Nat → List Expression → Nat → Prop
  | nil {i j : Nat} : i ≤ j → Listed text i [] j
  | cons {i k l j : Nat} {e : Expression} {es : List Expression} : i ≤ k → Placed text k e l →
      Listed text l es j → Listed text i (e :: es) j

end

/-- A tree somewhere between two places, with nothing but closing parentheses and spaces behind
it. -/
def Stands (text : List Char) (i : Nat) (e : Expression) (j : Nat) : Prop :=
  ∃ k l, i ≤ k ∧ Placed text k e l ∧ l ≤ j ∧ Trailing text l j

theorem Trailing.refl (text : List Char) (i : Nat) : Trailing text i i := by
  simp [Trailing, slice_self]

theorem Trailing.trans (h : Trailing text i k) (h' : Trailing text k j) (hik : i ≤ k)
    (hkj : k ≤ j) : Trailing text i j := by
  rw [Trailing, ← slice_append_slice hik hkj]
  exact List.forall_mem_append.2 ⟨h, h'⟩

namespace Placed

variable {e : Expression}

theorem lt_and_le {i j : Nat} {e : Expression} (h : Placed text i e j) :
    i < j ∧ j ≤ text.length := by
  match h with
  | identifier h hj _ | literal h hj _ | array h hj _ _ | sequence h hj _ => exact ⟨h, hj⟩
  | unary _ h hkl he =>
    obtain ⟨h', hj⟩ := he.lt_and_le
    exact ⟨by omega, hj⟩
  | binary _ hl hkl hr | logical _ hl hkl hr =>
    have hleft := hl.lt_and_le
    have hright := hr.lt_and_le
    exact ⟨by omega, hright.2⟩
  | call hc hkl h hj _ _ _ =>
    have hcallee := hc.lt_and_le
    exact ⟨by omega, hj⟩

theorem lt (h : Placed text i e j) : i < j := h.lt_and_le.1

theorem le_length (h : Placed text i e j) : j ≤ text.length := h.lt_and_le.2

theorem span_eq (h : Placed text i e j) : e.span = between text i j := by
  cases h <;> rfl

end Placed

theorem Listed.widen {i i' j j' : Nat} {es : List Expression} (h : Listed text i es j)
    (hi : i' ≤ i) (hj : j ≤ j') : Listed text i' es j' := by
  match h with
  | .nil h => exact .nil (by omega)
  | .cons hk he hes => exact .cons (by omega) he (hes.widen (Nat.le_refl _) hj)

theorem Listed.le {i j : Nat} {es : List Expression} (h : Listed text i es j) : i ≤ j := by
  match h with
  | .nil h => exact h
  | .cons hk he hes =>
    have := he.lt
    have := hes.le
    omega

/-- The trees under a tree stand one after the other between its ends. -/
theorem Placed.listed_children {e : Expression} (h : Placed text i e j) :
    Listed text i e.children j := by
  match h with
  | .identifier h _ _ | .literal h _ _ => exact .nil (Nat.le_of_lt h)
  | .unary _ h hkl he =>
    exact .cons (Nat.le_trans (Nat.le_of_lt h) hkl) he (.nil (Nat.le_refl _))
  | .binary _ hl hkl hr | .logical _ hl hkl hr =>
    exact .cons (Nat.le_refl _) hl (.cons hkl hr (.nil (Nat.le_refl _)))
  | .array _ _ hes _ | .sequence _ _ hes => exact hes
  | .call hc hkl _ _ hes _ _ => exact .cons (Nat.le_refl _) hc (hes.widen hkl (Nat.le_refl _))

theorem Listed.placed_of_mem {i j : Nat} {es : List Expression} (h : Listed text i es j)
    {e : Expression} (he : e ∈ es) : ∃ k l, Placed text k e l ∧ i ≤ k ∧ l ≤ j := by
  match h with
  | .nil _ => cases he
  | .cons hk hp hes =>
    cases he with
    | head => exact ⟨_, _, hp, hk, hes.le⟩
    | tail _ he =>
      obtain ⟨a, b, hab, ha, hb⟩ := hes.placed_of_mem he
      have := hp.lt
      exact ⟨a, b, hab, by omega, hb⟩

/-! ## From bytes to characters -/

section InCharacters

variable {e : Expression}

theorem children_mapSpans (f : Span → Span) (e : Expression) :
    (e.mapSpans f).children = e.children.map (mapSpans f) := by
  cases e <;> simp only [mapSpans, children, mapSpansAll_eq_map, List.map_cons, List.map_nil]

/-- Counted in characters, the span of a tree has the two places as its ends. -/
theorem Placed.span_inCharacters (h : Placed text i e j) :
    (e.inCharacters (Text.Positions.ofText text)).span =
      ⟨i, j, (place text i).line, (place text i).column⟩ := by
  have hj := h.le_length
  have hi : i ≤ text.length := Nat.le_trans (Nat.le_of_lt h.lt) hj
  rw [inCharacters, span_mapSpans, h.span_eq]
  simp only [between, spanTo, Span.mapEnds, character_place hi, character_place hj]

theorem map_bare_mapSpansAll (f : Span → Span) (es : List Expression) :
    (mapSpansAll f es).map bare = es.map bare := by
  rw [mapSpansAll_eq_map, List.map_map]
  exact List.map_congr_left fun e _ => bare_mapSpans f e

theorem encloses_mapSpans {opening closing : Char} {es : List Expression} {part : List Char}
    (f : Span → Span) (h : Encloses opening closing es part) :
    Encloses opening closing (mapSpansAll f es) part := by
  rw [Encloses, map_bare_mapSpansAll]
  exact h

/-- Brackets close at the last character. -/
theorem getElem?_of_encloses {opening closing : Char} {es : List Expression}
    (h : Encloses opening closing es (slice text i j)) (hij : i < j) (hj : j ≤ text.length) :
    text[j - 1]? = some closing := by
  obtain ⟨inner, -, hpart, -⟩ := h
  have hlast := congrArg List.getLast? hpart
  rw [← List.cons_append, List.getLast?_concat, List.getLast?_eq_getElem?, slice,
    List.getElem?_drop, List.length_drop, List.length_take, Nat.min_eq_left hj,
    List.getElem?_take_of_lt (by omega)] at hlast
  rwa [show i + (j - i - 1) = j - 1 by omega] at hlast

theorem Placed.isSpelled (h : Placed text i e j) :
    (e.inCharacters (Text.Positions.ofText text)).IsSpelled text := by
  have hspan := h.span_inCharacters
  rw [inCharacters] at hspan ⊢
  cases h with
  | identifier _ _ hslice | literal _ _ hslice =>
    simp only [mapSpans, span] at hspan
    simp only [mapSpans, IsSpelled, hspan]
    exact hslice
  | array hij hj _ hes =>
    simp only [mapSpans, span] at hspan
    simp only [mapSpans, IsSpelled, hspan]
    exact ⟨getElem?_of_encloses hes hij hj, encloses_mapSpans _ hes⟩
  | call hc hkl hlj hj _ htrailing hes =>
    have hcallee := hc.span_inCharacters
    rw [inCharacters] at hcallee
    simp only [mapSpans, span] at hspan
    simp only [mapSpans, IsSpelled, hspan, hcallee]
    exact ⟨getElem?_of_encloses hes hlj hj, _, hkl, htrailing, encloses_mapSpans _ hes⟩
  | unary | binary | logical | sequence => trivial

theorem Listed.pairwise {i j : Nat} {es : List Expression} (h : Listed text i es j) :
    (es.map (inCharacters (Text.Positions.ofText text))).Pairwise fun a b =>
      a.span.stop ≤ b.span.start := by
  match h with
  | .nil _ => exact .nil
  | .cons hk hp hes =>
    refine List.pairwise_cons.2 ⟨?_, hes.pairwise⟩
    intro other ho
    obtain ⟨other, hm, rfl⟩ := List.mem_map.1 ho
    obtain ⟨a, b, hab, ha, -⟩ := hes.placed_of_mem hm
    rw [hp.span_inCharacters, hab.span_inCharacters]
    exact ha

theorem Placed.isPlaced (h : Placed text i e j) :
    (e.inCharacters (Text.Positions.ofText text)).IsPlaced text := by
  have hspan := h.span_inCharacters
  have hcounts := counts_place text i
  have hchildren : (e.inCharacters (Text.Positions.ofText text)).children =
      e.children.map (inCharacters (Text.Positions.ofText text)) := children_mapSpans _ e
  constructor
  · rw [hspan]
    exact h.lt
  · rw [hspan]
    exact h.le_length
  · rw [hspan]
    exact hcounts.line
  · rw [hspan]
    exact hcounts.column
  · rw [hchildren]
    intro child hc
    obtain ⟨child, hm, rfl⟩ := List.mem_map.1 hc
    obtain ⟨k, l, hp, hk, hl⟩ := h.listed_children.placed_of_mem hm
    rw [hspan, hp.span_inCharacters]
    exact ⟨hk, hl⟩
  · rw [hchildren]
    exact h.listed_children.pairwise
  · exact h.isSpelled

/-- The trees in a tree stand between places too. -/
theorem Placed.of_isNode (h : Placed text i e j) {node : Expression}
    (hn : IsNode node (e.inCharacters (Text.Positions.ofText text))) :
    ∃ e' k l, Placed text k e' l ∧ node = e'.inCharacters (Text.Positions.ofText text) := by
  generalize he : e.inCharacters (Text.Positions.ofText text) = tree at hn
  induction hn generalizing e i j with
  | root => exact ⟨e, i, j, h, he.symm⟩
  | under hc _ ih =>
    subst he
    rw [inCharacters, children_mapSpans] at hc
    obtain ⟨child, hm, rfl⟩ := List.mem_map.1 hc
    obtain ⟨k, l, hp, -⟩ := h.listed_children.placed_of_mem hm
    exact ih hp rfl

theorem Placed.isPlaced_of_isNode (h : Placed text i e j) {node : Expression}
    (hn : IsNode node (e.inCharacters (Text.Positions.ofText text))) : node.IsPlaced text := by
  obtain ⟨e', k, l, hp, rfl⟩ := h.of_isNode hn
  exact hp.isPlaced

end InCharacters

end Grammar

end DirectiveQuery
