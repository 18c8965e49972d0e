import DirectiveQuery.Proofs.Grammar.Spans
import DirectiveQuery.Proofs.Text.Boundary

/-
  Trees by the paths to their nodes. A tree is determined by what stands at each path: what kind
  of node it is, and its span (`eq_of_outlines`). So the change from bytes to characters can be
  told without a walk through the tree: it is the one tree that has at every path the same kind of
  node, with both ends of its span counted in characters.
-/
namespace DirectiveQuery

open Text (Positions Parts IsBoundary startingBefore startsFrom isAscii)

namespace Expression

/-- What a node is, apart from its span and the trees under it. -/
inductive Head where
  | identifier (name : String)
  | literal (value : Literal)
  | unary (mark : Mark)
  | binary (operator : Comparison)
  | logical (operator : Connective)
  | array
  | call
  | sequence
deriving DecidableEq, Repr

/-- The head of a tree. -/
def head : Expression → Head
  | identifier name _ => .identifier name
  | literal value _ => .literal value
  | unary mark _ _ => .unary mark
  | binary _ operator _ _ => .binary operator
  | logical _ operator _ _ => .logical operator
  | array _ _ => .array
  | call _ _ _ => .call
  | sequence _ _ => .sequence

/-- The node that is reached by going down, at each step to the child with the next index. -/
def at? : (path : List Nat) → Expression → Option Expression
  | [], e => some e
  | i :: path, e => e.children[i]?.bind (at? path)

/-- The head and the span of the node at a path. -/
def outline? (e : Expression) (path : List Nat) : Option (Head × Span) :=
  (e.at? path).map fun node => (node.head, node.span)

variable {a b : Expression}

theorem head_mapSpans (f : Span → Span) (e : Expression) : (e.mapSpans f).head = e.head := by
  cases e <;> rfl

/-- Head, span and children are all there is to a tree. -/
theorem eq_of_head (hhead : a.head = b.head) (hspan : a.span = b.span)
    (hchildren : a.children = b.children) : a = b := by
  cases a <;> cases b <;> simp_all [head, span, children]

theorem outline?_cons (e : Expression) (i : Nat) (path : List Nat) :
    e.outline? (i :: path) = e.children[i]?.bind fun child => child.outline? path := by
  rw [outline?, at?, Option.map_bind]
  rfl

/-- Two trees that look alike at every path are equal. -/
theorem eq_of_outlines (h : ∀ path, a.outline? path = b.outline? path) : a = b := by
  induction a using Expression.induction generalizing b with
  | step a ih =>
    have hroot : (a.head, a.span) = (b.head, b.span) := Option.some.inj (h [])
    refine eq_of_head (Prod.mk.inj hroot).1 (Prod.mk.inj hroot).2 (List.ext_getElem? fun i => ?_)
    have hbelow : ∀ path, (a.children[i]?.bind fun child => child.outline? path) =
        b.children[i]?.bind fun child => child.outline? path := by
      intro path
      rw [← outline?_cons, ← outline?_cons, h (i :: path)]
    -- The empty path tells whether there is a child, the other paths which one it is.
    cases ha : a.children[i]? with
    | none =>
      cases hb : b.children[i]? with
      | none => rfl
      | some d =>
        have hnone := hbelow []
        rw [ha, hb] at hnone
        cases hnone
    | some c =>
      cases hb : b.children[i]? with
      | none =>
        have hnone := hbelow []
        rw [ha, hb] at hnone
        cases hnone
      | some d =>
        refine congrArg some (ih c (List.mem_of_getElem? ha) fun path => ?_)
        have hpath := hbelow path
        rwa [ha, hb] at hpath

theorem at?_mapSpans (f : Span → Span) (path : List Nat) (e : Expression) :
    (e.mapSpans f).at? path = (e.at? path).map (mapSpans f) := by
  induction path generalizing e with
  | nil => rfl
  | cons i path ih =>
    rw [at?, at?, Grammar.children_mapSpans, List.getElem?_map]
    cases e.children[i]? with
    | none => rfl
    | some child => exact ih child

/-- Every node keeps its head, and its span is changed once. -/
theorem outline?_mapSpans (f : Span → Span) (e : Expression) (path : List Nat) :
    (e.mapSpans f).outline? path = (e.outline? path).map fun (head, s) => (head, f s) := by
  rw [outline?, outline?, at?_mapSpans, Option.map_map, Option.map_map]
  refine congrArg (Option.map · _) (funext fun node => ?_)
  simp only [Function.comp_apply, head_mapSpans, span_mapSpans]

/-- At the boundaries of a text, whether a table of them is kept or not, a byte position becomes
the number of characters that start before it; the order of the boundaries is kept, and any place
that parts the table there is that number. In characters, a tree is the one that differs at every
node in the ends of its span, which are counted so, and in nothing else. -/
theorem inCharacters_rebases (text : List Char) :
    (∀ byte, IsBoundary text byte →
      (Positions.ofText text).character byte = startingBefore text byte ∧
      (Positions.mk (some (startsFrom 0 text))).character byte = startingBefore text byte ∧
      (isAscii text → (Positions.mk none).character byte = startingBefore text byte)) ∧
    (∀ byte place, Parts (startsFrom 0 text) byte place ↔
      place = (Positions.mk (some (startsFrom 0 text))).character byte) ∧
    (∀ byte byte', IsBoundary text byte → IsBoundary text byte' → byte < byte' →
      (Positions.ofText text).character byte < (Positions.ofText text).character byte') ∧
    ∀ e e' : Expression, e' = e.inCharacters (Positions.ofText text) ↔
      ∀ path, e'.outline? path = (e.outline? path).map fun (head, s) =>
        (head, ⟨(Positions.ofText text).character s.start,
          (Positions.ofText text).character s.stop, s.line, s.column⟩) := by
  refine ⟨fun byte hb => ⟨Text.character_ofText hb, Text.character_table text byte,
    fun hascii => Text.character_ascii hascii hb⟩, fun byte place => ⟨?_, ?_⟩,
    fun _ _ => Text.character_lt_character, fun e e' => ⟨?_, fun h => ?_⟩⟩
  · exact Parts.eq_length_takeWhile
  · rintro rfl
    exact Text.parts_length_takeWhile (Text.startsFrom_ascends 0 text) byte
  · rintro rfl path
    exact outline?_mapSpans _ e path
  · refine eq_of_outlines fun path => ?_
    rw [h path, inCharacters, outline?_mapSpans]
    rfl

/-- Two characters of two bytes each, and a text without any. -/
theorem inCharacters_rebases_accents :
    IsBoundary "é('à')".toList 3 ∧ IsBoundary "é('à')".toList 6 ∧
      (Positions.ofText "é('à')".toList).character 3 = 2 ∧
      (Positions.ofText "é('à')".toList).character 3 <
        (Positions.ofText "é('à')".toList).character 6 ∧
      IsBoundary "e('a')".toList 6 ∧ isAscii "e('a')".toList ∧
      (Positions.mk none).character 6 = startingBefore "e('a')".toList 6 := by
  obtain ⟨hcount, -, hlt, -⟩ := inCharacters_rebases "é('à')".toList
  have h3 : IsBoundary "é('à')".toList 3 := ⟨2, by decide, by decide⟩
  have h6 : IsBoundary "é('à')".toList 6 := ⟨4, by decide, by decide⟩
  have hend : IsBoundary "e('a')".toList 6 := ⟨6, by decide, by decide⟩
  have hascii : isAscii "e('a')".toList := by decide
  refine ⟨h3, h6, ?_, hlt 3 6 h3 h6 (by decide), hend, hascii,
    ((inCharacters_rebases _).1 6 hend).2.2 hascii⟩
  rw [(hcount 3 h3).1]
  decide

end Expression

end DirectiveQuery
