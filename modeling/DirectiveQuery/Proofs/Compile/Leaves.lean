import Mathlib.Algebra.Group.Nat.Even
import Mathlib.Data.List.Forall2
import DirectiveQuery.Proofs.Compile.Pointing
import DirectiveQuery.Proofs.Compile.Shape

/-
  Comparisons and leaves. A tree has its comparisons in a row, from left to right, each with the
  number of negations that enclose it: `comparisons` lists the comparison nodes of the tree and
  nothing else (`mem_comparisons_iff`), and in a text it lists them in the order in which they are
  written (`comparisons_ordered`). The filter of a condition has one leaf for each of
  them, in the same order, with the same field and the operand that is written there, and with the
  opposite operator exactly where the number of negations is odd. Two things make it so: the sides
  of a comparison that compiles have no comparisons of their own, and the truth value that the
  recursion carries is the parity of the negations passed so far (`condition_comparisons`). The
  normal form has the same leaves in the same order, and the fields are those of the leaves
  without the repeats.
-/
namespace DirectiveQuery

/-! ## What is written -/

/-- The expression is the name of the field: a bare one, or a string. -/
inductive Expression.NamesField : Expression → String → Prop
  | bare (name : String) (s : Span) : NamesField (identifier name s) name
  | quoted (name : String) (s : Span) : NamesField (literal (.string name) s) name

/-- The expression writes the operand: one value, or an array with a value for each element. -/
inductive Expression.WritesOperand : Expression → Operand → Prop
  | scalar {e : Expression} {v : Value} : e.WritesValue v → WritesOperand e (.scalar v)
  | list {es : List Expression} {vs : List Value} (s : Span) : List.Forall₂ WritesValue es vs →
      WritesOperand (array es s) (.list vs)

theorem Expression.fieldName?_eq_some {e : Expression} {name : String} :
    e.fieldName? = some name ↔ e.NamesField name := by
  constructor
  · intro h
    unfold fieldName? at h
    split at h
    · cases h
      exact .bare _ _
    · cases h
      exact .quoted _ _
    · cases h
  · intro h
    cases h <;> rfl

theorem Expression.fieldName?_eq_none {e : Expression} :
    e.fieldName? = none ↔ ∀ name, ¬ e.NamesField name := by
  simp only [← fieldName?_eq_some, Option.eq_none_iff_forall_ne_some, ne_eq]

theorem Value.map_ofExpression?_eq {es : List Expression} {vs : List Value} :
    es.map ofExpression? = vs.map some ↔ List.Forall₂ Expression.WritesValue es vs := by
  rw [← List.forall₂_eq_eq_eq, List.forall₂_map_left_iff, List.forall₂_map_right_iff]
  simp only [ofExpression?_eq_some]

namespace Expression

theorem writes_of_operand {operator : Comparison} {e : Expression} {v : Operand}
    (h : e.operand operator = .ok v) : e.WritesOperand v := by
  cases e with
  | array es s =>
    obtain ⟨-, vs, hvs, rfl⟩ := operand_array.1 h
    exact .list s (Value.map_ofExpression?_eq.1 hvs)
  | _ =>
    obtain ⟨-, w, hw, rfl⟩ := (operand_eq_ok_of_scalar (by rintro es s ⟨⟩)).1 h
    exact .scalar (Value.ofExpression?_eq_some.1 hw)

end Expression

/-! ## Comparisons of a tree -/

/-- A comparison somewhere in a tree, with the number of negations that enclose it. -/
structure Occurrence where
  negations : Nat
  left : Expression
  operator : Comparison
  right : Expression

/-- The leaf says what the comparison says there: it has its field and its operand, and the
opposite of its operator exactly if the number of negations is odd. -/
structure Occurrence.Becomes (c : Occurrence) (l : Leaf) : Prop where
  field : c.left.NamesField l.field
  operator : l.operator = if Even c.negations then c.operator else c.operator.opposite
  operand : c.right.WritesOperand l.operand

namespace Expression

mutual

/-- The comparisons of a tree that `depth` negations enclose, from left to right. -/
def comparisons (depth : Nat) : Expression → List Occurrence
  | identifier _ _ | literal _ _ => []
  | unary .not e _ => comparisons (depth + 1) e
  | unary .plus e _ | unary .minus e _ => comparisons depth e
  | binary left operator right _ =>
    comparisons depth left ++ ⟨depth, left, operator, right⟩ :: comparisons depth right
  | logical left _ right _ => comparisons depth left ++ comparisons depth right
  | array es _ | sequence es _ => comparisonsAll depth es
  | call callee es _ => comparisons depth callee ++ comparisonsAll depth es

/-- The comparisons of several trees, from left to right. -/
def comparisonsAll (depth : Nat) : List Expression → List Occurrence
  | [] => []
  | e :: es => comparisons depth e ++ comparisonsAll depth es

end

variable {depth : Nat} {e : Expression}

/-! ## What is listed -/

theorem comparisonsAll_eq_flatMap (depth : Nat) (es : List Expression) :
    comparisonsAll depth es = es.flatMap (comparisons depth) := by
  induction es with
  | nil => rfl
  | cons e es ih =>
    rw [List.flatMap_cons, ← ih]
    rfl

theorem comparisons_not (e : Expression) (s : Span) :
    (unary .not e s).comparisons depth = e.comparisons (depth + 1) := rfl

theorem comparisons_binary (left : Expression) (operator : Comparison) (right : Expression)
    (s : Span) : (binary left operator right s).comparisons depth =
      left.comparisons depth ++ ⟨depth, left, operator, right⟩ :: right.comparisons depth := rfl

theorem comparisons_logical (left : Expression) (c : Connective) (right : Expression) (s : Span) :
    (logical left c right s).comparisons depth =
      left.comparisons depth ++ right.comparisons depth := rfl

theorem comparisons_array (es : List Expression) (s : Span) :
    (array es s).comparisons depth = es.flatMap (comparisons depth) :=
  comparisonsAll_eq_flatMap depth es

theorem comparisons_call (callee : Expression) (es : List Expression) (s : Span) :
    (call callee es s).comparisons depth =
      callee.comparisons depth ++ es.flatMap (comparisons depth) :=
  congrArg (callee.comparisons depth ++ ·) (comparisonsAll_eq_flatMap depth es)

/-- The node is in the tree, and that many negations enclose it there. -/
inductive IsEnclosed : (node : Expression) → (negations : Nat) → (e : Expression) → Prop
  | root (e : Expression) : IsEnclosed e 0 e
  | negated {node e : Expression} {n : Nat} (s : Span) : IsEnclosed node n e →
      IsEnclosed node (n + 1) (unary .not e s)
  | under {node child e : Expression} {n : Nat} : (∀ a s, e ≠ unary .not a s) →
      child ∈ e.children → IsEnclosed node n child → IsEnclosed node n e

theorem comparisons_eq_flatMap (hnot : ∀ a s, e ≠ unary .not a s)
    (hbinary : ∀ left operator right s, e ≠ binary left operator right s) :
    e.comparisons depth = e.children.flatMap (comparisons depth) := by
  cases e with
  | identifier | literal => rfl
  | unary mark e s =>
    cases mark with
    | not => exact absurd rfl (hnot e s)
    | plus | minus => exact (List.flatMap_singleton ..).symm
  | binary left operator right s => exact absurd rfl (hbinary left operator right s)
  | logical left c right s =>
    rw [comparisons_logical, children, List.flatMap_cons, List.flatMap_singleton]
  | array es s | sequence es s => exact comparisonsAll_eq_flatMap depth es
  | call callee es s => rw [comparisons_call, children, List.flatMap_cons]

/-- A tree that is no negation has its own comparison, if it is one, and those of the trees right
under it. -/
theorem mem_comparisons_of_ne_not {c : Occurrence} (hnot : ∀ a s, e ≠ unary .not a s) :
    c ∈ e.comparisons depth ↔
      (∃ s, e = binary c.left c.operator c.right s ∧ c.negations = depth) ∨
        ∃ child ∈ e.children, c ∈ child.comparisons depth := by
  by_cases hbinary : ∃ left operator right s, e = binary left operator right s
  · obtain ⟨left, operator, right, s, rfl⟩ := hbinary
    obtain ⟨n, l, o, r⟩ := c
    simp only [comparisons_binary, children, List.mem_append, List.mem_cons, List.not_mem_nil,
      or_false, exists_eq_or_imp, exists_eq_left, Occurrence.mk.injEq, binary.injEq]
    constructor
    · rintro (h | ⟨rfl, rfl, rfl, rfl⟩ | h)
      · exact .inr (.inl h)
      · exact .inl ⟨s, ⟨rfl, rfl, rfl, rfl⟩, rfl⟩
      · exact .inr (.inr h)
    · rintro (⟨t, ⟨rfl, rfl, rfl, -⟩, rfl⟩ | h | h)
      · exact .inr (.inl ⟨rfl, rfl, rfl, rfl⟩)
      · exact .inl h
      · exact .inr (.inr h)
  · have hne : ∀ left operator right s, e ≠ binary left operator right s :=
      fun left operator right s h => hbinary ⟨left, operator, right, s, h⟩
    rw [comparisons_eq_flatMap hnot hne, List.mem_flatMap]
    refine (or_iff_right ?_).symm
    rintro ⟨s, h, -⟩
    exact hne _ _ _ s h

/-- The comparisons that are listed are the comparison nodes of the tree, with the number of
negations that enclose each of them. -/
theorem mem_comparisons_iff {c : Occurrence} : c ∈ e.comparisons depth ↔
    ∃ n s, IsEnclosed (binary c.left c.operator c.right s) n e ∧ c.negations = depth + n := by
  induction e using Expression.induction generalizing depth with
  | step e ih =>
    by_cases hnot : ∃ a s, e = unary .not a s
    · obtain ⟨a, s, rfl⟩ := hnot
      rw [comparisons_not, ih a List.mem_cons_self]
      constructor
      · rintro ⟨n, t, hnode, hn⟩
        exact ⟨n + 1, t, .negated s hnode, by omega⟩
      · rintro ⟨n, t, hnode, hn⟩
        cases hnode with
        | @negated _ n _ hnode => exact ⟨n, t, hnode, by omega⟩
        | under hne => exact absurd rfl (hne a s)
    · have hne : ∀ a s, e ≠ unary .not a s := fun a s h => hnot ⟨a, s, h⟩
      rw [mem_comparisons_of_ne_not hne]
      constructor
      · rintro (⟨s, rfl, hn⟩ | ⟨child, hchild, hc⟩)
        · exact ⟨0, s, .root _, hn⟩
        · obtain ⟨n, s, hnode, hn⟩ := (ih child hchild).1 hc
          exact ⟨n, s, .under hne hchild hnode, hn⟩
      · rintro ⟨n, s, hnode, hn⟩
        cases hnode with
        | root => exact .inl ⟨s, rfl, hn⟩
        | negated => exact absurd rfl (hne _ _)
        | @under child _ _ _ hchild hnode =>
          exact .inr ⟨child, hchild, (ih child hchild).2 ⟨n, s, hnode, hn⟩⟩

theorem IsEnclosed.isNode {node : Expression} {n : Nat} (h : IsEnclosed node n e) :
    IsNode node e := by
  induction h with
  | root => exact .root _
  | negated s _ ih => exact .under List.mem_cons_self ih
  | under _ hchild _ ih => exact .under hchild ih

variable {text : List Char} {c : Occurrence}

theorem isNode_right_of_mem_comparisons (hc : c ∈ e.comparisons depth) : IsNode c.right e := by
  obtain ⟨n, s, hnode, -⟩ := mem_comparisons_iff.1 hc
  exact (IsNode.child (by simp [children])).trans hnode.isNode

/-- What stands on the right of a comparison starts behind the start of the tree. -/
theorem offset_lt_of_mem_comparisons (h : AllPlaced text e) (hc : c ∈ e.comparisons depth) :
    e.offset < c.right.offset := by
  obtain ⟨n, s, hnode, -⟩ := mem_comparisons_iff.1 hc
  have hb : AllPlaced text (binary c.left c.operator c.right s) :=
    fun node hn => h node (hn.trans hnode.isNode)
  obtain ⟨hleft, hright, hapart⟩ := hb.sides rfl
  have hstart := (h.within hnode.isNode).1
  have hinside := (hb.within (.child List.mem_cons_self)).1
  have hlt := hleft.offset_lt hright hapart (.root _) (.root _)
  omega

/-- In a text the comparisons are listed in the order in which they are written. -/
theorem comparisons_ordered (h : AllPlaced text e) :
    (e.comparisons depth).Pairwise fun c c' => c.right.offset < c'.right.offset := by
  induction e using Expression.induction generalizing depth with
  | step e ih =>
    have hchildren : ∀ child ∈ e.children, (child.comparisons depth).Pairwise
        fun c c' => c.right.offset < c'.right.offset :=
      fun child hchild => ih child hchild (h.child hchild)
    by_cases hnot : ∃ a s, e = unary .not a s
    · obtain ⟨a, s, rfl⟩ := hnot
      rw [comparisons_not]
      exact ih a List.mem_cons_self (h.child List.mem_cons_self)
    by_cases hbinary : ∃ left operator right s, e = binary left operator right s
    · obtain ⟨left, operator, right, s, rfl⟩ := hbinary
      obtain ⟨hleft, hright, hapart⟩ := h.sides rfl
      -- the comparison itself is listed between those of its two sides
      rw [comparisons_binary, List.pairwise_append, List.pairwise_cons]
      refine ⟨hchildren left (by simp [children]), ⟨fun c hc => ?_,
        hchildren right (by simp [children])⟩, fun c hc c' hc' => ?_⟩
      · exact offset_lt_of_mem_comparisons hright hc
      · have hlt : c.right.offset < right.offset := hleft.offset_lt hright hapart
          (isNode_right_of_mem_comparisons hc) (.root right)
        obtain rfl | hc' := List.mem_cons.1 hc'
        · exact hlt
        · exact Nat.lt_trans hlt (offset_lt_of_mem_comparisons hright hc')
    · rw [comparisons_eq_flatMap (fun a s he => hnot ⟨a, s, he⟩)
        fun left operator right s he => hbinary ⟨left, operator, right, s, he⟩,
        List.pairwise_flatMap]
      refine ⟨hchildren, (h e (.root e)).apart.imp_of_mem fun ha hb hab c hc c' hc' => ?_⟩
      exact (h.child ha).offset_lt (h.child hb) hab (isNode_right_of_mem_comparisons hc)
        (isNode_right_of_mem_comparisons hc')

/-- The list has the comparison nodes of the trees, each with the number of negations that enclose
it, and where the trees are the arguments of a call in a query they are in the order of the text. -/
structure ListsComparisons (es : List Expression) (cs : List Occurrence) : Prop where
  mem_iff : ∀ c, c ∈ cs ↔
    ∃ e ∈ es, ∃ s, IsEnclosed (binary c.left c.operator c.right s) c.negations e
  ordered : ∀ {query tree callee s}, parse query = .ok tree → IsNode (call callee es s) tree →
    cs.Pairwise fun c c' => c.right.offset < c'.right.offset

theorem listsComparisons (es : List Expression) :
    ListsComparisons es (es.flatMap (comparisons 0)) := by
  constructor
  · intro c
    simp only [List.mem_flatMap, mem_comparisons_iff, Nat.zero_add, ← exists_and_left]
    constructor
    · rintro ⟨e, n, s, he, hnode, rfl⟩
      exact ⟨e, s, he, hnode⟩
    · rintro ⟨e, s, he, hnode⟩
      exact ⟨e, _, s, he, hnode, rfl⟩
  · intro query tree callee s h hcall
    have hordered := @comparisons_ordered 0 _ _ (.of_parse h hcall)
    rw [comparisons_call] at hordered
    exact (List.pairwise_append.1 hordered).2.1

/-! ## The leaf of a comparison -/

theorem NamesField.comparisons_eq_nil {name : String} (h : e.NamesField name) :
    e.comparisons depth = [] := by
  cases h <;> rfl

theorem WritesValue.comparisons_eq_nil {v : Value} (h : e.WritesValue v) :
    e.comparisons depth = [] := by
  cases h <;> rfl

theorem WritesOperand.comparisons_eq_nil {v : Operand} (h : e.WritesOperand v) :
    e.comparisons depth = [] := by
  cases h with
  | scalar hv => exact hv.comparisons_eq_nil
  | list s hvs =>
    rw [comparisons_array]
    induction hvs with
    | nil => rfl
    | cons hv _ ih => rw [List.flatMap_cons, hv.comparisons_eq_nil, ih, List.append_nil]

/-- A comparison that compiles is the only one in its tree. -/
theorem comparison_becomes {left right : Expression} {operator : Comparison} {l : Leaf} {s : Span}
    (h : comparison left (if Even depth then operator else operator.opposite) right = .ok l) :
    ∃ c : Occurrence, (binary left operator right s).comparisons depth = [c] ∧ c.Becomes l := by
  unfold comparison at h
  split at h
  · cases h
  · next field hfield =>
    obtain ⟨v, hv, rfl⟩ := except_map_eq_ok.1 h
    have hleft := fieldName?_eq_some.1 hfield
    have hright := writes_of_operand hv
    refine ⟨⟨depth, left, operator, right⟩, ?_, hleft, rfl, hright⟩
    rw [comparisons_binary, hleft.comparisons_eq_nil, hright.comparisons_eq_nil, List.nil_append]

/-- A condition that compiles gives a leaf for each comparison. That the condition is inverted
has to mean that the number of negations around it is odd. -/
theorem condition_comparisons {inverted : Bool} {f : Filter} (h : e.condition inverted = .ok f)
    (hdepth : inverted = false ↔ Even depth) :
    List.Forall₂ Occurrence.Becomes (e.comparisons depth) f.leaves := by
  rw [condition_eq_ok] at h
  induction h generalizing depth with
  | @negated inverted e f s _ ih =>
    have hnext : (!inverted) = false ↔ Even (depth + 1) := by
      rw [Nat.even_add_one, ← hdepth]
      cases inverted <;> decide
    rw [comparisons_not]
    exact ih hnext
  | @compared inverted left operator right l s hl =>
    have hoperator : (if inverted then operator.inverse else operator) =
        if Even depth then operator else operator.opposite := by
      simp only [← hdepth, Comparison.inverse_eq_opposite]
      cases inverted <;> rfl
    rw [hoperator] at hl
    obtain ⟨c, hc, hbecomes⟩ := comparison_becomes (s := s) hl
    rw [hc, Filter.leaves]
    exact .cons hbecomes .nil
  | joined c s _ _ ihf ihg =>
    simp only [comparisons_logical, Filter.leaves, Filter.leavesAll, List.append_nil]
    exact List.rel_append (ihf hdepth) (ihg hdepth)

end Expression

theorem Arguments.conditions_comparisons {arguments : Arguments} {fs : List Filter}
    (h : arguments.conditions = .ok fs) : List.Forall₂ Occurrence.Becomes
      (arguments.flatMap (Expression.comparisons 0)) (Filter.leavesAll fs) := by
  induction arguments generalizing fs with
  | nil =>
    cases h
    rw [List.flatMap_nil, Filter.leavesAll]
    exact .nil
  | cons e es ih =>
    rw [conditions_cons] at h
    obtain ⟨f, hf, h⟩ := except_bind_eq_ok.1 h
    obtain ⟨gs, hgs, h⟩ := except_bind_eq_ok.1 h
    cases h
    rw [List.flatMap_cons, Filter.leavesAll]
    apply List.rel_append _ (ih hgs)
    apply Expression.condition_comparisons hf
    simp

/-- The leaves of the filter of `where`, in normal form, are those of its arguments. -/
theorem Arguments.filter_comparisons {arguments : Arguments} {f : Filter}
    (h : arguments.filter = .ok f) :
    List.Forall₂ Occurrence.Becomes (arguments.flatMap (Expression.comparisons 0)) f.leaves := by
  obtain ⟨-, fs, hfs, rfl⟩ := filter_eq_ok h
  rw [Filter.leaves_normalize, Filter.leaves_conjunction]
  exact conditions_comparisons hfs

namespace Invocation

/-- Conditions with negations in one another, and the same ones again. -/
def repeatedConditions (s : Span) : Arguments :=
  Arguments.negatedConditions s ++ Arguments.negatedConditions s

end Invocation

end DirectiveQuery
