import Mathlib.Data.List.Forall2
import DirectiveQuery.Proofs.Compile.Shape
import DirectiveQuery.Proofs.Filter.Duality

/-
  Chains of conditions in other groups. However the operands of `a && b && c` are grouped, the
  normal form of its filter has what the operands are spliced into side by side
  (`filter_tree_join`), and the operands are compiled from left to right, so that the first
  error is the same. For `&&` this is also what the operands give as arguments of their own
  (`filter_tree_and`). What is around a chain sees only the normal form of its filter: every
  layer of a condition keeps it (`Alike`). A layer that is no part of a condition sees no more
  of a chain than where it starts (`Interchangeable`). Negations need no argument of their own,
  since the normal form of the dual is the dual of the normal form (`normalize_dual`).
-/
namespace DirectiveQuery

/-! ## Groupings -/

/-- A way to group a chain of expressions. -/
inductive Grouping where
  | operand (e : Expression)
  | join (left right : Grouping) (span : Span)

namespace Grouping

/-- The operands of the chain, from left to right. -/
def operands : Grouping → List Expression
  | operand e => [e]
  | join left right _ => left.operands ++ right.operands

/-- The tree of the chain when its operands are joined by a connective. -/
def tree (c : Connective) : Grouping → Expression
  | operand e => e
  | join left right s => .logical (left.tree c) c (right.tree c) s

theorem one_le_length_operands (g : Grouping) : 1 ≤ g.operands.length := by
  induction g with
  | operand e => exact Nat.le_refl 1
  | join left right s ihl ihr =>
    rw [operands, List.length_append]
    omega

theorem two_le_length_operands_join (left right : Grouping) (s : Span) :
    2 ≤ (join left right s).operands.length := by
  have hleft := left.one_le_length_operands
  have hright := right.one_le_length_operands
  rw [operands, List.length_append]
  omega

/-- A chain of one operand has one grouping. -/
theorem eq_or_joins {g h : Grouping} (heq : g.operands = h.operands) :
    g = h ∨ ∃ l r s l' r' s', g = join l r s ∧ h = join l' r' s' := by
  cases g with
  | operand e =>
    cases h with
    | operand e' =>
      cases heq
      exact .inl rfl
    | join l' r' s' =>
      have hlength := two_le_length_operands_join l' r' s'
      rw [← heq, operands] at hlength
      simp at hlength
  | join l r s =>
    cases h with
    | operand e' =>
      have hlength := two_le_length_operands_join l r s
      rw [heq, operands] at hlength
      simp at hlength
    | join l' r' s' => exact .inr ⟨l, r, s, l', r', s', rfl, rfl⟩

/-- Put under the connective of the chain, the chain is spliced into what its operands are. -/
def Splices (c : Connective) (g : Grouping) : Prop :=
  ((g.tree c).condition false).map (fun f => Filter.splice c f.normalize) =
    (Arguments.conditions g.operands).map (Filter.normalizeUnder c)

end Grouping

theorem Filter.conjunction_eq_combined {fs : List Filter} (h : 2 ≤ fs.length) :
    conjunction fs = combined .and fs := by
  match fs, h with
  | _ :: _ :: _, _ => rfl

/-- The normal form of a conjunction is found from the normal forms of its parts. -/
theorem Filter.normalize_conjunction_congr {fs gs : List Filter}
    (h : fs.map normalize = gs.map normalize) :
    (conjunction fs).normalize = (conjunction gs).normalize := by
  have hlength : fs.length = gs.length := by simpa using congrArg List.length h
  by_cases htwo : 2 ≤ fs.length
  · rw [conjunction_eq_combined htwo, conjunction_eq_combined (hlength ▸ htwo), normalize,
      normalize, normalizeUnder_eq_flatMap, normalizeUnder_eq_flatMap, h]
  · obtain _ | ⟨f, _ | ⟨f', fs⟩⟩ := fs
    · rw [List.length_eq_zero_iff.1 hlength.symm]
    · obtain ⟨g, rfl⟩ := List.length_eq_one_iff.1 hlength.symm
      exact (List.cons.inj h).1
    · exact absurd (by simp) htwo

namespace Arguments

theorem conditions_append (as bs : Arguments) :
    conditions (as ++ bs) = (do
      let fs ← conditions as
      let gs ← conditions bs
      return fs ++ gs) := by
  induction as with
  | nil =>
    rw [List.nil_append, conditions_nil, except_bind_ok]
    cases conditions bs <;> rfl
  | cons a as ih =>
    simp only [List.cons_append, conditions_cons, ih]
    cases a.condition false with
    | error err => rfl
    | ok f =>
      cases conditions as with
      | error err => rfl
      | ok fs => cases conditions bs <;> rfl

theorem filter_tree_join_of_splices {c : Connective} {left right : Grouping}
    (hl : left.Splices c) (hr : right.Splices c) (s : Span) :
    filter [(Grouping.join left right s).tree c] =
      (conditions (Grouping.join left right s).operands).map fun fs =>
        .combined c (Filter.normalizeUnder c fs) := by
  rw [filter_singleton, Grouping.tree, Expression.condition_logical, Grouping.operands,
    conditions_append]
  refine except_bind_congr_of hl fun f fs hf => except_bind_congr_of hr fun g gs hg => ?_
  have h : (Filter.combined c [f, g]).normalize =
      .combined c (Filter.normalizeUnder c (fs ++ gs)) := by
    rw [Filter.normalize_pair, Filter.normalizeUnder_append, hf, hg]
  exact congrArg Except.ok h

theorem splices (c : Connective) (g : Grouping) : g.Splices c := by
  induction g with
  | operand e =>
    simp only [Grouping.Splices, Grouping.tree, Grouping.operands, conditions_cons, conditions_nil]
    cases e.condition false with
    | error err => rfl
    | ok f => exact congrArg Except.ok (List.append_nil _).symm
  | join left right s ihl ihr =>
    -- spliced, a combination by the connective leaves its operands
    have h := congrArg (Except.map (Filter.splice c)) (filter_tree_join_of_splices ihl ihr s)
    rw [filter_singleton, except_map_map, except_map_map] at h
    simp only [Filter.splice_combined] at h
    exact h

theorem filter_tree_join (c : Connective) (left right : Grouping) (s : Span) :
    filter [(Grouping.join left right s).tree c] =
      (conditions (Grouping.join left right s).operands).map fun fs =>
        .combined c (Filter.normalizeUnder c fs) :=
  filter_tree_join_of_splices (splices c left) (splices c right) s

/-- A chain of `&&` is what its operands are as arguments of their own. -/
theorem filter_tree_and (g : Grouping) : filter [g.tree .and] = filter g.operands := by
  cases g with
  | operand e => rfl
  | join left right s =>
    have hlength := Grouping.two_le_length_operands_join left right s
    have hne : (Grouping.join left right s).operands ≠ [] :=
      List.ne_nil_of_length_pos (Nat.zero_lt_of_lt hlength)
    rw [filter_tree_join, filter_of_ne_nil hne]
    refine except_map_congr fun fs hfs => ?_
    rw [Filter.conjunction_eq_combined (by rw [(conditions_eq_ok hfs).1]; exact hlength),
      Filter.normalize]

/-- Two groupings of the same chain give the same filter, or the same error. -/
theorem filter_tree_congr {g h : Grouping} (heq : g.operands = h.operands) (c : Connective) :
    filter [g.tree c] = filter [h.tree c] := by
  obtain rfl | ⟨l, r, s, l', r', s', rfl, rfl⟩ := Grouping.eq_or_joins heq
  · rfl
  · rw [filter_tree_join, filter_tree_join, heq]

end Arguments

/-! ## What is around a chain -/

/-- One layer of an expression, around one of its parts. -/
inductive Layer where
  | unary (mark : Mark) (span : Span)
  | binaryLeft (operator : Comparison) (right : Expression) (span : Span)
  | binaryRight (left : Expression) (operator : Comparison) (span : Span)
  | logicalLeft (connective : Connective) (right : Expression) (span : Span)
  | logicalRight (left : Expression) (connective : Connective) (span : Span)
  | array (before after : List Expression) (span : Span)
  | callee (arguments : List Expression) (span : Span)
  | argument (function : Expression) (before after : List Expression) (span : Span)
  | sequence (before after : List Expression) (span : Span)

namespace Layer

/-- The layer with the part that it is around. -/
def around (e : Expression) : Layer → Expression
  | unary mark s => .unary mark e s
  | binaryLeft operator right s => .binary e operator right s
  | binaryRight left operator s => .binary left operator e s
  | logicalLeft connective right s => .logical e connective right s
  | logicalRight left connective s => .logical left connective e s
  | array before after s => .array (before ++ e :: after) s
  | callee arguments s => .call e arguments s
  | argument function before after s => .call function (before ++ e :: after) s
  | sequence before after s => .sequence (before ++ e :: after) s

/-- A condition around a condition: a negation, or a connective with its other side. -/
def isOfCondition : Layer → Bool
  | unary .not _ | logicalLeft .. | logicalRight .. => true
  | _ => false

end Layer

namespace Expression

/-- The expression inside several layers, the innermost one first. -/
def within (e : Expression) (layers : List Layer) : Expression := layers.foldl Layer.around e

/-- As conditions, both give filters of one normal form, or the same error. -/
def Alike (e e' : Expression) : Prop :=
  ∀ inverted, (e.condition inverted).map Filter.normalize =
    (e'.condition inverted).map Filter.normalize

/-- The outcome under an even number of negations decides the one under an odd number. -/
theorem alike_of_filter {e e' : Expression}
    (h : Arguments.filter [e] = Arguments.filter [e']) : Alike e e' := by
  rw [Arguments.filter_singleton, Arguments.filter_singleton] at h
  have hnot : ∀ x : Expression, (x.condition true).map Filter.normalize =
      ((x.condition false).map Filter.normalize).map Filter.dual := by
    intro x
    rw [show true = !false from rfl, condition_not, except_map_map, except_map_map]
    simp only [Filter.normalize_dual]
  intro inverted
  cases inverted with
  | false => exact h
  | true => rw [hnot, hnot, h]

theorem Alike.logical {l l' r r' : Expression} (hl : Alike l l') (hr : Alike r r')
    (c : Connective) (s : Span) : Alike (logical l c r s) (logical l' c r' s) := by
  intro inverted
  rw [condition_logical, condition_logical]
  refine except_bind_congr_of (hl inverted) fun f f' hf =>
    except_bind_congr_of (hr inverted) fun g g' hg => ?_
  refine congrArg Except.ok ?_
  rw [Filter.normalize_pair, Filter.normalize_pair, hf, hg]

theorem Alike.around {e e' : Expression} (h : Alike e e') {layer : Layer}
    (hl : layer.isOfCondition = true) : Alike (layer.around e) (layer.around e') := by
  cases layer with
  | unary mark s =>
    cases mark with
    | not => exact fun inverted => h (!inverted)
    | plus | minus => cases hl
  | logicalLeft connective right s => exact h.logical (fun _ => rfl) connective s
  | logicalRight left connective s => exact Alike.logical (fun _ => rfl) h connective s
  | binaryLeft | binaryRight | array | callee | argument | sequence => cases hl

/-- Nothing that is compiled around them tells the two expressions apart. -/
structure Interchangeable (e e' : Expression) : Prop where
  alike : Alike e e'
  offset : e.offset = e'.offset
  fieldName? : e.fieldName? = e'.fieldName?
  value? : Value.ofExpression? e = Value.ofExpression? e'
  signed? : ∀ mark s, Value.ofExpression? (unary mark e s) = Value.ofExpression? (unary mark e' s)
  operand : ∀ operator, e.operand operator = e'.operand operator

theorem readEach_append_congr {α : Type} {read : Expression → Option α}
    {blame : Nat → Nat → CompileError} {e e' : Expression} (hread : read e = read e')
    (ho : e.offset = e'.offset) (index : Nat) (before after : List Expression) :
    readEach read blame index (before ++ e :: after) =
      readEach read blame index (before ++ e' :: after) := by
  induction before generalizing index with
  | nil => simp only [List.nil_append, readEach, hread, ho]
  | cons b before ih => simp only [List.cons_append, readEach, ih]

/-- A layer leaves of what is in it the outcome as a condition, where it starts, and whether it
names a field or a value. -/
theorem Interchangeable.around {e e' : Expression} (h : Interchangeable e e') (layer : Layer) :
    Interchangeable (layer.around e) (layer.around e') where
  alike := by
    cases layer with
    | unary mark s =>
      cases mark with
      | not => exact h.alike.around rfl
      | plus | minus => exact fun _ => rfl
    | logicalLeft | logicalRight => exact h.alike.around rfl
    | binaryLeft operator right s =>
      intro inverted
      simp only [Layer.around, condition_binary, comparison, h.fieldName?, h.offset]
    | binaryRight left operator s =>
      intro inverted
      simp only [Layer.around, condition_binary, comparison, h.operand]
    | array | callee | argument | sequence => exact fun _ => rfl
  offset := by cases layer <;> rfl
  fieldName? := by cases layer <;> rfl
  value? := by
    cases layer with
    | unary mark s => exact h.signed? mark s
    | _ => rfl
  signed? mark s := by cases layer <;> cases mark <;> rfl
  operand operator := by
    cases layer with
    | unary mark s =>
      rw [Layer.around, Layer.around, operand_of_scalar (by rintro _ _ ⟨⟩),
        operand_of_scalar (by rintro _ _ ⟨⟩), h.signed? mark s]
      rfl
    | array before after s =>
      simp only [Layer.around, Expression.operand, readEach_append_congr h.value? h.offset]
    | _ => rfl

theorem Alike.within {e e' : Expression} (h : Alike e e') {layers : List Layer}
    (hl : layers.all Layer.isOfCondition = true) : Alike (e.within layers) (e'.within layers) := by
  induction layers generalizing e e' with
  | nil => exact h
  | cons layer layers ih =>
    rw [List.all_cons, Bool.and_eq_true] at hl
    exact ih (h.around hl.1) hl.2

theorem Interchangeable.within {e e' : Expression} (h : Interchangeable e e')
    (layers : List Layer) : Interchangeable (e.within layers) (e'.within layers) := by
  induction layers generalizing e e' with
  | nil => exact h
  | cons layer layers ih => exact ih (h.around layer)

theorem alike_tree {g h : Grouping} (heq : g.operands = h.operands) (c : Connective) :
    Alike (g.tree c) (h.tree c) :=
  alike_of_filter (Arguments.filter_tree_congr heq c)

theorem interchangeable_tree {g h : Grouping} (heq : g.operands = h.operands) {c : Connective}
    (ho : (g.tree c).offset = (h.tree c).offset) : Interchangeable (g.tree c) (h.tree c) := by
  have halike := alike_tree heq c
  obtain rfl | ⟨l, r, s, l', r', s', rfl, rfl⟩ := Grouping.eq_or_joins heq
  · exact ⟨halike, rfl, rfl, rfl, fun _ _ => rfl, fun _ => rfl⟩
  · refine ⟨halike, ho, rfl, rfl, fun mark _ => by cases mark <;> rfl, fun operator => ?_⟩
    rw [operand_of_scalar (by rintro _ _ ⟨⟩), operand_of_scalar (by rintro _ _ ⟨⟩), ho]
    rfl

end Expression

namespace Arguments

theorem conditions_of_alike {es es' : Arguments} (h : List.Forall₂ Expression.Alike es es') :
    (conditions es).map (List.map Filter.normalize) =
      (conditions es').map (List.map Filter.normalize) := by
  induction h with
  | nil => rfl
  | cons he _ ih =>
    rw [conditions_cons, conditions_cons]
    refine except_bind_congr_of (he false) fun f f' hf =>
      except_bind_congr_of ih fun fs fs' hfs => congrArg Except.ok ?_
    rw [List.map_cons, List.map_cons, hf, hfs]

theorem filter_of_alike {es es' : Arguments} (h : List.Forall₂ Expression.Alike es es') :
    filter es = filter es' := by
  cases h with
  | nil => rfl
  | cons he hes =>
    rw [filter_of_ne_nil (List.cons_ne_nil _ _), filter_of_ne_nil (List.cons_ne_nil _ _)]
    exact except_map_congr_of (conditions_of_alike (.cons he hes)) fun fs fs' =>
      Filter.normalize_conjunction_congr

/-- Replaces one argument by another that compiles alike. -/
theorem filter_append_cons_congr {e e' : Expression} (h : e.Alike e') (before after : Arguments) :
    filter (before ++ e :: after) = filter (before ++ e' :: after) := by
  have hrefl : ∀ es : Arguments, List.Forall₂ Expression.Alike es es :=
    fun es => List.forall₂_same.2 fun _ _ _ => rfl
  exact filter_of_alike (List.rel_append (hrefl before) (.cons h (hrefl after)))

end Arguments

namespace Invocation

/-- A chain of `&&` as the argument of `where` gives the descriptor, or the error, that its
operands give as arguments of their own, however it is grouped. Anywhere inside an argument of
`where`, a chain of one connective may be grouped in another way without any difference, under
negations and connectives whatever the spans are, and in every other place if it starts where
it started. -/
theorem descriptor_regrouped (mode : IntegerMode) (offset : Nat) :
    (∀ g : Grouping, descriptor mode ⟨.filter, [g.tree .and], offset⟩ =
      descriptor mode ⟨.filter, g.operands, offset⟩) ∧
    ∀ (c : Connective) (g h : Grouping), g.operands = h.operands →
      ∀ layers : List Layer, layers.all Layer.isOfCondition = true ∨
          (g.tree c).offset = (h.tree c).offset →
        ∀ before after : Arguments,
          descriptor mode ⟨.filter, before ++ (g.tree c).within layers :: after, offset⟩ =
            descriptor mode ⟨.filter, before ++ (h.tree c).within layers :: after, offset⟩ := by
  constructor
  · intro g
    rw [descriptor_filter, descriptor_filter, Arguments.filter_tree_and]
  · intro c g h heq layers hlayers before after
    have halike : ((g.tree c).within layers).Alike ((h.tree c).within layers) := by
      rcases hlayers with hlayers | ho
      · exact (Expression.alike_tree heq c).within hlayers
      · exact ((Expression.interchangeable_tree heq ho).within layers).alike
    rw [descriptor_filter, descriptor_filter, Arguments.filter_append_cons_congr halike]

/-- The chain `a == null`, `b in [true]`, `c != "t"`, grouped from the left or from the right. -/
def threeConditions (fromLeft : Bool) : Grouping :=
  let s : Span := ⟨0, 0, 1, 1⟩
  let a := Grouping.operand (.binary (.identifier "a" s) .equal (.literal .null s) s)
  let b := Grouping.operand
    (.binary (.identifier "b" s) .member (.array [.literal (.boolean true) s] s) s)
  let c := Grouping.operand (.binary (.identifier "c" s) .notEqual (.literal (.string "t") s) s)
  if fromLeft then .join (.join a b s) c s else .join a (.join b c s) s

/-- The layers of `d == null || !…`. -/
def negatedRight : List Layer :=
  let s : Span := ⟨0, 0, 1, 1⟩
  [.unary .not s,
    .logicalRight (.binary (.identifier "d" s) .equal (.literal .null s) s) .or s]

theorem descriptor_regrouped_threeConditions :
    (threeConditions true).operands = (threeConditions false).operands ∧
      negatedRight.all Layer.isOfCondition = true ∧
      descriptor .strict ⟨.filter, [((threeConditions true).tree .and).within negatedRight], 0⟩ =
        descriptor .strict
          ⟨.filter, [((threeConditions false).tree .and).within negatedRight], 0⟩ :=
  ⟨rfl, rfl,
    (descriptor_regrouped .strict 0).2 .and _ _ rfl negatedRight (.inl rfl) [] []⟩

end Invocation

end DirectiveQuery
