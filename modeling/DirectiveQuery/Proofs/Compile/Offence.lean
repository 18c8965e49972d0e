import DirectiveQuery.Proofs.Compile.Kinds
import DirectiveQuery.Proofs.Compile.Leaves
import DirectiveQuery.Proofs.Filter.Duality

/-
  What `where` refuses, and which node it blames. A node offends in a condition if it is not what
  has to stand in its place (`Offends`); below a condition the search goes through negations,
  connectives and comparisons only. A step of compiling blames the first offender (`BlamesFirst`)
  if it has a result when nothing offends, and otherwise fails with the error of an offender that
  starts before all others. Two steps in a row do so if each does and the offenders of the first
  one start before those of the second one (`BlamesFirst.bind`). In a parsed tree that is the
  order in which the sides of an operator, the elements of an array and the arguments of a call
  are read, since nodes that stand side by side do not overlap. Negations are out of the way from
  the start: they dualize the filter and leave the errors alone.
-/
namespace DirectiveQuery

/-- The comparison is with a list of values. -/
def Comparison.AsksForList (c : Comparison) : Prop := c = .member ∨ c = .nonMember

/-- What is wrong with a node. -/
inductive Defect where
  /-- A sign stands where a condition should. -/
  | sign (mark : Mark)
  | noCondition
  | noField
  | unexpectedArray
  | missingArray
  | noValue
  /-- The element of an array with the index is no value. -/
  | noElement (index : Nat)
deriving DecidableEq, Repr

/-- The error that belongs to a defect of a node that starts at the position. -/
def Defect.error (offset : Nat) : Defect → CompileError
  | sign mark => .unknownOperator mark.token offset
  | noCondition => .unknownExpression offset
  | noField => .invalidComparisonField offset
  | unexpectedArray => .typeMismatch .scalar offset
  | missingArray => .typeMismatch .array offset
  | noValue => .typeMismatch .value offset
  | noElement index => .invalidArrayElement index offset

namespace Expression

/-- An element of an array writes no value. The elements are numbered from `first` on. -/
def ElementOffends (first : Nat) (es : List Expression) (node : Expression) (defect : Defect) :
    Prop :=
  ∃ i, es[i]? = some node ∧ defect = .noElement (first + i) ∧ ∀ v, ¬ node.WritesValue v

/-- The node offends on the right of the comparison: it is the right-hand side and does not fit,
or an element of an array that does. -/
inductive OperandOffends (operator : Comparison) : Expression → Expression → Defect → Prop
  | unexpectedArray (es : List Expression) (s : Span) : ¬ operator.AsksForList →
      OperandOffends operator (array es s) (array es s) .unexpectedArray
  | missingArray {e : Expression} : operator.AsksForList → (∀ es s, e ≠ array es s) →
      OperandOffends operator e e .missingArray
  | noValue {e : Expression} : ¬ operator.AsksForList → (∀ es s, e ≠ array es s) →
      (∀ v, ¬ e.WritesValue v) → OperandOffends operator e e .noValue
  | element {es : List Expression} {node : Expression} {defect : Defect} (s : Span) :
      operator.AsksForList → ElementOffends 0 es node defect →
      OperandOffends operator (array es s) node defect

/-- The node offends in the condition. -/
inductive Offends : Expression → Expression → Defect → Prop
  | sign {mark : Mark} (e : Expression) (s : Span) : mark ≠ .not →
      Offends (unary mark e s) (unary mark e s) (.sign mark)
  | noCondition {e : Expression} : e.IsPlain → Offends e e .noCondition
  | negated {e node : Expression} {defect : Defect} (s : Span) : Offends e node defect →
      Offends (unary .not e s) node defect
  | left {left node : Expression} {defect : Defect} (c : Connective) (right : Expression)
      (s : Span) : Offends left node defect → Offends (logical left c right s) node defect
  | right {right node : Expression} {defect : Defect} (left : Expression) (c : Connective)
      (s : Span) : Offends right node defect → Offends (logical left c right s) node defect
  | noField {left : Expression} (operator : Comparison) (right : Expression) (s : Span) :
      (∀ name, ¬ left.NamesField name) → Offends (binary left operator right s) left .noField
  | operand {operator : Comparison} {right node : Expression} {defect : Defect}
      (left : Expression) (s : Span) : OperandOffends operator right node defect →
      Offends (binary left operator right s) node defect

theorem ElementOffends.mem {first : Nat} {es : List Expression} {node : Expression}
    {defect : Defect} (h : ElementOffends first es node defect) : node ∈ es := by
  obtain ⟨i, hi, -, -⟩ := h
  exact List.mem_of_getElem? hi

theorem OperandOffends.isNode {operator : Comparison} {e node : Expression} {defect : Defect}
    (h : OperandOffends operator e node defect) : IsNode node e := by
  cases h with
  | unexpectedArray | missingArray | noValue => exact .root _
  | element s _ h => exact .child h.mem

theorem Offends.isNode {e node : Expression} {defect : Defect} (h : Offends e node defect) :
    IsNode node e := by
  induction h with
  | sign | noCondition => exact .root _
  | negated s _ ih => exact ih.trans (.child (by simp [children]))
  | left c right s _ ih => exact ih.trans (.child (by simp [children]))
  | right left c s _ ih => exact ih.trans (.child (by simp [children]))
  | noField operator right s _ => exact .child (by simp [children])
  | operand left s h => exact h.isNode.trans (.child (by simp [children]))

end Expression

/-! ## Blaming the first offender -/

/-- The node has the defect, and every other offender starts behind it. -/
def IsFirstOffender (offends : Expression → Defect → Prop) (node : Expression)
    (defect : Defect) : Prop :=
  offends node defect ∧ ∀ node' defect', offends node' defect' →
    node' = node ∧ defect' = defect ∨ node.offset < node'.offset

/-- There is a result if nothing offends, and otherwise the error of the first offender. -/
def BlamesFirst {α : Type} (offends : Expression → Defect → Prop) :
    Except CompileError α → Prop
  | .ok _ => ∀ node defect, ¬ offends node defect
  | .error err =>
    ∃ node defect, IsFirstOffender offends node defect ∧ err = defect.error node.offset

namespace BlamesFirst

variable {α β : Type} {p q : Expression → Defect → Prop} {x : Except CompileError α}

theorem congr (h : BlamesFirst p x) (hpq : ∀ node defect, p node defect ↔ q node defect) :
    BlamesFirst q x := by
  have heq : p = q := funext fun node => funext fun defect => propext (hpq node defect)
  exact heq ▸ h

theorem map (h : BlamesFirst p x) (f : α → β) : BlamesFirst p (x.map f) := by
  cases x <;> exact h

/-- Where there is one offender only, it is blamed. -/
theorem sole (node : Expression) (defect : Defect)
    (h : ∀ node' defect', p node' defect' ↔ node' = node ∧ defect' = defect) :
    BlamesFirst p (.error (defect.error node.offset) : Except CompileError α) :=
  ⟨node, defect, ⟨(h _ _).2 ⟨rfl, rfl⟩, fun _ _ h' => .inl ((h _ _).1 h')⟩, rfl⟩

/-- One step after another one, which blames nodes further on. -/
theorem bind {f : α → Except CompileError β} (hx : BlamesFirst p x)
    (hf : ∀ a, BlamesFirst q (f a))
    (hpq : ∀ node defect node' defect', p node defect → q node' defect' →
      node.offset < node'.offset) :
    BlamesFirst (fun node defect => p node defect ∨ q node defect) (x >>= f) := by
  cases x with
  | error err =>
    obtain ⟨node, defect, ⟨hp, hfirst⟩, rfl⟩ := hx
    refine ⟨node, defect, ⟨.inl hp, ?_⟩, rfl⟩
    intro node' defect' h
    cases h with
    | inl hp' => exact hfirst node' defect' hp'
    | inr hq => exact .inr (hpq _ _ _ _ hp hq)
  | ok a =>
    apply (hf a).congr
    intro node defect
    exact (or_iff_right (hx node defect)).symm

theorem bind_ok (h : BlamesFirst p x) (f : α → β) :
    BlamesFirst p (x >>= fun a => .ok (f a)) := by
  cases x <;> exact h

theorem exists_ok_iff (h : BlamesFirst p x) :
    (∃ a, x = .ok a) ↔ ∀ node defect, ¬ p node defect := by
  cases x with
  | ok a => exact ⟨fun _ => h, fun _ => ⟨a, rfl⟩⟩
  | error err =>
    obtain ⟨node, defect, ⟨hp, -⟩, -⟩ := h
    constructor
    · rintro ⟨a, ⟨⟩⟩
    · intro hnone
      exact absurd hp (hnone node defect)

/-- The error is that of the offender with the smallest position. -/
theorem eq_error_iff (h : BlamesFirst p x) (err : CompileError) : x = .error err ↔
    ∃ node defect, p node defect ∧ err = defect.error node.offset ∧
      ∀ node' defect', p node' defect' → node.offset ≤ node'.offset := by
  constructor
  · intro hx
    rw [hx] at h
    obtain ⟨node, defect, ⟨hp, hfirst⟩, rfl⟩ := h
    refine ⟨node, defect, hp, rfl, fun node' defect' hp' => ?_⟩
    obtain ⟨rfl, -⟩ | hlt := hfirst node' defect' hp'
    · exact Nat.le_refl _
    · exact Nat.le_of_lt hlt
  · intro ⟨node, defect, hp, herr, hleast⟩
    cases x with
    | ok a => exact absurd hp (h node defect)
    | error err' =>
      obtain ⟨node', defect', ⟨hp', hfirst⟩, rfl⟩ := h
      obtain ⟨rfl, rfl⟩ | hlt := hfirst node defect hp
      · rw [herr]
      · exact absurd (hleast node' defect' hp') (Nat.not_le_of_lt hlt)

end BlamesFirst

/-! ## The steps of compiling a condition -/

namespace Expression

variable {text : List Char}

theorem elements_blame {es : List Expression} (hes : ∀ e ∈ es, AllPlaced text e)
    (hapart : es.Pairwise fun a b => a.span.stop ≤ b.span.start) (first : Nat) :
    BlamesFirst (ElementOffends first es)
      (readEach Value.ofExpression? .invalidArrayElement first es) := by
  induction es generalizing first with
  | nil =>
    rintro node defect ⟨i, hi, -⟩
    cases hi
  | cons e es ih =>
    obtain ⟨hhead, htail⟩ := List.pairwise_cons.1 hapart
    have hrest := ih (fun e' he' => hes e' (List.mem_cons_of_mem _ he')) htail (first + 1)
    rw [readEach]
    cases he : Value.ofExpression? e with
    | none =>
      refine ⟨e, .noElement first, ⟨⟨0, rfl, rfl, Value.ofExpression?_eq_none.1 he⟩, ?_⟩, rfl⟩
      rintro node defect ⟨i, hi, rfl, -⟩
      cases i with
      | zero =>
        cases hi
        exact .inl ⟨rfl, rfl⟩
      | succ i =>
        have hmem : node ∈ es := List.mem_of_getElem? hi
        exact .inr ((hes e List.mem_cons_self).offset_lt (hes node (List.mem_cons_of_mem _ hmem))
          (hhead node hmem) (.root e) (.root node))
    | some v =>
      apply (hrest.map _).congr
      intro node defect
      constructor
      · rintro ⟨i, hi, rfl, hnone⟩
        exact ⟨i + 1, hi, by rw [Nat.add_right_comm, Nat.add_assoc], hnone⟩
      · rintro ⟨i, hi, rfl, hnone⟩
        cases i with
        | zero =>
          cases hi
          exact absurd (Value.ofExpression?_eq_some.1 he) (hnone v)
        | succ i => exact ⟨i, hi, by rw [Nat.add_right_comm, Nat.add_assoc], hnone⟩

theorem array_blames {es : List Expression} {s : Span} (h : AllPlaced text (array es s))
    (operator : Comparison) :
    BlamesFirst (OperandOffends operator (array es s)) ((array es s).operand operator) := by
  rw [operand]
  split
  · next hm =>
    have hasks := Comparison.isMembership_iff.1 hm
    have hapart := (h _ (.root _)).apart
    apply ((elements_blame (fun e he => h.child he) hapart 0).map _).congr
    intro node defect
    constructor
    · exact .element s hasks
    · intro hnode
      cases hnode with
      | unexpectedArray _ _ hnot => exact absurd hasks hnot
      | missingArray _ hne => exact absurd rfl (hne es s)
      | noValue hnot => exact absurd hasks hnot
      | element _ _ helement => exact helement
  · next hm =>
    have hnot : ¬ operator.AsksForList := mt Comparison.isMembership_iff.2 hm
    apply BlamesFirst.sole (array es s) .unexpectedArray
    intro node defect
    constructor
    · intro hnode
      cases hnode with
      | unexpectedArray => exact ⟨rfl, rfl⟩
      | missingArray hasks => exact absurd hasks hnot
      | noValue _ hne => exact absurd rfl (hne es s)
      | element _ hasks => exact absurd hasks hnot
    · rintro ⟨rfl, rfl⟩
      exact .unexpectedArray es s hnot

theorem scalar_blames {e : Expression} (he : ∀ es s, e ≠ array es s) (operator : Comparison) :
    BlamesFirst (OperandOffends operator e) (e.operand operator) := by
  rw [operand_of_scalar he]
  split
  · next hm =>
    have hasks := Comparison.isMembership_iff.1 hm
    apply BlamesFirst.sole e .missingArray
    intro node defect
    constructor
    · intro hnode
      cases hnode with
      | unexpectedArray es s => exact absurd rfl (he es s)
      | missingArray => exact ⟨rfl, rfl⟩
      | noValue hnot => exact absurd hasks hnot
      | element s => exact absurd rfl (he _ s)
    · rintro ⟨rfl, rfl⟩
      exact .missingArray hasks he
  · next hm =>
    have hnot : ¬ operator.AsksForList := mt Comparison.isMembership_iff.2 hm
    split
    · next v hv =>
      intro node defect hnode
      cases hnode with
      | unexpectedArray es s => exact he es s rfl
      | missingArray hasks => exact hnot hasks
      | noValue _ _ hnone => exact hnone v (Value.ofExpression?_eq_some.1 hv)
      | element s => exact he _ s rfl
    · next hv =>
      apply BlamesFirst.sole e .noValue
      intro node defect
      constructor
      · intro hnode
        cases hnode with
        | unexpectedArray es s => exact absurd rfl (he es s)
        | missingArray hasks => exact absurd hasks hnot
        | noValue => exact ⟨rfl, rfl⟩
        | element s => exact absurd rfl (he _ s)
      · rintro ⟨rfl, rfl⟩
        exact .noValue hnot he (Value.ofExpression?_eq_none.1 hv)

theorem operand_blames {e : Expression} (h : AllPlaced text e) (operator : Comparison) :
    BlamesFirst (OperandOffends operator e) (e.operand operator) := by
  cases e with
  | array es s => exact array_blames h operator
  | _ => exact scalar_blames (by rintro es s ⟨⟩) operator

/-- The left-hand side of a comparison is read before the right-hand side, and stands there. -/
theorem comparison_blames {left right : Expression} {operator : Comparison} {s : Span}
    (h : AllPlaced text (binary left operator right s)) :
    BlamesFirst (binary left operator right s).Offends (comparison left operator right) := by
  obtain ⟨hleft, hright, hapart⟩ := h.sides rfl
  unfold comparison
  split
  · next hfield =>
    have hself : (binary left operator right s).Offends left .noField :=
      .noField operator right s (fieldName?_eq_none.1 hfield)
    refine ⟨left, .noField, ⟨hself, ?_⟩, rfl⟩
    intro node defect hnode
    cases hnode with
    | noCondition hplain => exact hplain.elim
    | noField => exact .inl ⟨rfl, rfl⟩
    | operand _ _ hoperand =>
      exact .inr (hleft.offset_lt hright hapart (.root left) hoperand.isNode)
  · next field hfield =>
    apply ((operand_blames hright operator).map _).congr
    intro node defect
    constructor
    · exact .operand left s
    · intro hnode
      cases hnode with
      | noCondition hplain => exact hplain.elim
      | noField _ _ _ hnone => exact absurd (fieldName?_eq_some.1 hfield) (hnone field)
      | operand _ _ hoperand => exact hoperand

theorem sign_blames {mark : Mark} (hmark : mark ≠ .not) (e : Expression) (s : Span) :
    BlamesFirst (unary mark e s).Offends
      (.error (.unknownOperator mark.token s.start) : Except CompileError Filter) := by
  apply BlamesFirst.sole (unary mark e s) (.sign mark)
  intro node defect
  constructor
  · intro hnode
    cases hnode with
    | sign => exact ⟨rfl, rfl⟩
    | noCondition hplain => exact hplain.elim
    | negated => exact absurd rfl hmark
  · rintro ⟨rfl, rfl⟩
    exact .sign e s hmark

theorem plain_blames {e : Expression} (h : e.IsPlain) :
    BlamesFirst e.Offends (.error (.unknownExpression e.offset) : Except CompileError Filter) := by
  apply BlamesFirst.sole e .noCondition
  intro node defect
  constructor
  · intro hnode
    cases hnode with
    | noCondition => exact ⟨rfl, rfl⟩
    | _ => exact h.elim
  · rintro ⟨rfl, rfl⟩
    exact .noCondition h

/-- A condition blames its first offender, by recursion on the condition. -/
theorem condition_blames : ∀ {e : Expression}, AllPlaced text e →
    BlamesFirst e.Offends (e.condition false)
  | unary .not e s, h => by
    rw [condition_unary_not, condition_not]
    apply ((condition_blames (h.child List.mem_cons_self)).map _).congr
    intro node defect
    constructor
    · exact .negated s
    · intro hnode
      cases hnode with
      | sign _ _ hmark => exact absurd rfl hmark
      | noCondition hplain => exact hplain.elim
      | negated _ hnode => exact hnode
  | unary .plus e s, _ => sign_blames (by decide) e s
  | unary .minus e s, _ => sign_blames (by decide) e s
  | binary left operator right s, h => by
    rw [condition_binary, if_neg Bool.false_ne_true]
    exact (comparison_blames h).map _
  | logical left c right s, h => by
    obtain ⟨hleft, hright, hapart⟩ := h.sides rfl
    rw [condition_logical]
    apply ((condition_blames hleft).bind (fun f => (condition_blames hright).bind_ok _) ?_).congr
    · intro node defect
      constructor
      · rintro (hnode | hnode)
        · exact .left c right s hnode
        · exact .right left c s hnode
      · intro hnode
        cases hnode with
        | noCondition hplain => exact hplain.elim
        | left _ _ _ hnode => exact .inl hnode
        | right _ _ _ hnode => exact .inr hnode
    · intro node defect node' defect' hnode hnode'
      exact hleft.offset_lt hright hapart hnode.isNode hnode'.isNode
  | identifier _ _, _ | literal _ _, _ | array _ _, _ | call _ _ _, _ | sequence _ _, _ =>
    plain_blames trivial

end Expression

theorem Expression.conditions?_eq_some {e : Expression} {arguments : Arguments} :
    e.conditions? = some arguments ↔
      ∃ s t, e = .call (.identifier Directive.filter.name s) arguments t := by
  constructor
  · intro h
    unfold conditions? at h
    split at h
    · next s arguments' t =>
      split at h
      · next hname =>
        cases h
        exact ⟨s, t, by rw [hname]⟩
      · cases h
    · cases h
  · rintro ⟨s, t, rfl⟩
    rw [conditions?_call, if_pos rfl]

namespace Arguments

open Expression

/-- The node offends in one of the conditions. -/
def Offends (arguments : Arguments) (node : Expression) (defect : Defect) : Prop :=
  ∃ e ∈ arguments, e.Offends node defect

theorem conditions_blame {text : List Char} {arguments : Arguments}
    (h : ∀ e ∈ arguments, AllPlaced text e)
    (hapart : arguments.Pairwise fun a b => a.span.stop ≤ b.span.start) :
    BlamesFirst arguments.Offends arguments.conditions := by
  induction arguments with
  | nil =>
    rintro node defect ⟨e, he, -⟩
    cases he
  | cons e es ih =>
    obtain ⟨hhead, htail⟩ := List.pairwise_cons.1 hapart
    have hes : ∀ e' ∈ es, AllPlaced text e' := fun e' he' => h e' (List.mem_cons_of_mem _ he')
    have he := h e List.mem_cons_self
    rw [conditions_cons]
    apply ((condition_blames he).bind (fun f => (ih hes htail).bind_ok _) ?_).congr
    · intro node defect
      simp [Offends]
    · intro node defect node' defect' hnode hnode'
      obtain ⟨e', he', hnode'⟩ := hnode'
      exact he.offset_lt (hes e' he') (hhead e' he') hnode.isNode hnode'.isNode

/-- The arguments of any call of `where` in a parsed text give a filter exactly if nothing offends
in them. Otherwise the error is that of the offender with the smallest position. -/
theorem filter_blames_first {query : String} {tree : Expression} {arguments : Arguments}
    {s t : Span} (h : parse query = .ok tree)
    (hcall : IsNode (.call (.identifier Directive.filter.name s) arguments t) tree)
    (hne : arguments ≠ []) :
    ((∃ f, arguments.filter = .ok f) ↔ ∀ node defect, ¬ arguments.Offends node defect) ∧
      ∀ err, arguments.filter = .error err ↔
        ∃ node defect, arguments.Offends node defect ∧ err = defect.error node.offset ∧
          ∀ node' defect', arguments.Offends node' defect' → node.offset ≤ node'.offset := by
  have hplaced := AllPlaced.of_parse h hcall
  have hapart := (hplaced _ (.root _)).apart
  have hblames : BlamesFirst arguments.Offends arguments.filter := by
    have hconditions := conditions_blame
      (fun e he => hplaced.child (List.mem_cons_of_mem _ he)) (List.Pairwise.of_cons hapart)
    rw [filter_of_ne_nil hne]
    exact hconditions.map _
  exact ⟨hblames.exists_ok_iff, hblames.eq_error_iff⟩

/-- The call is in a sequence, and three nodes offend in its two arguments: the field `b` among
the elements, the sign before `d`, and the number on the left. -/
theorem filter_blames_first_element :
    ∃ tree, ∃ arguments : Arguments, ∃ s t,
      parse "limit(1), where(!(a in [1, b]) && -d, 5 == 3)" = .ok tree ∧
      IsNode (.call (.identifier Directive.filter.name s) arguments t) tree ∧ arguments ≠ [] ∧
      arguments.filter = .error (.invalidArrayElement 1 27) ∧
      ((∃ f, arguments.filter = .ok f) ↔ ∀ node defect, ¬ arguments.Offends node defect) ∧
      ∀ err, arguments.filter = .error err ↔
        ∃ node defect, arguments.Offends node defect ∧ err = defect.error node.offset ∧
          ∀ node' defect', arguments.Offends node' defect' → node.offset ≤ node'.offset := by
  have h : (parse "limit(1), where(!(a in [1, b]) && -d, 5 == 3)").toOption.map
      (fun tree => tree.children.filterMap fun e => e.conditions?.map fun arguments =>
        errorOf? arguments.filter) = some [some (.invalidArrayElement 1 27)] := by
    decide +kernel
  obtain ⟨tree, htree, hcalls⟩ := Option.map_eq_some_iff.1 h
  have hparse := except_toOption_eq_some.1 htree
  obtain ⟨e, he, harguments⟩ := List.mem_filterMap.1 (hcalls ▸ List.mem_cons_self)
  obtain ⟨arguments, hconditions, herror⟩ := Option.map_eq_some_iff.1 harguments
  obtain ⟨s, t, rfl⟩ := conditions?_eq_some.1 hconditions
  have hfilter := errorOf?_eq_some.1 herror
  have hne : arguments ≠ [] := by
    rintro rfl
    cases hfilter
  exact ⟨tree, arguments, s, t, hparse, .child he, hne, hfilter,
    filter_blames_first hparse (.child he) hne⟩

end Arguments

end DirectiveQuery
