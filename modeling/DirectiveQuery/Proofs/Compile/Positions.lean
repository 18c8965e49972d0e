import Mathlib.Data.List.Forall2
import DirectiveQuery.Proofs.Compile.Steps
import DirectiveQuery.Proofs.Grammar.Derivation

/-
  Positions never influence what is compiled. Two trees are compared that differ in their spans
  only, where the start of every node has gone through one function `g` and the rest of its span
  is arbitrary. Each step of compiling then has the same outcome for both of them, but that the
  position in an error has gone through `g`: in the steps that give values this is one equation,
  with `CompileError.relocate` on the errors, and in the two that give expressions again
  (`topLevel` and the invocations) the arguments are once more trees that differ in their spans
  only. No step looks at a position, so `g` may be any function, and the first error stays the
  first one.
-/
namespace DirectiveQuery

/-! ## Errors and trees with other positions -/

/-- The error with its position, if it has one, sent through a function. -/
def CompileError.relocate (g : Nat → Nat) : CompileError → CompileError
  | emptyQuery => emptyQuery
  | unparsable e => unparsable { e with offset := g e.offset }
  | malformedQuery n => malformedQuery (g n)
  | unknownDirective name n => unknownDirective name (g n)
  | duplicateDirective d n => duplicateDirective d (g n)
  | invalidFieldArgument d i n => invalidFieldArgument d i (g n)
  | invalidOrderArgument i n => invalidOrderArgument i (g n)
  | invalidArrayElement i n => invalidArrayElement i (g n)
  | invalidIntegerArgument d n => invalidIntegerArgument d (g n)
  | invalidComparisonField n => invalidComparisonField (g n)
  | unknownOperator mark n => unknownOperator mark (g n)
  | typeMismatch expected n => typeMismatch expected (g n)
  | arityMismatch d found => arityMismatch d found
  | unknownExpression n => unknownExpression (g n)

/-- The second tree is the first one with other spans, in which every start has gone through the
function. -/
inductive Relocated (g : Nat → Nat) : Expression → Expression → Prop
  | identifier {name : String} {s t : Span} (hs : t.start = g s.start) :
    Relocated g (.identifier name s) (.identifier name t)
  | literal {value : Literal} {s t : Span} (hs : t.start = g s.start) :
    Relocated g (.literal value s) (.literal value t)
  | unary {mark : Mark} {e e' : Expression} {s t : Span} (he : Relocated g e e')
    (hs : t.start = g s.start) : Relocated g (.unary mark e s) (.unary mark e' t)
  | binary {operator : Comparison} {l l' r r' : Expression} {s t : Span} (hl : Relocated g l l')
    (hr : Relocated g r r') (hs : t.start = g s.start) :
    Relocated g (.binary l operator r s) (.binary l' operator r' t)
  | logical {connective : Connective} {l l' r r' : Expression} {s t : Span}
    (hl : Relocated g l l') (hr : Relocated g r r') (hs : t.start = g s.start) :
    Relocated g (.logical l connective r s) (.logical l' connective r' t)
  | array {es es' : List Expression} {s t : Span} (hes : List.Forall₂ (Relocated g) es es')
    (hs : t.start = g s.start) : Relocated g (.array es s) (.array es' t)
  | call {callee callee' : Expression} {es es' : List Expression} {s t : Span}
    (hc : Relocated g callee callee') (hes : List.Forall₂ (Relocated g) es es')
    (hs : t.start = g s.start) : Relocated g (.call callee es s) (.call callee' es' t)
  | sequence {es es' : List Expression} {s t : Span} (hes : List.Forall₂ (Relocated g) es es')
    (hs : t.start = g s.start) : Relocated g (.sequence es s) (.sequence es' t)

section

variable {g : Nat → Nat}

mutual

theorem relocated_mapSpans {f : Span → Span} (hf : ∀ s, (f s).start = g s.start) :
    ∀ e : Expression, Relocated g e (e.mapSpans f)
  | .identifier _ s | .literal _ s => by constructor; exact hf s
  | .unary _ argument s => .unary (relocated_mapSpans hf argument) (hf s)
  | .binary left _ right s =>
    .binary (relocated_mapSpans hf left) (relocated_mapSpans hf right) (hf s)
  | .logical left _ right s =>
    .logical (relocated_mapSpans hf left) (relocated_mapSpans hf right) (hf s)
  | .array elements s => .array (relocated_mapSpansAll hf elements) (hf s)
  | .call callee arguments s =>
    .call (relocated_mapSpans hf callee) (relocated_mapSpansAll hf arguments) (hf s)
  | .sequence elements s => .sequence (relocated_mapSpansAll hf elements) (hf s)

theorem relocated_mapSpansAll {f : Span → Span} (hf : ∀ s, (f s).start = g s.start) :
    ∀ es : List Expression, List.Forall₂ (Relocated g) es (Expression.mapSpansAll f es)
  | [] => .nil
  | e :: es => .cons (relocated_mapSpans hf e) (relocated_mapSpansAll hf es)

end

/-! ## What is read off one tree -/

namespace Relocated

variable {e e' : Expression}

theorem offset (h : Relocated g e e') : e'.offset = g e.offset := by
  cases h <;> assumption

theorem fieldName? (h : Relocated g e e') : e'.fieldName? = e.fieldName? := by
  cases h with
  | @literal value => cases value <;> rfl
  | _ => rfl

theorem countText? (h : Relocated g e e') : e'.countText? = e.countText? := by
  cases h with
  | @literal value => cases value <;> rfl
  | _ => rfl

theorem value? (h : Relocated g e e') : Value.ofExpression? e' = Value.ofExpression? e := by
  cases h with
  | @unary mark _ _ _ _ he =>
    cases he with
    | @literal value => cases mark <;> cases value <;> rfl
    | _ => cases mark <;> rfl
  | _ => rfl

theorem sortKey? (h : Relocated g e e') : SortKey.ofExpression? e' = SortKey.ofExpression? e := by
  cases h with
  | @unary mark _ _ _ _ he =>
    cases mark with
    | not => rfl
    | plus => simp only [SortKey.ofExpression?, he.fieldName?]
    | minus => simp only [SortKey.ofExpression?, he.fieldName?]
  | @literal value => cases value <;> rfl
  | _ => rfl

end Relocated

/-! ## The steps of compiling -/

section

variable {es es' : List Expression}

theorem readEach_relocated {α : Type} {read : Expression → Option α}
    (hread : ∀ {e e' : Expression}, Relocated g e e' → read e' = read e)
    {blame : Nat → Nat → CompileError} (hblame : ∀ i n, (blame i n).relocate g = blame i (g n))
    (h : List.Forall₂ (Relocated g) es es') (index : Nat) :
    readEach read blame index es' =
      (readEach read blame index es).mapError (CompileError.relocate g) := by
  induction h generalizing index with
  | nil => rfl
  | @cons e e' es es' he _ ih =>
    simp only [readEach, hread he, he.offset]
    cases read e with
    | none => simp [except_mapError_error, hblame]
    | some a => simp only [ih, except_map_mapError]

namespace Relocated

variable {e e' left left' right right' : Expression}

theorem operand (h : Relocated g e e') (operator : Comparison) :
    e'.operand operator = (e.operand operator).mapError (CompileError.relocate g) := by
  have hv := h.value?
  have ho := h.offset
  cases h with
  | array hes hs =>
    have hread := @readEach_relocated _ _ _ _ _ value? .invalidArrayElement (fun _ _ => rfl) hes 0
    simp only [Expression.operand, hread, except_map_mapError]
    cases operator.isMembership with
    | true => rfl
    | false => simp [except_mapError_error, CompileError.relocate, hs]
  | _ =>
    rw [Expression.operand_of_scalar (by rintro _ _ ⟨⟩),
      Expression.operand_of_scalar (by rintro _ _ ⟨⟩), hv, ho]
    cases operator.isMembership <;> cases Value.ofExpression? _ <;> rfl

theorem comparison (hl : Relocated g left left') (hr : Relocated g right right')
    (operator : Comparison) :
    Expression.comparison left' operator right' =
      (Expression.comparison left operator right).mapError (CompileError.relocate g) := by
  simp only [Expression.comparison, hl.fieldName?, hl.offset]
  cases left.fieldName? with
  | none => rfl
  | some field => simp only [hr.operand, except_map_mapError]

/-- Along the recursion of `Expression.compileCondition`: a negation and the two sides of a
connective have conditions below them, everything else decides by itself. -/
theorem condition (inverted : Bool) : ∀ {e e' : Expression}, Relocated g e e' →
    e'.condition inverted = (e.condition inverted).mapError (CompileError.relocate g)
  | .unary .not _ _, _, .unary he _ => condition (!inverted) he
  | .unary .plus _ _, _, .unary _ hs | .unary .minus _ _, _, .unary _ hs => by
    rw [Expression.condition_sign (by decide), Expression.condition_sign (by decide),
      except_mapError_error, CompileError.relocate, hs]
  | .binary _ _ _ _, _, .binary hl hr _ => by
    simp only [Expression.condition_binary, hl.comparison hr, except_map_mapError]
  | .logical _ _ _ _, _, .logical hl hr _ => by
    simp only [Expression.condition_logical, condition inverted hl, condition inverted hr]
    exact except_mapError_bind fun _ => except_mapError_bind fun _ => rfl
  | .identifier _ _, e', h | .literal _ _, e', h | .array _ _, e', h | .call _ _ _, e', h
  | .sequence _ _, e', h => by
    have hplain : e'.IsPlain := by
      cases h
      trivial
    rw [Expression.condition_plain hplain, h.offset]
    rfl

end Relocated

namespace Arguments

theorem fields_relocated (h : List.Forall₂ (Relocated g) es es') (directive : Directive) :
    fields directive es' = (fields directive es).mapError (CompileError.relocate g) :=
  readEach_relocated Relocated.fieldName? (fun _ _ => rfl) h 0

theorem sortKeys_relocated (h : List.Forall₂ (Relocated g) es es') :
    sortKeys es' = (sortKeys es).mapError (CompileError.relocate g) :=
  readEach_relocated Relocated.sortKey? (fun _ _ => rfl) h 0

theorem conditions_relocated (h : List.Forall₂ (Relocated g) es es') :
    conditions es' = (conditions es).mapError (CompileError.relocate g) := by
  induction h with
  | nil => rfl
  | cons he _ ih =>
    simp only [conditions_cons, he.condition, ih]
    exact except_mapError_bind fun _ => except_mapError_bind fun _ => rfl

theorem filter_relocated (h : List.Forall₂ (Relocated g) es es') :
    filter es' = (filter es).mapError (CompileError.relocate g) := by
  cases h with
  | nil => rfl
  | cons he hes =>
    rw [filter_of_ne_nil (List.cons_ne_nil _ _), filter_of_ne_nil (List.cons_ne_nil _ _),
      conditions_relocated (.cons he hes), except_map_mapError]

theorem compileFilter_relocated (h : List.Forall₂ (Relocated g) es es') :
    compileFilter es' = (compileFilter es).mapError (CompileError.relocate g) := by
  rw [compileFilter_eq, compileFilter_eq, filter_relocated h, except_map_mapError]

theorem count_relocated (h : List.Forall₂ (Relocated g) es es') (directive : Directive)
    (mode : IntegerMode) :
    count directive mode es' = (count directive mode es).mapError (CompileError.relocate g) := by
  match es, es', h with
  | [], _, .nil => rfl
  | [e], _, .cons he .nil =>
    simp only [count, he.countText?, he.offset]
    cases e.countText?.bind (readCount? mode) with
    | some n => rfl
    | none => rfl
  | _ :: _ :: _, _, .cons _ (.cons _ hes) =>
    simp [count, except_mapError_error, CompileError.relocate, hes.length_eq]

end Arguments

theorem Invocation.descriptor_relocated (h : List.Forall₂ (Relocated g) es es')
    (mode : IntegerMode) (directive : Directive) (n n' : Nat) :
    descriptor mode ⟨directive, es', n'⟩ =
      (descriptor mode ⟨directive, es, n⟩).mapError (CompileError.relocate g) := by
  cases directive <;> simp only [descriptor, Arguments.fields_relocated h,
    Arguments.sortKeys_relocated h, Arguments.compileFilter_relocated h,
    Arguments.count_relocated h, except_map_mapError]

/-! ## Whole trees -/

namespace Relocated

variable {e e' : Expression}

/-- Both trees make no invocation, for one reason, or the same one on arguments that differ in
their spans only. -/
theorem invocation (h : Relocated g e e') :
    (∃ err, Invocation.ofExpression e = .error err ∧
      Invocation.ofExpression e' = .error (err.relocate g)) ∨
    ∃ directive es es' n, List.Forall₂ (Relocated g) es es' ∧
      Invocation.ofExpression e = .ok ⟨directive, es, n⟩ ∧
      Invocation.ofExpression e' = .ok ⟨directive, es', g n⟩ := by
  cases h with
  | @call _ _ es es' s t hc hes hs =>
    cases hc with
    | @identifier name _ _ ht =>
      simp only [Invocation.ofExpression, hs, ht]
      cases Directive.ofName? name with
      | none => exact .inl ⟨_, rfl, rfl⟩
      | some directive => exact .inr ⟨directive, es, es', s.start, hes, rfl, rfl⟩
    | _ => exact .inl ⟨_, rfl, by simp_all [Invocation.ofExpression, CompileError.relocate,
        Expression.offset, Expression.span]⟩
  | _ => exact .inl ⟨_, rfl, by simp_all [Invocation.ofExpression, CompileError.relocate,
      Expression.offset, Expression.span]⟩

theorem topLevel (h : Relocated g e e') :
    (∃ err, e.topLevel = .error err ∧ e'.topLevel = .error (err.relocate g)) ∨
    ∃ es es', List.Forall₂ (Relocated g) es es' ∧ e.topLevel = .ok es ∧ e'.topLevel = .ok es' := by
  cases h with
  | call hc hes hs => exact .inr ⟨_, _, .cons (.call hc hes hs) .nil, rfl, rfl⟩
  | sequence hes _ => exact .inr ⟨_, _, hes, rfl, rfl⟩
  | _ => exact .inl ⟨_, rfl, by simp_all [Expression.topLevel, CompileError.relocate,
      Expression.offset, Expression.span]⟩

end Relocated

namespace Descriptor

/-- Elements are compiled in the order of the source, and a refusal looks at directives only, so
the first error is the first one for both lists. -/
theorem ofElements_relocated (options : CompileOptions) (h : List.Forall₂ (Relocated g) es es')
    (seen : List Directive) : ofElements options seen es' =
      (ofElements options seen es).mapError (CompileError.relocate g) := by
  induction h generalizing seen with
  | nil => rfl
  | cons he _ ih =>
    obtain ⟨err, h, h'⟩ | ⟨directive, as, as', n, has, h, h'⟩ := he.invocation
    · simp only [ofElements_step, h, h']
      rfl
    · have hrefused : Invocation.isRefused options.duplicates seen ⟨directive, as', g n⟩ =
        Invocation.isRefused options.duplicates seen ⟨directive, as, n⟩ := rfl
      simp only [ofElements_step, h, h', hrefused, except_bind_ok]
      split
      · rfl
      · rw [Invocation.descriptor_relocated has options.integers directive n, ih]
        exact except_mapError_bind fun _ => except_mapError_bind fun _ => rfl

theorem ofExpression_relocated (options : CompileOptions) {e e' : Expression}
    (h : Relocated g e e') :
    ofExpression options e' = (ofExpression options e).mapError (CompileError.relocate g) := by
  obtain ⟨err, h, h'⟩ | ⟨es, es', hes, h, h'⟩ := h.topLevel
  · simp only [ofExpression_eq, h, h']
    rfl
  · simp only [ofExpression_eq, h, h', except_bind_ok, ofElements_relocated options hes]

/-- A tree with other positions compiles to the same descriptor, or fails with the same error at
the position that the function gives. -/
theorem ofExpression_ignores_positions {e e' : Expression} (h : Relocated g e e')
    (options : CompileOptions) :
    (∀ d, ofExpression options e' = .ok d ↔ ofExpression options e = .ok d) ∧
    ∀ err, ofExpression options e = .error err →
      ofExpression options e' = .error (err.relocate g) := by
  rw [ofExpression_relocated options h]
  cases ofExpression options e with
  | ok d => exact ⟨fun _ => Iff.rfl, by rintro _ ⟨⟩⟩
  | error err => exact ⟨fun _ => except_error_eq_ok_iff, by rintro _ ⟨⟩; rfl⟩

/-- The tree of `order(a, !b)`, moved so that its nodes end before they start: the argument is
still the second one, and its position is where it was moved to. -/
theorem ofExpression_ignores_positions_of_order :
    ofExpression {} (.call (.identifier "order" ⟨0, 9, 7, 0⟩)
      [.identifier "a" ⟨60, 1, 0, 3⟩, .unary .not (.identifier "b" ⟨100, 0, 2, 2⟩) ⟨90, 4, 5, 6⟩]
      ⟨0, 0, 0, 8⟩) = .error (.invalidOrderArgument 1 90) :=
  (ofExpression_ignores_positions (g := fun n => 10 * n)
    (e := .call (.identifier "order" ⟨0, 5, 1, 1⟩)
      [.identifier "a" ⟨6, 7, 1, 7⟩, .unary .not (.identifier "b" ⟨10, 11, 1, 11⟩) ⟨9, 11, 1, 10⟩]
      ⟨0, 12, 1, 1⟩)
    (.call (.identifier rfl)
      (.cons (.identifier rfl) (.cons (.unary (.identifier rfl) rfl) .nil)) rfl) {}).2
    (.invalidOrderArgument 1 9) rfl

end Descriptor

end

end

/-- What a tree compiles to is decided by the tree without its positions. -/
theorem Descriptor.ofExpression_bare (options : CompileOptions) (e : Expression)
    (d : Descriptor) : ofExpression options e.bare = .ok d ↔ ofExpression options e = .ok d := by
  have h : Relocated (fun _ => 0) e e.bare := relocated_mapSpans (fun _ => rfl) e
  rw [ofExpression_relocated options h]
  cases ofExpression options e with
  | ok d => rfl
  | error err => exact except_error_eq_ok_iff

end DirectiveQuery
