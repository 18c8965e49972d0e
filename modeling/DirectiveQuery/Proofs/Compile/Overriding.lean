import DirectiveQuery.Proofs.Compile.Shape

/-
  Repeated directives. Where a later call may overwrite an earlier one, what was seen before a
  call does not matter to it, so that a list is compiled call by call (`ofElements_cons`) and two
  lists one behind the other give the descriptor of the first, overridden by that of the second
  (`ofElements_append`). The calls before the one that fails have no say in the error, and a
  call that is overwritten has to compile all the same.
-/
namespace DirectiveQuery

namespace Descriptor

/-! ## Parts -/

/-- What the descriptor says for a directive, and nothing else. The filter goes with the fields
that it reads. -/
def only (d : Descriptor) : Directive → Descriptor
  | .select => { select := d.select }
  | .filter => { filter := d.filter, filterFields := d.filterFields }
  | .order => { order := d.order }
  | .extend => { extend := d.extend }
  | .limit => { limit := d.limit }
  | .offset => { offset := d.offset }

/-- A descriptor is known by its parts. -/
theorem eq_of_only {a b : Descriptor} (h : ∀ x, a.only x = b.only x) : a = b := by
  have hselect := h .select
  have hfilter := h .filter
  have horder := h .order
  have hextend := h .extend
  have hlimit := h .limit
  have hoffset := h .offset
  cases a
  cases b
  simp_all [only]

/-- Overriding takes each part as a whole, from the later descriptor where it has that part. -/
theorem only_override {b : Descriptor} (hb : b.WellShaped) (a : Descriptor) (x : Directive) :
    (a.override b).only x = if b.has x then b.only x else a.only x := by
  obtain ⟨select, filter, filterFields, order, extend, limit, offset⟩ := b
  have htogether : filter.isSome = filterFields.isSome := hb.together
  cases x with
  | filter =>
    cases filter with
    | none =>
      obtain rfl : filterFields = none := by simpa using htogether
      rfl
    | some f =>
      obtain ⟨fields, rfl⟩ := Option.isSome_iff_exists.1 htogether.symm
      rfl
  | select => cases select <;> rfl
  | order => cases order <;> rfl
  | extend => cases extend <;> rfl
  | limit => cases limit <;> rfl
  | offset => cases offset <;> rfl

/-! ## One call after the other -/

/-- The descriptor of one element of the top level. -/
def ofElement (mode : IntegerMode) (e : Expression) : Except CompileError Descriptor := do
  (← Invocation.ofExpression e).descriptor mode

variable {mode : IntegerMode}

theorem ofElements_seen (mode : IntegerMode) (seen more : List Directive)
    (es : List Expression) :
    ofElements { integers := mode } seen es = ofElements { integers := mode } more es := by
  induction es generalizing seen more with
  | nil => rfl
  | cons e es ih =>
    rw [ofElements_step, ofElements_step]
    cases Invocation.ofExpression e with
    | error err => rfl
    | ok i =>
      show (do
        let d ← i.descriptor mode
        let rest ← ofElements { integers := mode } (i.directive :: seen) es
        return d.override rest) = _
      rw [ih (i.directive :: seen) (i.directive :: more)]
      rfl

/-- One call is compiled alone, and the others override it. -/
theorem ofElements_cons (mode : IntegerMode) (seen : List Directive) (e : Expression)
    (es : List Expression) : ofElements { integers := mode } seen (e :: es) = do
      let d ← ofElement mode e
      let rest ← ofElements { integers := mode } [] es
      return d.override rest := by
  rw [ofElements_step, ofElement]
  cases Invocation.ofExpression e with
  | error err => rfl
  | ok i =>
    rw [← ofElements_seen mode (i.directive :: seen) [] es]
    rfl

theorem ofElements_singleton (mode : IntegerMode) (e : Expression) :
    ofElements { integers := mode } [] [e] = ofElement mode e := by
  rw [ofElements_cons]
  cases ofElement mode e with
  | error err => rfl
  | ok d => exact congrArg Except.ok d.override_empty

/-- Of two lists the first decides the error, and the second overrides the descriptor. -/
theorem ofElements_append (mode : IntegerMode) (cs ds : List Expression) :
    ofElements { integers := mode } [] (cs ++ ds) = do
      let a ← ofElements { integers := mode } [] cs
      let b ← ofElements { integers := mode } [] ds
      return a.override b := by
  induction cs with
  | nil =>
    show ofElements { integers := mode } [] ds = do
      let b ← ofElements { integers := mode } [] ds
      return empty.override b
    cases ofElements { integers := mode } [] ds with
    | error err => rfl
    | ok b => exact congrArg Except.ok b.empty_override.symm
  | cons c cs ih =>
    rw [List.cons_append, ofElements_cons, ofElements_cons, ih]
    cases ofElement mode c with
    | error err => rfl
    | ok d =>
      cases ofElements { integers := mode } [] cs with
      | error err => rfl
      | ok a =>
        cases ofElements { integers := mode } [] ds with
        | error err => rfl
        | ok b => exact congrArg Except.ok (d.override_assoc a b).symm

theorem exists_ofElements_cons {e : Expression} {es : List Expression} :
    (∃ d, ofElements { integers := mode } [] (e :: es) = .ok d) ↔
      (∃ d, ofElement mode e = .ok d) ∧ ∃ d, ofElements { integers := mode } [] es = .ok d := by
  simp only [ofElements_cons, except_bind_eq_ok]
  constructor
  · rintro ⟨_, d, hd, rest, hrest, -⟩
    exact ⟨⟨d, hd⟩, rest, hrest⟩
  · rintro ⟨⟨d, hd⟩, rest, hrest⟩
    exact ⟨_, d, hd, rest, hrest, rfl⟩

/-- A list compiles exactly if each of its calls does. -/
theorem exists_ofElements_iff {es : List Expression} :
    (∃ d, ofElements { integers := mode } [] es = .ok d) ↔
      ∀ e ∈ es, ∃ d, ofElement mode e = .ok d := by
  induction es with
  | nil => simp [ofElements_nil]
  | cons e es ih => rw [exists_ofElements_cons, ih, List.forall_mem_cons]

/-- The error of a list is that of the first call that does not compile. -/
theorem ofElements_eq_error_iff {es : List Expression} {err : CompileError} :
    ofElements { integers := mode } [] es = .error err ↔
      ∃ before e after, es = before ++ e :: after ∧
        (∃ d, ofElements { integers := mode } [] before = .ok d) ∧
        ofElement mode e = .error err := by
  constructor
  · intro h
    induction es with
    | nil => cases h
    | cons e es ih =>
      rw [ofElements_cons] at h
      cases he : ofElement mode e with
      | error err' =>
        rw [he] at h
        cases h
        exact ⟨[], e, es, rfl, ⟨_, rfl⟩, he⟩
      | ok d =>
        rw [he] at h
        cases hes : ofElements { integers := mode } [] es with
        | ok rest =>
          rw [hes] at h
          cases h
        | error err' =>
          rw [hes] at h
          cases h
          obtain ⟨before, f, after, rfl, hbefore, hf⟩ := ih hes
          exact ⟨e :: before, f, after, rfl, exists_ofElements_cons.2 ⟨⟨d, he⟩, hbefore⟩, hf⟩
  · rintro ⟨before, e, after, rfl, ⟨d, hd⟩, he⟩
    rw [ofElements_append, hd, ofElements_cons, he]
    rfl

/-- The last call of a directive gives the part of that directive. -/
theorem only_of_last_call {before after : List Expression} {e : Expression} {x : Directive}
    {d : Descriptor} (he : e.IsCallOf x) (hafter : ∀ m ∈ after, ¬m.IsCallOf x)
    (h : ofElements { integers := mode } [] (before ++ e :: after) = .ok d) :
    ∃ p, ofElement mode e = .ok p ∧ d.only x = p.only x := by
  rw [ofElements_append, ofElements_cons] at h
  simp only [except_bind_eq_ok] at h
  obtain ⟨a, -, b, ⟨p, hp, c, hc, hb⟩, hd⟩ := h
  cases hb
  cases hd
  obtain ⟨hshapeC, hhasC⟩ := ofElements_wellShaped hc
  obtain ⟨hshapeP, hhasP⟩ := ofElements_wellShaped ((ofElements_singleton mode e).trans hp)
  have hlater : c.has x = false := by
    rw [← Bool.not_eq_true, hhasC]
    rintro ⟨m, hm, hcall⟩
    exact hafter m hm hcall
  have hcalled : p.has x = true := (hhasP x).2 ⟨e, List.mem_singleton_self e, he⟩
  refine ⟨p, hp, ?_⟩
  rw [only_override (hshapeP.override hshapeC), has_override, hcalled, Bool.or_true, if_pos rfl,
    only_override hshapeC, hlater, if_neg Bool.false_ne_true]

/-! ## Whole trees -/

/-- Compiling under the policy that overwrites is a homomorphism from lists of calls to
descriptors that override each other, part by part. The first call that fails decides the error,
every call has to compile though it may be overwritten, and the last call of a directive gives
its part. A call alone is a list of one. -/
theorem ofExpression_sequence_append (mode : IntegerMode) (cs ds : List Expression)
    (s t u : Span) :
    ofExpression { integers := mode } (.sequence (cs ++ ds) s) = (do
      let a ← ofExpression { integers := mode } (.sequence cs t)
      let b ← ofExpression { integers := mode } (.sequence ds u)
      return a.override b) ∧
    (∀ a b : Descriptor, ofExpression { integers := mode } (.sequence ds u) = .ok b →
      ∀ x, (a.override b).only x = if b.has x then b.only x else a.only x) ∧
    (∀ callee arguments, ofExpression { integers := mode } (.call callee arguments s) =
      ofExpression { integers := mode } (.sequence [.call callee arguments s] t)) ∧
    (∀ err, ofExpression { integers := mode } (.sequence cs s) = .error err ↔
      ∃ before e after, cs = before ++ e :: after ∧
        (∃ d, ofExpression { integers := mode } (.sequence before t) = .ok d) ∧
        ofExpression { integers := mode } (.sequence [e] u) = .error err) ∧
    ((∃ d, ofExpression { integers := mode } (.sequence cs s) = .ok d) ↔
      ∀ e ∈ cs, ∃ d, ofExpression { integers := mode } (.sequence [e] t) = .ok d) ∧
    ∀ e x d, e.IsCallOf x → (∀ m ∈ ds, ¬m.IsCallOf x) →
      ofExpression { integers := mode } (.sequence (cs ++ e :: ds) s) = .ok d →
      ∃ p, ofExpression { integers := mode } (.sequence [e] t) = .ok p ∧ d.only x = p.only x := by
  have hsequence : ∀ es r, ofExpression { integers := mode } (.sequence es r) =
      ofElements { integers := mode } [] es := fun _ _ => rfl
  simp only [hsequence, ofElements_singleton]
  refine ⟨ofElements_append mode cs ds, fun a b hb x => ?_, fun callee arguments => ?_,
    fun err => ofElements_eq_error_iff, exists_ofElements_iff, fun e x d he hds h => ?_⟩
  · exact only_override (ofElements_wellShaped hb).1 a x
  · exact ofElements_singleton mode _
  · exact only_of_last_call he hds h

/-- The call of a directive with one text. -/
def textCall (x : Directive) (text : String) (s : Span) : Expression :=
  .call (.identifier x.name s) [.literal (.string text) s] s

theorem ofExpression_sequence_append_limits :
    let s : Span := ⟨0, 0, 1, 1⟩
    let two := textCall .limit "2" s
    let d : Descriptor := { select := some ["a"], limit := some 2 }
    ofExpression {} (.sequence [textCall .limit "1" s, two, textCall .select "a" s] s) = .ok d ∧
      ∃ p, ofExpression {} (.sequence [two] s) = .ok p ∧ d.only .limit = p.only .limit := by
  intro s two d
  have h : ofExpression {} (.sequence [textCall .limit "1" s, two, textCall .select "a" s] s) =
      .ok d := rfl
  have hlast : ∀ m ∈ [textCall .select "a" s], ¬m.IsCallOf .limit := by
    simp [textCall, Expression.IsCallOf, Directive.name]
  exact ⟨h, (ofExpression_sequence_append .lenient [textCall .limit "1" s]
    [textCall .select "a" s] s s s).2.2.2.2.2 two .limit d rfl hlast h⟩

end Descriptor

end DirectiveQuery
