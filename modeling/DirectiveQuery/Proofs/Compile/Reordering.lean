import DirectiveQuery.Proofs.Compile.Strictness

/-
  The order of directives. The part that a list of calls gives for a directive is what the calls
  of that directive alone give (`ofElements_filter`), so only the order among these matters; and
  whether a list compiles depends on its members and on no order at all.
-/
namespace DirectiveQuery

namespace Expression

/-- By this the calls of a directive are filtered out of a list (`Reordered.calls`). -/
instance decidableIsCallOf (x : Directive) : (e : Expression) → Decidable (e.IsCallOf x)
  | call (identifier name _) _ _ => inferInstanceAs (Decidable (name = x.name))
  | call (literal ..) _ _ | call (unary ..) _ _ | call (binary ..) _ _ | call (logical ..) _ _
  | call (array ..) _ _ | call (call ..) _ _ | call (sequence ..) _ _ | identifier .. | literal ..
  | unary .. | binary .. | logical .. | array .. | sequence .. => isFalse id

/-- The second list has the elements of the first in another order, but the calls of each
directive follow each other as they did. -/
structure Reordered (es fs : List Expression) : Prop where
  perm : es.Perm fs
  calls : ∀ x, (es.filter fun e => e.IsCallOf x) = fs.filter fun e => e.IsCallOf x

theorem callDistinct_perm {es fs : List Expression} (h : es.Perm fs) :
    CallDistinct es ↔ CallDistinct fs :=
  h.pairwise_iff fun hef x hf he => hef x he hf

end Expression

open Expression

namespace Descriptor

variable {mode : IntegerMode}

theorem only_of_not_has {d : Descriptor} (hd : d.WellShaped) {x : Directive}
    (h : d.has x = false) : d.only x = empty := by
  obtain ⟨select, filter, filterFields, order, extend, limit, offset⟩ := d
  have htogether : filter.isSome = filterFields.isSome := hd.together
  cases x <;> simp_all [has, only, empty]

/-- A descriptor with the part for one directive only. -/
theorem only_eq_self {d : Descriptor} (hd : d.WellShaped) {x : Directive}
    (h : ∀ y, d.has y = true ↔ x = y) : d.only x = d := by
  refine eq_of_only fun y => ?_
  by_cases hxy : x = y
  · subst hxy
    cases x <;> rfl
  · have hother : d.has y = false := by
      rw [← Bool.not_eq_true, h]
      exact hxy
    rw [only_of_not_has hd hother]
    cases x <;> cases y <;> first | rfl | exact absurd rfl hxy

/-- One call gives its own part, and nothing to the others. -/
theorem only_ofElement {e : Expression} {d : Descriptor} (h : ofElement mode e = .ok d)
    (x : Directive) : d.only x = if e.IsCallOf x then d else empty := by
  obtain ⟨i, hi, hd⟩ := except_bind_eq_ok.1 h
  obtain ⟨hshape, hhas⟩ := Invocation.descriptor_wellShaped hd
  have hcall := isCallOf_of_invocation hi x
  split
  · next hx =>
    refine only_eq_self hshape fun y => ?_
    rw [hhas, hcall.1 hx]
  · next hx =>
    refine only_of_not_has hshape ?_
    rw [← Bool.not_eq_true, hhas, ← hcall]
    exact hx

/-- The calls of a directive give its part by themselves. -/
theorem ofElements_filter {es : List Expression} {d : Descriptor}
    (h : ofElements { integers := mode } [] es = .ok d) (x : Directive) :
    ofElements { integers := mode } [] (es.filter fun e => e.IsCallOf x) = .ok (d.only x) := by
  induction es generalizing d with
  | nil =>
    cases h
    cases x <;> rfl
  | cons e es ih =>
    rw [ofElements_cons] at h
    simp only [except_bind_eq_ok] at h
    obtain ⟨p, hp, rest, hrest, hd⟩ := h
    cases hd
    have honly : (p.override rest).only x = (p.only x).override (rest.only x) := by
      cases x <;> rfl
    rw [honly, only_ofElement hp x]
    by_cases hx : e.IsCallOf x
    · rw [List.filter_cons_of_pos (by simpa using hx), ofElements_cons, hp, ih hrest, if_pos hx]
      rfl
    · rw [List.filter_cons_of_neg (by simpa using hx), ih hrest, if_neg hx, empty_override]

theorem ofElements_reordered {es fs : List Expression} (h : Reordered es fs) {d : Descriptor}
    (hd : ofElements { integers := mode } [] es = .ok d) :
    ofElements { integers := mode } [] fs = .ok d := by
  have hall : ∀ e ∈ fs, ∃ p, ofElement mode e = .ok p := fun e he =>
    exists_ofElements_iff.1 ⟨d, hd⟩ e (h.perm.mem_iff.2 he)
  obtain ⟨c, hc⟩ := exists_ofElements_iff.2 hall
  have hsame : c = d := by
    refine eq_of_only fun x => ?_
    have hx := ofElements_filter hd x
    rw [h.calls x, ofElements_filter hc x] at hx
    exact Except.ok.inj hx
  rw [hc, hsame]

/-- Directives may be given in any order, as long as the calls of each directive follow each other
as before: the same trees compile, to the same descriptors. -/
theorem ofExpression_reordered {es fs : List Expression} (h : Reordered es fs)
    (options : CompileOptions) (s t : Span) (d : Descriptor) :
    ofExpression options (.sequence es s) = .ok d ↔
      ofExpression options (.sequence fs t) = .ok d := by
  obtain ⟨policy, mode⟩ := options
  have hback : Reordered fs es := ⟨h.perm.symm, fun x => (h.calls x).symm⟩
  have hoverwrite : ofElements ⟨.overwrite, mode⟩ [] es = .ok d ↔
      ofElements ⟨.overwrite, mode⟩ [] fs = .ok d :=
    ⟨ofElements_reordered h, ofElements_reordered hback⟩
  cases policy with
  | overwrite => exact hoverwrite
  | reject =>
    rw [ofExpression_reject, ofExpression_reject]
    exact and_congr hoverwrite (callDistinct_perm h.perm)

theorem ofExpression_reordered_limits :
    let s : Span := ⟨0, 0, 1, 1⟩
    let one := textCall .limit "1" s
    let two := textCall .limit "2" s
    let field := textCall .select "a" s
    Reordered [one, field, two] [field, one, two] ∧
      ofExpression {} (.sequence [field, one, two] s) =
        .ok { select := some ["a"], limit := some 2 } := by
  intro s one two field
  have h : Reordered [one, field, two] [field, one, two] :=
    ⟨.swap field one [two], fun x => by cases x <;> rfl⟩
  exact ⟨h, (ofExpression_reordered h {} s s _).1 rfl⟩

end Descriptor

end DirectiveQuery
