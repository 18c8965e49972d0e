import DirectiveQuery.Proofs.Compile.Compiler
import DirectiveQuery.Proofs.Compile.Count
import DirectiveQuery.Proofs.Compile.Overriding

/-
  Strict options. A strict option refuses some of what the other one accepts and changes nothing
  else. The policy that rejects accepts exactly the lists in which no directive is called twice
  (`ofElements_reject`). A strict reading of a count sees the text that a lenient one sees, since
  no text with the mark of hexadecimal digits is made of decimal digits alone.
-/
namespace DirectiveQuery

/-! ## Counts -/

/-- A text with the mark of hexadecimal digits is not made of decimal digits alone. -/
theorem afterHexMark?_of_length_takeWhile {text : List Char}
    (h : (text.takeWhile Char.isDigit).length = text.length) : afterHexMark? text = none := by
  have hall : text.takeWhile Char.isDigit = text :=
    (List.takeWhile_prefix _).eq_of_length h
  refine afterHexMark?_of_isDigit fun c hc => ?_
  rw [← hall] at hc
  exact List.all_eq_true.1 List.all_takeWhile c hc

theorem readCount?_of_strict {text : List Char} {n : Nat}
    (h : readCount? .strict text = some n) : readCount? .lenient text = some n := by
  rw [readCount?_eq_some_iff] at h ⊢
  generalize Text.splitSign (Text.trim text) = signed at h ⊢
  obtain ⟨negative, unsigned⟩ := signed
  obtain ⟨hne, hall, hcount⟩ := h
  have hmark : afterHexMark? unsigned = none := afterHexMark?_of_length_takeWhile (hall rfl)
  have hdigits : countDigits .lenient unsigned = countDigits .strict unsigned := by
    simp only [countDigits, hmark]
  dsimp only
  rw [hdigits]
  exact ⟨hne, nofun, hcount⟩

theorem Arguments.count_of_strict {directive : Directive} {arguments : Arguments} {n : Nat}
    (h : arguments.count directive .strict = .ok n) :
    arguments.count directive .lenient = .ok n := by
  obtain ⟨argument, text, hargument, htext, hread⟩ := count_eq_ok.1 h
  exact count_eq_ok.2 ⟨argument, text, hargument, htext, readCount?_of_strict hread⟩

/-- Only the counts depend on the mode. -/
theorem Invocation.descriptor_of_strict {i : Invocation} {d : Descriptor}
    (h : i.descriptor .strict = .ok d) : i.descriptor .lenient = .ok d := by
  obtain ⟨directive, arguments, offset⟩ := i
  cases directive with
  | limit | offset =>
    obtain ⟨n, hn, rfl⟩ := except_map_eq_ok.1 h
    exact except_map_eq_ok.2 ⟨n, Arguments.count_of_strict hn, rfl⟩
  | _ => exact h

/-! ## Repeated directives -/

namespace Expression

/-- No directive is called by two of the elements. -/
def CallDistinct (es : List Expression) : Prop :=
  es.Pairwise fun e f => ∀ x, e.IsCallOf x → ¬f.IsCallOf x

/-- No directive is called twice at the top level. -/
def CallsDistinct : Expression → Prop
  | sequence elements _ => CallDistinct elements
  | _ => True

theorem callsDistinct_of_topLevel {e : Expression} {es : List Expression}
    (h : e.topLevel = .ok es) : e.CallsDistinct ↔ CallDistinct es := by
  cases e with
  | call callee arguments s =>
    cases h
    exact iff_of_true trivial (List.pairwise_singleton _ _)
  | sequence elements s =>
    cases h
    rfl
  | _ => cases h

end Expression

namespace Descriptor

variable {policy : DuplicatePolicy} {mode : IntegerMode}

theorem ofElements_of_strict {seen : List Directive} {es : List Expression} {d : Descriptor}
    (h : ofElements ⟨policy, .strict⟩ seen es = .ok d) :
    ofElements ⟨policy, .lenient⟩ seen es = .ok d := by
  induction es generalizing seen d with
  | nil => exact h
  | cons e es ih =>
    obtain ⟨directive, arguments, offset, part, rest, hi, hseen, hpart, hrest, hd⟩ :=
      ofElements_cons_eq_ok.1 h
    exact ofElements_cons_eq_ok.2 ⟨directive, arguments, offset, part, rest, hi, hseen,
      Invocation.descriptor_of_strict hpart, ih hrest, hd⟩

/-- The policy that rejects accepts what the other one accepts, as long as no directive is
called twice and none that was seen before. -/
theorem ofElements_reject {seen : List Directive} {es : List Expression} {d : Descriptor} :
    ofElements ⟨.reject, mode⟩ seen es = .ok d ↔ ofElements ⟨.overwrite, mode⟩ seen es = .ok d ∧
      Expression.CallDistinct es ∧ ∀ x ∈ seen, ∀ e ∈ es, ¬e.IsCallOf x := by
  induction es generalizing seen d with
  | nil => simp [ofElements_nil, Expression.CallDistinct]
  | cons e es ih =>
    have hcall : ∀ {directive arguments offset x},
        Invocation.ofExpression e = .ok ⟨directive, arguments, offset⟩ →
        (e.IsCallOf x ↔ directive = x) := fun hi => Expression.isCallOf_of_invocation hi _
    rw [ofElements_cons_eq_ok, ofElements_cons_eq_ok]
    simp only [ih, Expression.CallDistinct, List.pairwise_cons, List.mem_cons,
      forall_eq_or_imp]
    constructor
    · rintro ⟨directive, arguments, offset, part, rest, hi, hnew, hpart,
        ⟨hrest, hes, hfirst, hseen⟩, hd⟩
      refine ⟨⟨directive, arguments, offset, part, rest, hi, by rintro ⟨⟩, hpart, hrest, hd⟩,
        ⟨fun f hf x hx => ?_, hes⟩, fun x hx => ⟨fun he => ?_, hseen x hx⟩⟩
      · rw [← (hcall hi).1 hx]
        exact hfirst f hf
      · exact hnew trivial ((hcall hi).1 he ▸ hx)
    · rintro ⟨⟨directive, arguments, offset, part, rest, hi, -, hpart, hrest, hd⟩,
        ⟨hothers, hes⟩, hseen⟩
      exact ⟨directive, arguments, offset, part, rest, hi,
        fun _ hmem => (hseen directive hmem).1 ((hcall hi).2 rfl), hpart,
        ⟨hrest, hes, fun f hf => hothers f hf directive ((hcall hi).2 rfl),
          fun x hx => (hseen x hx).2⟩, hd⟩

theorem ofExpression_reject {e : Expression} {d : Descriptor} :
    ofExpression ⟨.reject, mode⟩ e = .ok d ↔
      ofExpression ⟨.overwrite, mode⟩ e = .ok d ∧ e.CallsDistinct := by
  simp only [ofExpression_eq, except_bind_eq_ok, ofElements_reject, List.not_mem_nil,
    false_implies, implies_true, and_true]
  constructor
  · rintro ⟨es, hes, hd, hdistinct⟩
    exact ⟨⟨es, hes, hd⟩, (Expression.callsDistinct_of_topLevel hes).2 hdistinct⟩
  · rintro ⟨⟨es, hes, hd⟩, hdistinct⟩
    exact ⟨es, hes, hd, (Expression.callsDistinct_of_topLevel hes).1 hdistinct⟩

theorem ofExpression_of_strict {e : Expression} {d : Descriptor}
    (h : ofExpression ⟨policy, .strict⟩ e = .ok d) :
    ofExpression ⟨policy, .lenient⟩ e = .ok d := by
  obtain ⟨es, hes, hd⟩ := except_bind_eq_ok.1 h
  exact except_bind_eq_ok.2 ⟨es, hes, ofElements_of_strict hd⟩

/-- What compiles under any options compiles to the same under those that refuse the least. -/
theorem ofExpression_default {options : CompileOptions} {e : Expression} {d : Descriptor}
    (h : ofExpression options e = .ok d) : ofExpression {} e = .ok d := by
  obtain ⟨policy, mode⟩ := options
  have hoverwrite : ofExpression ⟨.overwrite, mode⟩ e = .ok d := by
    cases policy with
    | overwrite => exact h
    | reject => exact (ofExpression_reject.1 h).1
  cases mode with
  | lenient => exact hoverwrite
  | strict => exact ofExpression_of_strict hoverwrite

theorem ofQuery_default {options : CompileOptions} {query : String} {d : Descriptor}
    (h : ofQuery options query = .ok d) : ofQuery {} query = .ok d := by
  rw [ofQuery_eq] at h ⊢
  split
  · next hblank =>
    rw [if_pos hblank] at h
    cases h
  · next hblank =>
    rw [if_neg hblank] at h
    obtain ⟨e, he, hd⟩ := except_bind_eq_ok.1 h
    exact except_bind_eq_ok.2 ⟨e, he, ofExpression_default hd⟩

/-- Strict options refuse, and change no result. Under the policy that rejects a tree compiles to
what it compiles to under the other one, exactly if no directive is called twice at the top
level; what is accepted in the strict mode is accepted in the lenient one, with the same result.
So a query has one descriptor, whatever the options are under which it compiles. -/
theorem ofExpression_strictness (e : Expression) (query : String) :
    (∀ mode d, ofExpression ⟨.reject, mode⟩ e = .ok d ↔
      ofExpression ⟨.overwrite, mode⟩ e = .ok d ∧ e.CallsDistinct) ∧
    (∀ policy d, ofExpression ⟨policy, .strict⟩ e = .ok d →
      ofExpression ⟨policy, .lenient⟩ e = .ok d) ∧
    ∀ options others a b, ofQuery options query = .ok a → ofQuery others query = .ok b →
      a = b := by
  refine ⟨fun mode d => ofExpression_reject, fun policy d => ofExpression_of_strict,
    fun options others a b ha hb => ?_⟩
  have hsame := (ofQuery_default ha).symm.trans (ofQuery_default hb)
  exact Except.ok.inj hsame

theorem ofExpression_strictness_limit :
    let s : Span := ⟨0, 0, 1, 1⟩
    let e : Expression := .sequence [textCall .select "a" s, textCall .limit " +7 " s] s
    let d : Descriptor := { select := some ["a"], limit := some 7 }
    ofExpression ⟨.reject, .strict⟩ e = .ok d ∧ e.CallsDistinct ∧
      ofExpression ⟨.reject, .lenient⟩ e = .ok d := by
  intro s e d
  have h : ofExpression ⟨.reject, .strict⟩ e = .ok d := rfl
  obtain ⟨hreject, hstrict, -⟩ := ofExpression_strictness e ""
  exact ⟨h, ((hreject .strict d).1 h).2, hstrict .reject d h⟩

end Descriptor

end DirectiveQuery
