import DirectiveQuery.Proofs.Compile.Compiler
import DirectiveQuery.Proofs.Compile.Count
import DirectiveQuery.Proofs.Compile.Shape
import DirectiveQuery.Proofs.Descriptor.Text

/-
  The numbers of compiled descriptors. An integer of a filter is one of 64 bits with a sign, since
  every other number is kept as it is, and a count is read below 2^64. So the text of a compiled
  descriptor reads back, without its numbers that are not finite.
-/
namespace DirectiveQuery

namespace Value

theorem fitsWord_ofNumber (x : Binary64) : (ofNumber x).fitsWord := by
  unfold ofNumber
  split
  · split
    · next hword => exact hword
    · rfl
  · rfl

theorem fitsWord_of_ofExpression? {e : Expression} {v : Value} (h : ofExpression? e = some v) :
    v.fitsWord := by
  cases ofExpression?_eq_some.1 h with
  | literal l s =>
    cases l with
    | number x => exact fitsWord_ofNumber x
    | string text | boolean b | null => rfl
  | plus | minus => exact fitsWord_ofNumber _

end Value

namespace Expression

theorem fitsWord_of_operand {operator : Comparison} {e : Expression} {o : Operand}
    (h : e.operand operator = .ok o) : ∀ v ∈ o.values, v.fitsWord := by
  cases e with
  | array es s =>
    obtain ⟨-, vs, hvs, rfl⟩ := operand_array.1 h
    intro v hv
    have hmem : some v ∈ es.map Value.ofExpression? := by
      rw [hvs]
      exact List.mem_map_of_mem hv
    obtain ⟨e, -, he⟩ := List.mem_map.1 hmem
    exact Value.fitsWord_of_ofExpression? he
  | _ =>
    obtain ⟨-, v, hv, rfl⟩ := (operand_eq_ok_of_scalar (by rintro es s ⟨⟩)).1 h
    exact List.forall_mem_singleton.2 (Value.fitsWord_of_ofExpression? hv)

theorem fitsWord_of_comparison {left right : Expression} {operator : Comparison} {l : Leaf}
    (h : comparison left operator right = .ok l) : ∀ v ∈ l.operand.values, v.fitsWord := by
  unfold comparison at h
  split at h
  · cases h
  · obtain ⟨o, ho, rfl⟩ := except_map_eq_ok.1 h
    exact fitsWord_of_operand ho

end Expression

theorem Arguments.count_lt {directive : Directive} {mode : IntegerMode} {arguments : Arguments}
    {n : Nat} (h : arguments.count directive mode = .ok n) : n < Nat.pow 2 64 := by
  obtain ⟨argument, text, -, -, hread⟩ := count_eq_ok.1 h
  rw [Nat.pow_eq]
  exact readCount?_lt hread

namespace Descriptor

theorem inRange_empty : empty.InRange := ⟨List.forall_mem_nil _, nofun, nofun⟩

theorem mem_override {α : Type} {earlier later : Option α} {a : α}
    (h : a ∈ (later <|> earlier)) : a ∈ earlier ∨ a ∈ later := by
  cases later with
  | none => exact .inl h
  | some b => exact .inr h

theorem InRange.override {a b : Descriptor} (ha : a.InRange) (hb : b.InRange) :
    (a.override b).InRange where
  values := by
    have hvalues : (a.override b).values = a.values ∨ (a.override b).values = b.values := by
      unfold Descriptor.values Descriptor.override
      cases b.filter with
      | none => exact .inl rfl
      | some f => exact .inr rfl
    rcases hvalues with h | h
    · rw [h]
      exact ha.values
    · rw [h]
      exact hb.values
  limit n hn := (mem_override hn).elim (ha.limit n) (hb.limit n)
  offset n hn := (mem_override hn).elim (ha.offset n) (hb.offset n)

end Descriptor

/-- The descriptor of one call is in range. -/
theorem Invocation.descriptor_inRange {mode : IntegerMode} {i : Invocation} {d : Descriptor}
    (h : i.descriptor mode = .ok d) : d.InRange := by
  obtain ⟨directive, arguments, offset⟩ := i
  cases directive with
  | filter =>
    rw [descriptor_filter] at h
    obtain ⟨f, hf, rfl⟩ := except_map_eq_ok.1 h
    refine ⟨fun v hv => ?_, nofun, nofun⟩
    obtain ⟨l, hl, hv⟩ := List.mem_flatMap.1 hv
    exact Arguments.filter_leaves Expression.fitsWord_of_comparison hf l hl v hv
  | limit =>
    obtain ⟨n, hn, rfl⟩ := except_map_eq_ok.1 h
    refine ⟨List.forall_mem_nil _, ?_, nofun⟩
    rintro m ⟨⟩
    exact Arguments.count_lt hn
  | offset =>
    obtain ⟨n, hn, rfl⟩ := except_map_eq_ok.1 h
    refine ⟨List.forall_mem_nil _, nofun, ?_⟩
    rintro m ⟨⟩
    exact Arguments.count_lt hn
  | select | order | extend =>
    obtain ⟨part, -, rfl⟩ := except_map_eq_ok.1 h
    exact ⟨List.forall_mem_nil _, nofun, nofun⟩

namespace Descriptor

variable {options : CompileOptions}

theorem ofElements_inRange {seen : List Directive} {es : List Expression} {d : Descriptor}
    (h : ofElements options seen es = .ok d) : d.InRange := by
  induction es generalizing seen d with
  | nil =>
    cases h
    exact inRange_empty
  | cons e es ih =>
    obtain ⟨directive, arguments, offset, part, rest, -, -, hpart, hrest, rfl⟩ :=
      ofElements_cons_eq_ok.1 h
    exact (Invocation.descriptor_inRange hpart).override (ih hrest)

theorem ofExpression_inRange {e : Expression} {d : Descriptor}
    (h : ofExpression options e = .ok d) : d.InRange := by
  obtain ⟨es, -, hd⟩ := except_bind_eq_ok.1 h
  exact ofElements_inRange hd

/-- What a query compiles to is read back from both of its texts, with null in the place of the
numbers that are not finite. -/
theorem ofText?_of_ofQuery {query : String} {d : Descriptor} (h : ofQuery options query = .ok d) :
    ofText? d.toJson.compact = some d.onWire ∧ ofText? d.toJson.indented = some d.onWire := by
  rw [ofQuery_eq] at h
  split at h
  · cases h
  · obtain ⟨e, -, hd⟩ := except_bind_eq_ok.1 h
    have hexact := exact_toJson (ofExpression_inRange hd)
    exact ⟨ofText?_of_json (Json.ofText?_compact hexact),
      ofText?_of_json (Json.ofText?_indented hexact)⟩

end Descriptor

end DirectiveQuery
