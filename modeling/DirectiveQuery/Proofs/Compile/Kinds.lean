import Mathlib.Data.List.Forall2
import DirectiveQuery.Proofs.Binary64.Overflow
import DirectiveQuery.Proofs.Compile.Pointing
import DirectiveQuery.Proofs.Compile.Shape
import DirectiveQuery.Proofs.Descriptor.Wire

/-
  What becomes of the scalars that a query compares with. Each of them has one place in the JSON
  of the descriptor, in the order of the query: the last call of `where` decides the filter, every
  comparison gives a leaf with the values of its right-hand side, and neither the negations nor
  the normal form move a leaf past another one. There it has the kind of its literal, but for
  numbers that are beyond the format: those are read as infinities, for which JSON has no number,
  and become null.
-/
namespace DirectiveQuery

open Text (slice)

/-! ## Kinds of JSON values -/

/-- The kinds of JSON values. -/
inductive Json.Kind where
  | null
  | boolean
  | number
  | string
  | array
  | object
deriving DecidableEq, Repr

/-- The kind of a value. -/
def Json.kind : Json → Kind
  | null => .null
  | boolean _ => .boolean
  | integer _ | number _ _ => .number
  | string _ => .string
  | array _ => .array
  | object _ => .object

namespace Json

mutual

/-- The values in a value that are neither arrays nor objects, from left to right. -/
def scalars : Json → List Json
  | array elements => scalarsAll elements
  | object members => scalarsOf members
  | value => [value]

/-- The scalars of the elements of an array. -/
def scalarsAll : List Json → List Json
  | [] => []
  | e :: es => scalars e ++ scalarsAll es

/-- The scalars of the members of an object. -/
def scalarsOf : List (String × Json) → List Json
  | [] => []
  | (_, value) :: members => scalars value ++ scalarsOf members

end

theorem scalars_member (key : String) (value : Json) :
    (object [(key, value)]).scalars = value.scalars := by
  rw [scalars, scalarsOf, scalarsOf, List.append_nil]

end Json

theorem Value.scalars_toJson (v : Value) : v.toJson.scalars = [v.toJson] := by
  cases v with
  | float x => cases x <;> simp only [toJson, Json.ofBinary64, Json.scalars]
  | integer n | string text | boolean b | null => simp only [toJson, Json.scalars]

theorem Operand.scalars_toJson (o : Operand) : o.toJson.scalars = o.values.map Value.toJson := by
  cases o with
  | scalar v => exact v.scalars_toJson
  | list vs =>
    rw [toJson, Json.scalars, values]
    induction vs with
    | nil => rfl
    | cons v vs ih => rw [List.map_cons, Json.scalarsAll, v.scalars_toJson, ih]; rfl

namespace Filter

mutual

/-- The scalars in the JSON of a filter are the values that it compares with. -/
theorem scalars_toJson : ∀ f : Filter, f.toJson.scalars = f.values.map Value.toJson
  | leaf l => by
    rw [toJson, Json.scalars_member, Json.scalars_member, Operand.scalars_toJson, values, leaves,
      List.flatMap_singleton]
  | combined c fs => by
    rw [toJson, Json.scalars_member, Json.scalars, scalarsAll_toJsonAll fs]
    rfl

theorem scalarsAll_toJsonAll : ∀ fs : List Filter, Json.scalarsAll (toJsonAll fs) =
    ((leavesAll fs).flatMap fun l => l.operand.values).map Value.toJson
  | [] => by rw [toJsonAll, Json.scalarsAll, leavesAll]; rfl
  | f :: fs => by
    rw [toJsonAll, Json.scalarsAll, scalars_toJson f, scalarsAll_toJsonAll fs, leavesAll,
      List.flatMap_append, List.map_append]
    rfl

end

end Filter

/-! ## Scalars of a query -/

namespace Expression

/-- The scalars of the right-hand side of a comparison: the elements of an array, or what stands
there alone. -/
def operandScalars : Expression → List Expression
  | array elements _ => elements
  | e => [e]

/-- The scalars that a condition compares with, from left to right. -/
def comparedScalars : Expression → List Expression
  | unary _ e _ => comparedScalars e
  | binary _ _ right _ => right.operandScalars
  | logical left _ right _ => comparedScalars left ++ comparedScalars right
  | _ => []

/-- The conditions of a call of `where`. -/
def conditions? : Expression → Option Arguments
  | call (identifier name _) arguments _ =>
    if name = Directive.filter.name then some arguments else none
  | _ => none

/-- What stands at the top level: the elements of a sequence, or the tree alone. -/
def atTop : Expression → List Expression
  | sequence elements _ => elements
  | e => [e]

/-- The conditions of the last call of `where` at the top level. -/
def lastConditions? (e : Expression) : Option Arguments := (e.atTop.filterMap conditions?).getLast?

theorem operand_scalars {operator : Comparison} {e : Expression} {o : Operand}
    (h : e.operand operator = .ok o) :
    e.operandScalars.map Value.ofExpression? = o.values.map some := by
  cases e with
  | array es s =>
    obtain ⟨-, vs, hvs, rfl⟩ := operand_array.1 h
    exact hvs
  | _ =>
    obtain ⟨-, v, hv, rfl⟩ := (operand_eq_ok_of_scalar (by rintro es s ⟨⟩)).1 h
    simp only [operandScalars, List.map_singleton, hv, Operand.values]

/-- The values of a condition are those of its scalars, whatever negations are around it. -/
theorem condition_scalars {inverted : Bool} {e : Expression} {f : Filter}
    (h : e.condition inverted = .ok f) :
    e.comparedScalars.map Value.ofExpression? = f.values.map some := by
  rw [condition_eq_ok] at h
  induction h with
  | negated s _ ih => exact ih
  | compared s hl =>
    unfold comparison at hl
    split at hl
    · cases hl
    · obtain ⟨o, ho, rfl⟩ := except_map_eq_ok.1 hl
      rw [comparedScalars, operand_scalars ho, Filter.values, Filter.leaves,
        List.flatMap_singleton]
  | joined c s _ _ ihf ihg =>
    rw [comparedScalars, List.map_append, ihf, ihg]
    simp only [Filter.values, Filter.leaves, Filter.leavesAll, List.append_nil,
      List.flatMap_append, List.map_append]

/-- The scalars of a condition are nodes of it. -/
theorem isNode_of_mem_comparedScalars {e m : Expression} (h : m ∈ e.comparedScalars) :
    IsNode m e := by
  fun_induction comparedScalars e with
  | case1 mark e s ih => exact (ih h).trans (.child (List.mem_singleton_self e))
  | case2 left operator right s =>
    have hright : IsNode right (binary left operator right s) := .child (by simp [children])
    cases right with
    | array es t => exact (IsNode.child h).trans hright
    | _ =>
      obtain rfl := List.mem_singleton.1 h
      exact hright
  | case3 left c right s ihl ihr =>
    rcases List.mem_append.1 h with h | h
    · exact (ihl h).trans (.child (by simp [children]))
    · exact (ihr h).trans (.child (by simp [children]))
  | case4 => cases h

theorem isNode_of_conditions? {e m : Expression} {conditions : Arguments}
    (h : e.conditions? = some conditions) (hm : m ∈ conditions) : IsNode m e := by
  unfold conditions? at h
  split at h
  · split at h
    · cases h
      exact .child (List.mem_cons_of_mem _ hm)
    · cases h
  · cases h

theorem isNode_of_lastConditions? {tree m : Expression} {conditions : Arguments}
    (h : tree.lastConditions? = some conditions) (hm : m ∈ conditions) : IsNode m tree := by
  obtain ⟨e, he, hconditions⟩ := List.mem_filterMap.1 (List.mem_of_getLast? h)
  refine (isNode_of_conditions? hconditions hm).trans ?_
  cases tree with
  | sequence elements s => exact .child he
  | _ =>
    obtain rfl := List.mem_singleton.1 he
    exact .root _

end Expression

/-- The values of a filter are those of the scalars of its conditions. -/
theorem Arguments.filter_scalars {arguments : Arguments} {f : Filter}
    (h : arguments.filter = .ok f) :
    (arguments.flatMap Expression.comparedScalars).map Value.ofExpression? =
      f.values.map some := by
  obtain ⟨-, fs, hfs, rfl⟩ := filter_eq_ok h
  rw [Filter.values, Filter.leaves_normalize, Filter.leaves_conjunction]
  clear h
  induction arguments generalizing fs with
  | nil =>
    cases hfs
    rfl
  | cons e es ih =>
    rw [conditions_cons] at hfs
    obtain ⟨f, hf, hfs⟩ := except_bind_eq_ok.1 hfs
    obtain ⟨gs, hgs, hfs⟩ := except_bind_eq_ok.1 hfs
    cases hfs
    rw [List.flatMap_cons, List.map_append, Expression.condition_scalars hf, ih gs hgs,
      Filter.leavesAll, List.flatMap_append, List.map_append]
    rfl

theorem Expression.conditions?_call (d : Directive) (arguments : Arguments) (s t : Span) :
    (call (identifier d.name s) arguments t).conditions? =
      if d = .filter then some arguments else none := by
  cases d <;> rfl

namespace Descriptor

variable {options : CompileOptions} {d : Descriptor}

/-- The filter is what the conditions give, if there are any. -/
def IsFiltered (d : Descriptor) (conditions? : Option Arguments) : Prop :=
  Option.Rel (fun conditions f => conditions.filter = .ok f) conditions? d.filter

theorem isFiltered_of_descriptor {mode : IntegerMode} {i : Invocation}
    (h : i.descriptor mode = .ok d) :
    d.IsFiltered (if i.directive = .filter then some i.arguments else none) := by
  obtain ⟨directive, arguments, n⟩ := i
  cases directive with
  | filter =>
    rw [Invocation.descriptor_filter] at h
    obtain ⟨f, hf, rfl⟩ := except_map_eq_ok.1 h
    exact .some hf
  | _ =>
    obtain ⟨a, -, rfl⟩ := except_map_eq_ok.1 h
    exact .none

/-- The conditions of a later call take the place of those before it. -/
theorem IsFiltered.override {a b : Descriptor} {earlier later : Option Arguments}
    (ha : a.IsFiltered earlier) (hb : b.IsFiltered later) :
    (a.override b).IsFiltered (later.or earlier) := by
  unfold IsFiltered Descriptor.override at *
  generalize b.filter = f at *
  cases hb with
  | none => exact ha
  | some h => exact .some h

theorem ofElements_isFiltered {seen : List Directive} {es : List Expression}
    (h : ofElements options seen es = .ok d) :
    d.IsFiltered (es.filterMap Expression.conditions?).getLast? := by
  induction es generalizing seen d with
  | nil =>
    cases h
    exact .none
  | cons e es ih =>
    obtain ⟨directive, arguments, n, part, rest, hi, -, hpart, hrest, rfl⟩ :=
      ofElements_cons_eq_ok.1 h
    obtain ⟨s, t, rfl, -⟩ := Invocation.ofExpression_eq_ok.1 hi
    have h := (isFiltered_of_descriptor hpart).override (ih hrest)
    rw [List.filterMap_cons, Expression.conditions?_call]
    by_cases hd : directive = .filter
    · rw [if_pos hd] at h ⊢
      show IsFiltered _ ([arguments] ++ es.filterMap Expression.conditions?).getLast?
      rw [List.getLast?_append]
      exact h
    · rw [if_neg hd, Option.or_none] at h
      rw [if_neg hd]
      exact h

/-- The filter is that of the last call of `where`. -/
theorem ofExpression_isFiltered {tree : Expression} (h : ofExpression options tree = .ok d) :
    d.IsFiltered tree.lastConditions? := by
  obtain ⟨es, hes, hd⟩ := except_bind_eq_ok.1 h
  have hfiltered := ofElements_isFiltered hd
  cases tree with
  | sequence | call =>
    cases hes
    exact hfiltered
  | _ => cases hes

end Descriptor

/-! ## Kinds of scalars -/

/-- The kind of a literal. -/
def Literal.kind : Literal → Json.Kind
  | string _ => .string
  | number _ => .number
  | boolean _ => .boolean
  | null => .null

namespace Expression

/-- The kind of the literal that a scalar is, behind a sign or without one. -/
def literalKind? : Expression → Option Json.Kind
  | literal value _ => some value.kind
  | unary _ e _ => e.literalKind?
  | _ => none

/-- The scalar is a number that is at least half a step beyond the largest number of the format,
by the digits that stand in the text. -/
def IsBeyond (text : List Char) : Expression → Prop
  | literal (.number _) s => ∃ numeral : Numeral,
    Numeral.ofText? (slice text s.start s.stop) = some numeral ∧
      (Magnitude.overflow : ℚ) ≤ numeral.value
  | unary _ e _ => e.IsBeyond text
  | _ => False

/-- The JSON value stands for the scalar: it is of the same kind, or null for such a number. -/
def IsWrittenAs (text : List Char) (e : Expression) (value : Json) : Prop :=
  (¬e.IsBeyond text → e.literalKind? = some value.kind) ∧ (e.IsBeyond text → value = .null)

variable {text : List Char} {x : Binary64}

/-- A number is spelled by a numeral, and is the nearest one to it. -/
theorem exists_numeral_of_isSpelled {s : Span} (h : IsSpelled text (literal (.number x) s)) :
    ∃ numeral : Numeral, Numeral.ofText? (slice text s.start s.stop) = some numeral ∧
      numeral.toBinary64 false = x := by
  have h : Token.Spelling (slice text s.start s.stop) (.literal (.number x)) := h
  generalize slice text s.start s.stop = part at *
  generalize ht : Token.literal (.number x) = token at h
  cases h with
  | fixed hm =>
    subst ht
    simp [Token.fixed] at hm
  | identifier => cases ht
  | string => cases ht
  | number _ hn =>
    cases ht
    exact ⟨_, hn, rfl⟩

theorem isFinite_iff_not_isBeyond {s : Span} (h : IsSpelled text (literal (.number x) s)) :
    x.isFinite = true ↔ ¬(literal (.number x) s).IsBeyond text := by
  obtain ⟨numeral, hnumeral, rfl⟩ := exists_numeral_of_isSpelled h
  rw [Numeral.isFinite_toBinary64, ← not_le]
  simp only [IsBeyond, hnumeral, Option.some.injEq, exists_eq_left']

end Expression

/-- Finite numbers are written as numbers, and all others as null. -/
theorem Value.toJson_ofNumber (x : Binary64) :
    (x.isFinite = true → (ofNumber x).toJson.kind = .number) ∧
      (x.isFinite = false → (ofNumber x).toJson = .null) := by
  cases x with
  | finite negative m =>
    refine ⟨fun _ => ?_, nofun⟩
    unfold ofNumber
    split
    · split <;> rfl
    · rfl
  | nan | infinite => exact ⟨nofun, fun _ => rfl⟩

namespace Expression

variable {text : List Char}

theorem isWrittenAs_number {x y : Binary64} {s : Span}
    (h : IsSpelled text (literal (.number x) s)) (hy : y.isFinite = x.isFinite) :
    (literal (.number x) s).IsWrittenAs text (Value.ofNumber y).toJson := by
  have hfinite := isFinite_iff_not_isBeyond h
  obtain ⟨hnumber, hnull⟩ := Value.toJson_ofNumber y
  rw [hy] at hnumber hnull
  constructor
  · intro hwithin
    exact congrArg some (hnumber (hfinite.2 hwithin)).symm
  · intro hbeyond
    refine hnull ?_
    rw [← Bool.not_eq_true, hfinite]
    exact not_not.2 hbeyond

/-- The value of a scalar is written with the kind of its literal. -/
theorem isWrittenAs_of_ofExpression? {e : Expression} {v : Value}
    (h : Value.ofExpression? e = some v) (hs : ∀ node, IsNode node e → node.IsSpelled text) :
    e.IsWrittenAs text v.toJson := by
  cases Value.ofExpression?_eq_some.1 h with
  | literal l s =>
    cases l with
    | number x => exact isWrittenAs_number (hs _ (.root _)) rfl
    | string | boolean | null => exact ⟨fun _ => rfl, nofun⟩
  | plus x s t => exact isWrittenAs_number (hs _ (.child (by simp [children]))) rfl
  | minus x s t =>
    exact isWrittenAs_number (hs (literal (.number x) s) (.child (by simp [children])))
      x.isFinite_negate

end Expression

/-- What holds of every element and its value holds all along the list. -/
theorem forall₂_of_map_eq_some {α β : Type} {f : α → Option β} {P : α → β → Prop}
    {as : List α} {bs : List β} (h : as.map f = bs.map some)
    (hP : ∀ a ∈ as, ∀ b, f a = some b → P a b) : List.Forall₂ P as bs := by
  induction as generalizing bs with
  | nil =>
    obtain rfl : bs = [] := by simpa using h.symm
    exact .nil
  | cons a as ih =>
    cases bs with
    | nil => cases h
    | cons b bs =>
      rw [List.map_cons, List.map_cons, List.cons.injEq] at h
      obtain ⟨hhead, htail⟩ := List.forall_mem_cons.1 hP
      exact .cons (hhead b h.1) (ih h.2 htail)

/-- What a query that compiles writes for its scalars. The `where` of the descriptor is there if
the query calls `where`, and its scalars are, one by one, those that the last call compares with:
of the kind of the literal, and null where a number is beyond the format. -/
theorem Descriptor.ofQuery_keeps_kinds {options : CompileOptions} {query : String}
    {d : Descriptor} (h : ofQuery options query = .ok d) :
    ∃ tree members, Expression.parse query = .ok tree ∧ d.toJson = .object members ∧
      Option.Rel (fun conditions written =>
          List.Forall₂ (Expression.IsWrittenAs query.toList)
            (conditions.flatMap Expression.comparedScalars) written.scalars)
        tree.lastConditions? (Json.field? "where" members) := by
  rw [ofQuery_eq] at h
  split at h
  · cases h
  obtain ⟨tree, htree, hd⟩ := except_bind_eq_ok.1 h
  have hparse : Expression.parse query = .ok tree := except_mapError_eq_ok.1 htree
  obtain ⟨members, hmembers, -, hwhere, -⟩ := d.exists_members
  have hfiltered := ofExpression_isFiltered hd
  refine ⟨tree, members, hparse, hmembers, ?_⟩
  rw [hwhere]
  unfold IsFiltered at hfiltered
  generalize hlast : tree.lastConditions? = last at hfiltered
  generalize d.filter = f at hfiltered
  cases hfiltered with
  | none => exact .none
  | @some conditions f hf =>
    refine .some ?_
    rw [Filter.scalars_toJson, List.forall₂_map_right_iff]
    refine forall₂_of_map_eq_some (Arguments.filter_scalars hf) fun e he v hv => ?_
    refine Expression.isWrittenAs_of_ofExpression? hv fun node hn => ?_
    obtain ⟨condition, hcondition, hmem⟩ := List.mem_flatMap.1 he
    have hscalar := (Expression.isNode_of_mem_comparedScalars hmem).trans
      (Expression.isNode_of_lastConditions? hlast hcondition)
    obtain ⟨placed, i, j, hp, rfl⟩ :=
      Expression.exists_placed_of_parse hparse (hn.trans hscalar)
    exact hp.isSpelled

theorem Descriptor.ofQuery_keeps_kinds_of_list :
    ∃ d tree members, ofQuery {} "where(!(a in ['1', -2, 1e999, null]))" = .ok d ∧
      Expression.parse "where(!(a in ['1', -2, 1e999, null]))" = .ok tree ∧
      d.toJson = .object members ∧
      Option.Rel (fun conditions written =>
          List.Forall₂ (Expression.IsWrittenAs "where(!(a in ['1', -2, 1e999, null]))".toList)
            (conditions.flatMap Expression.comparedScalars) written.scalars)
        tree.lastConditions? (Json.field? "where" members) := by
  have hcompiles : (ofQuery {} "where(!(a in ['1', -2, 1e999, null]))").toOption.isSome := by
    decide +kernel
  obtain ⟨d, hd⟩ := Option.isSome_iff_exists.1 hcompiles
  have h := except_toOption_eq_some.1 hd
  obtain ⟨tree, members, hkinds⟩ := ofQuery_keeps_kinds h
  exact ⟨d, tree, members, h, hkinds⟩

/-- A number in the query, and null in the descriptor. -/
theorem Descriptor.ofQuery_loses_number :
    (((Expression.parse "where(a == 1e999)").toOption.bind Expression.lastConditions?).map
        fun conditions => (conditions.flatMap Expression.comparedScalars).map
          Expression.literalKind?) = some [some .number] ∧
      (((ofQuery {} "where(a == 1e999)").toOption.bind filter).map
        fun f => f.toJson.scalars.map Json.kind) = some [.null] := by
  decide +kernel

end DirectiveQuery
