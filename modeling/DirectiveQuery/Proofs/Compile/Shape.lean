import DirectiveQuery.Proofs.Compile.Steps
import DirectiveQuery.Proofs.Filter.NormalForm

/-
  The shape of compiled descriptors. Whatever tree is compiled, its filter and the fields that
  the filter reads are there together and fit each other, the filter is in normal form with
  lists exactly where membership is asked, and a part is there exactly if its directive is
  called. Each call alone gives a descriptor of that shape (`Invocation.descriptor_wellShaped`),
  and overriding keeps it (`WellShaped.override`), since the filter and its fields are replaced
  together; so it holds of any number of calls, repeated directives included.
-/
namespace DirectiveQuery

/-! ## Conditions -/

/-- The operand is a list exactly if the operator takes one. -/
def Leaf.FitsOperand (l : Leaf) : Prop :=
  l.operand.isList = true ↔ l.operator = .member ∨ l.operator = .nonMember

theorem Comparison.isMembership_iff {c : Comparison} :
    c.isMembership = true ↔ c = .member ∨ c = .nonMember := by
  cases c <;> decide

namespace Expression

theorem isList_of_operand {operator : Comparison} {e : Expression} {v : Operand}
    (h : e.operand operator = .ok v) : v.isList = operator.isMembership := by
  cases e with
  | array es s =>
    obtain ⟨hm, vs, -, rfl⟩ := operand_array.1 h
    rw [hm]
    rfl
  | _ =>
    obtain ⟨hm, w, -, rfl⟩ := (operand_eq_ok_of_scalar (by rintro es s ⟨⟩)).1 h
    rw [hm]
    rfl

theorem fitsOperand_of_comparison {left right : Expression} {operator : Comparison} {l : Leaf}
    (h : comparison left operator right = .ok l) : l.FitsOperand := by
  unfold comparison at h
  split at h
  · cases h
  · obtain ⟨v, hv, rfl⟩ := except_map_eq_ok.1 h
    rw [Leaf.FitsOperand, isList_of_operand hv]
    exact Comparison.isMembership_iff

/-- What holds of every comparison that compiles holds of the leaves of a condition. -/
theorem condition_leaves {P : Leaf → Prop}
    (hP : ∀ {left operator right l}, comparison left operator right = .ok l → P l)
    {inverted : Bool} {e : Expression} {f : Filter} (h : e.condition inverted = .ok f) :
    ∀ l ∈ f.leaves, P l := by
  rw [condition_eq_ok] at h
  induction h with
  | negated s _ ih => exact ih
  | compared s hl => exact List.forall_mem_singleton.2 (hP hl)
  | joined c s _ _ ihf ihg =>
    intro l hl
    simp only [Filter.leaves, Filter.leavesAll, List.append_nil, List.mem_append] at hl
    exact hl.elim (ihf l) (ihg l)

/-- The filter of a condition combines two by two. -/
theorem condition_branching {inverted : Bool} {e : Expression} {f : Filter}
    (h : e.condition inverted = .ok f) : f.IsBranching := by
  rw [condition_eq_ok] at h
  induction h with
  | negated s _ ih => exact ih
  | compared s _ => exact .leaf _
  | joined c s _ _ ihf ihg => exact .combined (Nat.le_refl 2) (by simp [ihf, ihg])

end Expression

theorem Filter.conjunction_branching {fs : List Filter} (hne : fs ≠ [])
    (h : ∀ f ∈ fs, f.IsBranching) : (conjunction fs).IsBranching := by
  match fs with
  | [] => exact absurd rfl hne
  | [f] => exact h f List.mem_cons_self
  | f :: g :: fs => exact .combined (by simp) h

namespace Arguments

/-- Each argument of `where` gives a filter. -/
theorem conditions_eq_ok {arguments : Arguments} {fs : List Filter}
    (h : arguments.conditions = .ok fs) : fs.length = arguments.length ∧
      ∀ f ∈ fs, ∃ e, Expression.condition false e = .ok f := by
  induction arguments generalizing fs with
  | nil =>
    cases h
    exact ⟨rfl, List.forall_mem_nil _⟩
  | cons e es ih =>
    rw [conditions_cons] at h
    obtain ⟨f, hf, h⟩ := except_bind_eq_ok.1 h
    obtain ⟨gs, hgs, h⟩ := except_bind_eq_ok.1 h
    cases h
    obtain ⟨hlength, hconditions⟩ := ih hgs
    exact ⟨by rw [List.length_cons, List.length_cons, hlength],
      List.forall_mem_cons.2 ⟨⟨e, hf⟩, hconditions⟩⟩

theorem filter_isNormal {arguments : Arguments} {f : Filter} (h : arguments.filter = .ok f) :
    f.IsNormal := by
  obtain ⟨hne, fs, hfs, rfl⟩ := filter_eq_ok h
  obtain ⟨hlength, hconditions⟩ := conditions_eq_ok hfs
  have hfne : fs ≠ [] := by
    rintro rfl
    exact hne (List.length_eq_zero_iff.1 hlength.symm)
  refine Filter.isNormal_normalize (Filter.conjunction_branching hfne fun f hf => ?_)
  obtain ⟨e, he⟩ := hconditions f hf
  exact Expression.condition_branching he

/-- What holds of every comparison that compiles holds of the leaves of a filter. -/
theorem filter_leaves {P : Leaf → Prop}
    (hP : ∀ {left operator right l}, Expression.comparison left operator right = .ok l → P l)
    {arguments : Arguments} {f : Filter} (h : arguments.filter = .ok f) :
    ∀ l ∈ f.leaves, P l := by
  obtain ⟨-, fs, hfs, rfl⟩ := filter_eq_ok h
  rw [Filter.leaves_normalize, Filter.leaves_conjunction]
  intro l hl
  obtain ⟨f, hf, hl⟩ := Filter.mem_leavesAll.1 hl
  obtain ⟨e, he⟩ := (conditions_eq_ok hfs).2 f hf
  exact Expression.condition_leaves hP he l hl

end Arguments

/-! ## Descriptors -/

namespace Descriptor

/-- The part that the directive asks for is there. -/
def has (d : Descriptor) : Directive → Bool
  | .select => d.select.isSome
  | .filter => d.filter.isSome
  | .order => d.order.isSome
  | .extend => d.extend.isSome
  | .limit => d.limit.isSome
  | .offset => d.offset.isSome

/-- The filter and the fields that it reads are there together and fit each other. The filter is
in normal form, and its leaves have lists exactly where membership is asked. -/
structure WellShaped (d : Descriptor) : Prop where
  together : d.filter.isSome = d.filterFields.isSome
  nodup : ∀ fields, d.filterFields = some fields → fields.Nodup
  mem_fields : ∀ f fields, d.filter = some f → d.filterFields = some fields →
    ∀ field, field ∈ fields ↔ ∃ l ∈ f.leaves, l.field = field
  normal : ∀ f, d.filter = some f → f.IsNormal
  fitting : ∀ f, d.filter = some f → ∀ l ∈ f.leaves, l.FitsOperand

theorem wellShaped_of_none {d : Descriptor} (hf : d.filter = none)
    (hfields : d.filterFields = none) : d.WellShaped := by
  constructor <;> simp [hf, hfields]

theorem wellShaped_of_some {d : Descriptor} {f : Filter} (hf : d.filter = some f)
    (hfields : d.filterFields = some f.fields) (hnormal : f.IsNormal)
    (hfitting : ∀ l ∈ f.leaves, l.FitsOperand) : d.WellShaped := by
  constructor
  · rw [hf, hfields]
    rfl
  · rintro fields h
    rw [hfields] at h
    cases h
    exact f.nodup_fields
  · rintro g fields hg h field
    rw [hf] at hg
    rw [hfields] at h
    cases hg
    cases h
    exact Filter.mem_fields
  · rintro g hg
    rw [hf] at hg
    cases hg
    exact hnormal
  · rintro g hg
    rw [hf] at hg
    cases hg
    exact hfitting

theorem WellShaped.congr {a b : Descriptor} (h : a.WellShaped) (hf : b.filter = a.filter)
    (hfields : b.filterFields = a.filterFields) : b.WellShaped :=
  ⟨by rw [hf, hfields, h.together], by rw [hfields]; exact h.nodup,
    by rw [hf, hfields]; exact h.mem_fields, by rw [hf]; exact h.normal,
    by rw [hf]; exact h.fitting⟩

/-- The later filter comes with its own fields. -/
theorem WellShaped.override {a b : Descriptor} (ha : a.WellShaped) (hb : b.WellShaped) :
    (a.override b).WellShaped := by
  have htogether := hb.together
  cases hf : b.filter with
  | none =>
    have hfields : b.filterFields = none := by simpa [hf] using htogether
    exact ha.congr (by simp [Descriptor.override, hf]) (by simp [Descriptor.override, hfields])
  | some f =>
    obtain ⟨fields, hfields⟩ : ∃ fields, b.filterFields = some fields := by
      rw [hf] at htogether
      exact Option.isSome_iff_exists.1 htogether.symm
    exact hb.congr (by simp [Descriptor.override, hf]) (by simp [Descriptor.override, hfields])

theorem has_override (a b : Descriptor) (x : Directive) :
    (a.override b).has x = (b.has x || a.has x) := by
  cases x <;> simp [has, override, Option.isSome_or]

theorem has_empty (x : Directive) : empty.has x = false := by cases x <;> rfl

end Descriptor

namespace Invocation

/-- A call alone gives the part of its directive and no other one. -/
theorem descriptor_wellShaped {mode : IntegerMode} {i : Invocation} {d : Descriptor}
    (h : i.descriptor mode = .ok d) :
    d.WellShaped ∧ ∀ x, d.has x = true ↔ i.directive = x := by
  obtain ⟨directive, arguments, offset⟩ := i
  cases directive with
  | filter =>
    rw [descriptor_filter] at h
    obtain ⟨f, hf, rfl⟩ := except_map_eq_ok.1 h
    have hfitting := Arguments.filter_leaves Expression.fitsOperand_of_comparison hf
    refine ⟨Descriptor.wellShaped_of_some rfl rfl (Arguments.filter_isNormal hf) hfitting,
      fun x => ?_⟩
    · cases x <;> simp [Descriptor.has]
  | _ =>
    obtain ⟨part, -, rfl⟩ := except_map_eq_ok.1 h
    refine ⟨Descriptor.wellShaped_of_none rfl rfl, fun x => ?_⟩
    cases x <;> simp [Descriptor.has]

end Invocation

namespace Expression

/-- The expression is a call of the directive by its bare name. -/
def IsCallOf (x : Directive) : Expression → Prop
  | call (identifier name _) _ _ => name = x.name
  | _ => False

/-- The tree is a call of the directive, or a sequence with such a call among its elements. -/
def CallsAtTop (x : Directive) : Expression → Prop
  | sequence elements _ => ∃ e ∈ elements, e.IsCallOf x
  | e => e.IsCallOf x

theorem isCallOf_of_invocation {e : Expression} {i : Invocation}
    (h : Invocation.ofExpression e = .ok i) (x : Directive) : e.IsCallOf x ↔ i.directive = x := by
  obtain ⟨directive, arguments, n⟩ := i
  obtain ⟨s, t, rfl, rfl⟩ := Invocation.ofExpression_eq_ok.1 h
  exact ⟨Directive.name_injective, congrArg Directive.name⟩

theorem callsAtTop_of_topLevel {e : Expression} {es : List Expression} (h : e.topLevel = .ok es)
    (x : Directive) : e.CallsAtTop x ↔ ∃ m ∈ es, m.IsCallOf x := by
  cases e with
  | call callee arguments s =>
    cases h
    simp [CallsAtTop]
  | sequence elements s =>
    cases h
    rfl
  | _ => cases h

end Expression

namespace Descriptor

theorem ofElements_wellShaped {options : CompileOptions} {seen : List Directive}
    {es : List Expression} {d : Descriptor} (h : ofElements options seen es = .ok d) :
    d.WellShaped ∧ ∀ x, d.has x = true ↔ ∃ e ∈ es, e.IsCallOf x := by
  induction es generalizing seen d with
  | nil =>
    cases h
    exact ⟨wellShaped_of_none rfl rfl, fun x => by simp [has_empty]⟩
  | cons e es ih =>
    obtain ⟨directive, args, offset, part, rest, hi, -, hpart, hrest, rfl⟩ :=
      ofElements_cons_eq_ok.1 h
    obtain ⟨hshape, hhas⟩ := Invocation.descriptor_wellShaped hpart
    obtain ⟨hshapes, hhasRest⟩ := ih hrest
    refine ⟨hshape.override hshapes, fun x => ?_⟩
    have he := Expression.isCallOf_of_invocation hi x
    rw [has_override, Bool.or_eq_true, hhas, hhasRest, ← he, or_comm]
    simp

/-- A tree that compiles, whatever the options are, gives a descriptor whose filter and fields
fit each other and whose parts are those of the directives that are called at the top level. -/
theorem ofExpression_wellShaped {options : CompileOptions} {e : Expression} {d : Descriptor}
    (h : ofExpression options e = .ok d) :
    d.WellShaped ∧ ∀ x, d.has x = true ↔ e.CallsAtTop x := by
  obtain ⟨es, hes, hd⟩ := except_bind_eq_ok.1 h
  obtain ⟨hshape, hhas⟩ := ofElements_wellShaped hd
  exact ⟨hshape, fun x => (hhas x).trans (Expression.callsAtTop_of_topLevel hes x).symm⟩

/-- The tree of `where(a < "x"), select("b"), where(!(c in ["y"]) || (c == null || d > "z"))`. -/
def twoFilters (s : Span) : Expression :=
  let text (t : String) := Expression.literal (.string t) s
  let name (t : String) := Expression.identifier t s
  let first := Expression.binary (name "a") .less (text "x") s
  let listed := Expression.unary .not
    (.binary (name "c") .member (.array [text "y"] s) s) s
  let absent := Expression.binary (name "c") .equal (.literal .null s) s
  let greater := Expression.binary (name "d") .greater (text "z") s
  .sequence
    [.call (name "where") [first] s, .call (name "select") [text "b"] s,
      .call (name "where") [.logical listed .or (.logical absent .or greater s) s] s] s

/-- The second filter has replaced the first one, and its fields theirs. -/
def twoFiltersDescriptor : Descriptor where
  select := some ["b"]
  filter := some (.combined .or
    [.leaf ⟨"c", .nonMember, .list [.string "y"]⟩, .leaf ⟨"c", .equal, .scalar .null⟩,
      .leaf ⟨"d", .greater, .scalar (.string "z")⟩])
  filterFields := some ["c", "d"]

theorem ofExpression_wellShaped_twoFilters :
    ofExpression {} (twoFilters ⟨0, 0, 1, 1⟩) = .ok twoFiltersDescriptor ∧
      twoFiltersDescriptor.WellShaped ∧
      ∀ x, twoFiltersDescriptor.has x = true ↔ (twoFilters ⟨0, 0, 1, 1⟩).CallsAtTop x := by
  have h : ofExpression {} (twoFilters ⟨0, 0, 1, 1⟩) = .ok twoFiltersDescriptor := rfl
  exact ⟨h, ofExpression_wellShaped h⟩

end Descriptor

end DirectiveQuery
