import Mathlib.Data.List.Induction
import Mathlib.Data.List.Nodup
import DirectiveQuery.Compile.Condition
import DirectiveQuery.Proofs.Outcome

/-
  The fields that are collected while conditions are compiled. What was collected before has no
  say in the filter of a condition or in its error, and the condition adds the fields of the
  leaves of its filter, in their order (`compileCondition_adds`). So the filter can be looked at by
  itself (`condition`, `conditions`, `filter`), by the steps that are left without the collecting
  (`condition_logical`). The normal form keeps the leaves, so the fields of `where` are those of
  the leaves of its filter, each where it first occurs (`compileFilter_eq`).
-/
namespace DirectiveQuery

/-- The fields that a filter reads, in the order in which they first occur. -/
def Filter.fields (f : Filter) : List String := (f.leaves.map Leaf.field).eraseDups

theorem Filter.leaves_conjunction (fs : List Filter) : (conjunction fs).leaves = leavesAll fs := by
  match fs with
  | [] => rfl
  | [f] => rw [conjunction, leavesAll, leavesAll, List.append_nil]
  | f :: g :: fs => rfl

/-! ## Collecting -/

/-- Some fields, and those of some leaves in their order, as far as they are new. -/
def addFields (fields : List String) (leaves : List Leaf) : List String :=
  (leaves.map Leaf.field).foldl addField fields

theorem addFields_append (fields : List String) (ls ms : List Leaf) :
    addFields fields (ls ++ ms) = addFields (addFields fields ls) ms := by
  rw [addFields, List.map_append, List.foldl_append]
  rfl

/-- A field is not collected twice. -/
theorem nodup_addField {fields : List String} (h : fields.Nodup) (field : String) :
    (addField fields field).Nodup := by
  rw [addField]
  split
  · exact h
  · next hnew =>
    rw [← List.concat_eq_append]
    exact h.concat (by simpa using hnew)

theorem nodup_foldl_addField {fields : List String} (h : fields.Nodup) (names : List String) :
    (names.foldl addField fields).Nodup := by
  induction names generalizing fields with
  | nil => exact h
  | cons name names ih => exact ih (nodup_addField h name)

/-- Collected from the start, each field is where it first occurs. -/
theorem foldl_addField_nil (names : List String) : names.foldl addField [] = names.eraseDups := by
  induction names using List.reverseRecOn with
  | nil => rfl
  | append_singleton names name ih =>
    rw [List.foldl_append, ih, List.foldl_cons, List.foldl_nil, List.eraseDups_append, addField]
    by_cases h : name ∈ names
    · simp [List.removeAll, h]
    · simp [List.removeAll, h, List.eraseDups_cons]

theorem Filter.nodup_fields (f : Filter) : f.fields.Nodup := by
  rw [fields, ← foldl_addField_nil]
  exact nodup_foldl_addField .nil _

theorem Filter.mem_fields {f : Filter} {field : String} :
    field ∈ f.fields ↔ ∃ l ∈ f.leaves, l.field = field := by
  rw [fields, List.mem_eraseDups, List.mem_map]

/-- Whatever was collected before, the result is the same, and the fields of its leaves are
added. -/
def Adds {α : Type} (m : Collecting α) (leaves : α → List Leaf) : Prop :=
  ∀ fields, m.run fields = (m.run' []).map fun a => (a, addFields fields (leaves a))

section Adds

variable {α β γ : Type} {m : Collecting α} {n : Collecting β} {leavesOf : α → List Leaf}
  {leavesOf' : β → List Leaf} {leaves : γ → List Leaf} {combine : α → β → γ}

theorem Adds.run_both (hm : Adds m leavesOf) (hn : Adds n leavesOf') (fields : List String) :
    (do let a ← m; let b ← n; return combine a b : Collecting γ).run fields = do
      let a ← m.run' []
      let b ← n.run' []
      return (combine a b, addFields fields (leavesOf a ++ leavesOf' b)) := by
  rw [StateT.run_bind, hm]
  cases m.run' [] with
  | error err => rfl
  | ok a =>
    simp only [except_map_ok, except_bind_ok, StateT.run_bind, addFields_append]
    rw [hn]
    cases n.run' [] <;> rfl

/-- Of two results one after the other, the first one decides the error. -/
theorem Adds.run'_both (hm : Adds m leavesOf) (hn : Adds n leavesOf') :
    (do let a ← m; let b ← n; return combine a b : Collecting γ).run' [] = do
      let a ← m.run' []
      let b ← n.run' []
      return combine a b := by
  rw [StateT.run'_eq, hm.run_both hn]
  cases m.run' [] with
  | error err => rfl
  | ok a => cases n.run' [] <;> rfl

theorem Adds.both (hm : Adds m leavesOf) (hn : Adds n leavesOf')
    (h : ∀ a b, leaves (combine a b) = leavesOf a ++ leavesOf' b) :
    Adds (do let a ← m; let b ← n; return combine a b : Collecting γ) leaves := by
  intro fields
  rw [hm.run_both hn, hm.run'_both hn]
  cases m.run' [] with
  | error err => rfl
  | ok a =>
    cases n.run' [] with
    | error err => rfl
    | ok b =>
      simp only [except_bind_ok, ← h]
      rfl

end Adds

namespace Expression

variable {inverted : Bool}

/-- A condition adds the fields of the leaves of its filter. -/
theorem compileCondition_adds (inverted : Bool) (e : Expression) :
    Adds (e.compileCondition inverted) Filter.leaves := by
  fun_induction compileCondition inverted e with
  | case1 inverted e s ih => exact ih
  | case3 inverted left operator right s resolved h =>
    intro fields
    cases comparison left resolved right <;> rfl
  | case5 inverted left operator right s resolved h ihl ihr =>
    exact ihl.both ihr fun f g => by simp only [Filter.leaves, Filter.leavesAll, List.append_nil]
  | case2 | case4 | case6 | case7 => exact fun _ => rfl

/-- The filter of a condition by itself. -/
def condition (inverted : Bool) (e : Expression) : Except CompileError Filter :=
  (e.compileCondition inverted).run' []

/-- The expression is no operand with a mark, no comparison and no two conditions with a
connective between them. -/
def IsPlain : Expression → Prop
  | unary .. | binary .. | logical .. => False
  | _ => True

/-- The cases of a condition, with the negations around it. -/
@[elab_as_elim]
theorem condition_induction {motive : Bool → Expression → Prop}
    (negated : ∀ inverted e s, motive (!inverted) e → motive inverted (unary .not e s))
    (signed : ∀ inverted mark e s, mark ≠ .not → motive inverted (unary mark e s))
    (compared : ∀ inverted left operator right s,
      motive inverted (binary left operator right s))
    (joined : ∀ inverted left operator right s, motive inverted left → motive inverted right →
      motive inverted (logical left operator right s))
    (plain : ∀ inverted e, e.IsPlain → motive inverted e) :
    ∀ inverted e, motive inverted e
  | inverted, unary .not e s =>
    negated inverted e s (condition_induction negated signed compared joined plain _ e)
  | inverted, unary .plus e s | inverted, unary .minus e s =>
    signed inverted _ e s (by decide)
  | inverted, binary left operator right s => compared inverted left operator right s
  | inverted, logical left operator right s =>
    joined inverted left operator right s
      (condition_induction negated signed compared joined plain inverted left)
      (condition_induction negated signed compared joined plain inverted right)
  | inverted, identifier .. | inverted, literal .. | inverted, array .. | inverted, call ..
  | inverted, sequence .. => plain inverted _ trivial

/-! The steps that are left without the collecting. -/

theorem condition_unary_not (e : Expression) (s : Span) :
    (unary .not e s).condition inverted = e.condition (!inverted) := rfl

theorem condition_sign {mark : Mark} (h : mark ≠ .not) (e : Expression) (s : Span) :
    (unary mark e s).condition inverted = .error (.unknownOperator mark.token s.start) := by
  cases mark with
  | not => exact absurd rfl h
  | plus | minus => rfl

theorem condition_plain {e : Expression} (h : e.IsPlain) :
    e.condition inverted = .error (.unknownExpression e.offset) := by
  cases e with
  | unary | binary | logical => exact h.elim
  | _ => rfl

theorem condition_binary (left : Expression) (operator : Comparison) (right : Expression)
    (s : Span) : (binary left operator right s).condition inverted =
      (comparison left (if inverted then operator.inverse else operator) right).map .leaf := by
  rw [condition, compileCondition, Operator.resolve?_comparison]
  dsimp only
  cases comparison left (if inverted then operator.inverse else operator) right <;> rfl

theorem condition_logical (left : Expression) (operator : Connective) (right : Expression)
    (s : Span) : (logical left operator right s).condition inverted = do
      let f ← left.condition inverted
      let g ← right.condition inverted
      return .combined (if inverted then operator.inverse else operator) [f, g] := by
  rw [condition, compileCondition, Operator.resolve?_connective]
  exact (compileCondition_adds inverted left).run'_both (compileCondition_adds inverted right)

/-- The condition, with an odd (`true`) or even number of negations around it, has the filter. -/
inductive HasFilter : Bool → Expression → Filter → Prop
  | negated {inverted : Bool} {e : Expression} {f : Filter} (s : Span) :
      HasFilter (!inverted) e f → HasFilter inverted (unary .not e s) f
  | compared {inverted : Bool} {left : Expression} {operator : Comparison} {right : Expression}
      {l : Leaf} (s : Span) :
      comparison left (if inverted then operator.inverse else operator) right = .ok l →
      HasFilter inverted (binary left operator right s) (.leaf l)
  | joined {inverted : Bool} {left right : Expression} {f g : Filter} (operator : Connective)
      (s : Span) : HasFilter inverted left f → HasFilter inverted right g →
      HasFilter inverted (logical left operator right s)
        (.combined (if inverted then operator.inverse else operator) [f, g])

theorem hasFilter_of_condition {e : Expression} {f : Filter} (h : e.condition inverted = .ok f) :
    HasFilter inverted e f := by
  induction inverted, e using condition_induction generalizing f with
  | negated inverted e s ih => exact .negated s (ih h)
  | signed inverted mark e s hm =>
    rw [condition_sign hm] at h
    cases h
  | compared inverted left operator right s =>
    rw [condition_binary] at h
    obtain ⟨l, hl, rfl⟩ := except_map_eq_ok.1 h
    exact .compared s hl
  | joined inverted left operator right s ihl ihr =>
    rw [condition_logical] at h
    obtain ⟨f, hf, h⟩ := except_bind_eq_ok.1 h
    obtain ⟨g, hg, h⟩ := except_bind_eq_ok.1 h
    cases h
    exact .joined operator s (ihl hf) (ihr hg)
  | plain inverted e he =>
    rw [condition_plain he] at h
    cases h

theorem condition_eq_ok {e : Expression} {f : Filter} :
    e.condition inverted = .ok f ↔ HasFilter inverted e f := by
  refine ⟨hasFilter_of_condition, fun h => ?_⟩
  induction h with
  | negated s _ ih => exact ih
  | compared s hl => rw [condition_binary, hl, except_map_ok]
  | joined operator s _ _ ihf ihg =>
    rw [condition_logical, ihf, ihg]
    rfl

end Expression

namespace Arguments

theorem compileConditions_adds (arguments : Arguments) :
    Adds arguments.compileConditions Filter.leavesAll := by
  induction arguments with
  | nil => exact fun _ => rfl
  | cons e es ih => exact (e.compileCondition_adds false).both ih fun _ _ => rfl

/-- The filters of some conditions by themselves. -/
def conditions (arguments : Arguments) : Except CompileError (List Filter) :=
  arguments.compileConditions.run' []

theorem conditions_nil : conditions [] = .ok [] := rfl

theorem conditions_cons (e : Expression) (es : Arguments) : conditions (e :: es) = do
    let f ← e.condition false
    let fs ← conditions es
    return f :: fs :=
  (e.compileCondition_adds false).run'_both (compileConditions_adds es)

/-- The filter of `where` by itself. -/
def filter (arguments : Arguments) : Except CompileError Filter :=
  arguments.compileFilter.map CompiledFilter.filter

theorem compileFilter_of_ne_nil {arguments : Arguments} (h : arguments ≠ []) :
    arguments.compileFilter = arguments.conditions.map fun fs =>
      ⟨(Filter.conjunction fs).normalize, ((Filter.leavesAll fs).map Leaf.field).eraseDups⟩ := by
  rw [compileFilter, if_neg (by simpa using h), arguments.compileConditions_adds, except_map_map]
  simp only [addFields, foldl_addField_nil]
  rfl

theorem filter_of_ne_nil {arguments : Arguments} (h : arguments ≠ []) :
    arguments.filter = arguments.conditions.map fun fs => (Filter.conjunction fs).normalize := by
  rw [filter, compileFilter_of_ne_nil h, except_map_map]

/-- The fields of `where` are those that its filter reads. -/
theorem compileFilter_eq (arguments : Arguments) :
    arguments.compileFilter = arguments.filter.map fun f => ⟨f, f.fields⟩ := by
  by_cases h : arguments = []
  · rw [h]
    rfl
  · rw [compileFilter_of_ne_nil h, filter_of_ne_nil h, except_map_map]
    simp only [Filter.fields, Filter.leaves_normalize, Filter.leaves_conjunction]

end Arguments

end DirectiveQuery
