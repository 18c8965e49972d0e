import Mathlib.Algebra.Group.Nat.Defs
import DirectiveQuery.Proofs.Compile.Compiler
import DirectiveQuery.Proofs.Binary64.Integers
import DirectiveQuery.Proofs.Compile.Count
import DirectiveQuery.Proofs.Compile.Positions
import DirectiveQuery.Proofs.Compile.Steps
import DirectiveQuery.Proofs.Filter.Wire
import DirectiveQuery.Proofs.Grammar.Unambiguous
import DirectiveQuery.Proofs.Printing.Printer

/-
  The text of a descriptor compiles back to it. The text has the tree of its clauses, which the
  parser finds; compiling that tree gives each part back, and the filter in the normal form that
  it was in.
-/
namespace DirectiveQuery

open Clause Grammar

/-! ## Well-formed descriptors -/

/-- The value can be written exactly: it is no float, and an integer of magnitude 2^53 at
most. -/
def Value.isExact : Value → Bool
  | integer n => n.natAbs ≤ 2 ^ 53
  | float _ => false
  | string _ | boolean _ | null => true

/-- Lists stand exactly in membership comparisons, and all values can be written. -/
def Leaf.isExact (l : Leaf) : Bool :=
  l.operand.isList == l.operator.isMembership && l.operand.values.all Value.isExact

/-- A descriptor that a query can give: it has some part, its filter is in normal form and comes
with the fields that it reads, and the counts are numbers of 64 bits. -/
structure Descriptor.WellFormed (d : Descriptor) : Prop where
  nonempty : d.select ≠ none ∨ d.filter ≠ none ∨ d.order ≠ none ∨ d.extend ≠ none ∨
    d.limit ≠ none ∨ d.offset ≠ none
  filter_normal : ∀ f ∈ d.filter, f.IsNormal
  filter_exact : ∀ f ∈ d.filter, f.leaves.all Leaf.isExact
  filterFields_eq : d.filterFields = d.filter.map Filter.fields
  limit_lt : ∀ n ∈ d.limit, n < 2 ^ 64
  offset_lt : ∀ n ∈ d.offset, n < 2 ^ 64

/-! ## Conditions -/

theorem Value.ofExpression?_clause {v : Value} (h : v.isExact) :
    ofExpression? v.clause.tree = some v := by
  cases v with
  | integer n =>
    have hn : n.natAbs ≤ 2 ^ 53 := by simpa [isExact] using h
    obtain ⟨hplus, hminus⟩ := ofNumber_ofDecimal hn
    unfold clause
    dsimp only
    split
    · show some (ofNumber (Binary64.ofDecimal false n.natAbs 0).negate) = _
      rw [hminus, show -(n.natAbs : Int) = n by omega]
    · show some (ofNumber (Binary64.ofDecimal false n.natAbs 0)) = _
      rw [hplus, show (n.natAbs : Int) = n by omega]
  | float x => cases h
  | string | boolean | null => rfl

theorem Value.clause_tree_ne_array (v : Value) (es : List Expression) (s : Span) :
    v.clause.tree ≠ .array es s := by
  cases v with
  | integer n =>
    unfold clause
    dsimp only
    split <;> rintro ⟨⟩
  | _ => rintro ⟨⟩

theorem Operand.operand_clause {v : Operand} {operator : Comparison}
    (hl : v.isList = operator.isMembership) (hv : ∀ w ∈ v.values, w.isExact) :
    v.clause.tree.operand operator = .ok v := by
  cases v with
  | scalar w =>
    have hw := Value.ofExpression?_clause (hv w List.mem_cons_self)
    exact (Expression.operand_eq_ok_of_scalar w.clause_tree_ne_array).2 ⟨hl.symm, w, hw, rfl⟩
  | list vs =>
    refine Expression.operand_array.2 ⟨hl.symm, vs, ?_, rfl⟩
    rw [List.map_map, List.map_map]
    exact List.map_congr_left fun w hw => Value.ofExpression?_clause (hv w hw)

theorem Leaf.condition_clause {l : Leaf} (h : l.isExact) :
    l.clause.tree.condition false = .ok (.leaf l) := by
  simp only [isExact, Bool.and_eq_true, beq_iff_eq, List.all_eq_true] at h
  have hoperand := Operand.operand_clause h.1 h.2
  show (Expression.binary (.literal (.string l.field) .nowhere) l.operator l.operand.clause.tree
    .nowhere).condition false = _
  rw [Expression.condition_binary, if_neg Bool.false_ne_true, Expression.comparison]
  dsimp only [Expression.fieldName?]
  rw [hoperand]
  rfl

theorem Clause.tree_chain (c : Connective) (first : Clause .equality)
    (rest : List (Clause .equality)) : (chain c (first :: rest)).tree =
      (rest.map Clause.tree).foldl (fun left right => .logical left c right .nowhere)
        first.tree := by
  have hfold : ∀ (start : Clause (operatorLevel (.connective c)))
      (operand : Clause .equality → Clause (operatorLevel (.connective c)).tighter),
      (∀ p, (operand p).tree = p.tree) →
      (rest.foldl (fun left right => joined (.connective c) left (operand right)) start).tree =
        (rest.map Clause.tree).foldl (fun left right => .logical left c right .nowhere)
          start.tree := by
    intro start operand ho
    induction rest generalizing start with
    | nil => rfl
    | cons p rest ih =>
      rw [List.foldl_cons, ih, List.map_cons, List.foldl_cons, ← ho p]
      rfl
  exact hfold _ _ fun _ => rfl

namespace Filter

theorem tree_enclosed (f : Filter) : (f.enclosed f.clause).tree = f.clause.tree := by
  cases f <;> rfl

theorem tree_clauses (fs : List Filter) :
    (clauses fs).map Clause.tree = fs.map fun f => f.clause.tree := by
  induction fs with
  | nil => rfl
  | cons f fs ih => rw [clauses, List.map_cons, List.map_cons, tree_enclosed, ih]

theorem exists_conditions {fs : List Filter}
    (h : ∀ f ∈ fs, ∃ g, f.clause.tree.condition false = .ok g ∧ g.normalize = f) :
    ∃ gs : List Filter, fs.map (fun f => f.clause.tree.condition false) = gs.map .ok ∧
      gs.map normalize = fs := by
  induction fs with
  | nil => exact ⟨[], rfl, rfl⟩
  | cons f fs ih =>
    obtain ⟨g, hg, hn⟩ := h f List.mem_cons_self
    obtain ⟨gs, hgs, hns⟩ := ih fun f' hf' => h f' (List.mem_cons_of_mem _ hf')
    exact ⟨g :: gs, by rw [List.map_cons, hg, hgs, List.map_cons],
      by rw [List.map_cons, hn, hns]⟩

/-- A filter in normal form is the normal form of what its text compiles to. -/
theorem condition_clause {f : Filter} (hn : f.IsNormal) (hl : ∀ l ∈ f.leaves, l.isExact) :
    ∃ g, f.clause.tree.condition false = .ok g ∧ g.normalize = f := by
  induction hn with
  | leaf l =>
    exact ⟨.leaf l, Leaf.condition_clause (hl l List.mem_cons_self), rfl⟩
  | @combined c fs hlen _ hc ih =>
    obtain ⟨gs, hgs, hns⟩ := exists_conditions fun f hf =>
      ih f hf fun l hlf => hl l (mem_leavesAll.2 ⟨f, hf, hlf⟩)
    match fs, gs with
    | [], _ | [_], _ => simp at hlen
    | f :: f' :: fs, [] | f :: f' :: fs, [_] => simp at hns
    | f :: f' :: fs, g :: g' :: gs =>
      obtain ⟨hg, hgs⟩ := List.cons.inj hgs
      have hnot : ∀ x ∈ g :: g' :: gs, x.normalize.isCombinedBy c = false := by
        intro x hx
        refine hc _ ?_
        rw [← hns]
        exact List.mem_map_of_mem hx
      have hrest : ((clauses (f' :: fs)).map Clause.tree).map (Expression.condition false) =
          (g' :: gs).map .ok := by
        rw [tree_clauses, List.map_map]
        exact hgs
      have hfirst : (f.enclosed f.clause).tree.condition false = .ok g := by
        rw [tree_enclosed]
        exact hg
      refine ⟨combineLeft c g (g' :: gs), ?_, ?_⟩
      · rw [clause, clauses, tree_chain]
        exact Expression.condition_foldl hfirst hrest
      · rw [normalize_combineLeft (List.cons_ne_nil _ _) hnot, hns]

theorem filter_clause {f : Filter} (hn : f.IsNormal) (hl : ∀ l ∈ f.leaves, l.isExact) :
    Arguments.filter [f.clause.tree] = .ok f := by
  obtain ⟨g, hg, rfl⟩ := condition_clause hn hl
  rw [Arguments.filter_singleton, hg]
  rfl

end Filter

/-! ## Directives -/

theorem SortKey.ofExpression?_clause (k : SortKey) : ofExpression? k.clause.tree = some k := by
  obtain ⟨field, direction⟩ := k
  cases direction <;> rfl

namespace Descriptor

theorem fields_textClauses (d : Directive) (fs : List String) :
    Arguments.fields d ((fs.map textClause).map Clause.tree) = .ok fs := by
  rw [Arguments.fields, readEach_eq_ok_iff, List.map_map, List.map_map]
  exact List.map_congr_left fun _ _ => rfl

theorem sortKeys_clauses (ks : List SortKey) :
    Arguments.sortKeys ((ks.map SortKey.clause).map Clause.tree) = .ok ks := by
  rw [Arguments.sortKeys, readEach_eq_ok_iff, List.map_map, List.map_map]
  exact List.map_congr_left fun k _ => k.ofExpression?_clause

theorem count_countClause (d : Directive) (mode : IntegerMode) {n : Nat} (hn : n < 2 ^ 64) :
    Arguments.count d mode [(countClause n).tree] = .ok n := by
  have htext : (countClause n).tree.countText? = some (Text.decimalDigits n) := by
    show some (String.ofList (Text.decimalDigits n)).toList = _
    rw [String.toList_ofList]
  unfold Arguments.count
  dsimp only
  rw [htext, Option.bind_some, readCount?_decimalDigits mode hn]

/-! ## Whole descriptors -/

/-- Behind directives other than some, the elements have the descriptor. -/
def Yields (options : CompileOptions) (others : List Directive) (es : List Expression)
    (d : Descriptor) : Prop :=
  ∀ seen, (∀ x ∈ seen, x ∉ others) → ofElements options seen es = .ok d

theorem yields_nil (options : CompileOptions) : Yields options [] [] empty := fun _ _ => rfl

/-- The call for a part adds that part, if its directive does not occur again. -/
theorem yields_callFor {α : Type} {options : CompileOptions} {directive : Directive}
    {arguments : α → List (Clause .disjunction)} {part : Option α} {d rest : Descriptor}
    {others : List Directive} {cs : List (Clause .disjunction)}
    (hpart : ∀ a, part = some a → Invocation.descriptor options.integers
      ⟨directive, (arguments a).map Clause.tree, 0⟩ = .ok d)
    (hnone : part = none → d = empty) (hother : directive ∉ others)
    (hrest : Yields options others (cs.map Clause.tree) rest) :
    Yields options (directive :: others)
      ((callFor directive arguments part ++ cs).map Clause.tree) (d.override rest) := by
  intro seen hseen
  cases part with
  | none =>
    rw [hnone rfl, empty_override]
    exact hrest seen fun x hx hx' => hseen x hx (List.mem_cons_of_mem _ hx')
  | some a =>
    have hi : Invocation.ofExpression (call directive (arguments a)).tree =
        .ok ⟨directive, (arguments a).map Clause.tree, 0⟩ :=
      Invocation.ofExpression_eq_ok.2 ⟨_, _, rfl, rfl⟩
    show ofElements options seen ((call directive (arguments a)).tree :: cs.map Clause.tree) = _
    have hseen' : directive ∉ seen := fun h => hseen directive h List.mem_cons_self
    refine ofElements_cons_eq_ok.2 ⟨_, _, _, d, rest, hi, fun _ => hseen', hpart a rfl, ?_, rfl⟩
    refine hrest _ fun x hx hx' => ?_
    rcases List.mem_cons.1 hx with rfl | hx
    · exact hother hx'
    · exact hseen x hx (List.mem_cons_of_mem _ hx')

/-- The calls of a well-formed descriptor compile to its parts, which make it up. -/
theorem ofElements_calls (options : CompileOptions) {d : Descriptor} (h : d.WellFormed) :
    ofElements options [] (d.calls.map Clause.tree) = .ok d := by
  have hoffset := @yields_callFor _ options .offset (fun n => [countClause n]) d.offset
    { offset := d.offset } _ _ [] (fun n hn => by
      rw [hn, Invocation.descriptor]
      exact except_map_eq_ok.2 ⟨n, count_countClause _ _ (h.offset_lt n hn), rfl⟩)
    (fun hn => by rw [hn]; rfl) (by decide) (yields_nil options)
  have hlimit := @yields_callFor _ options .limit (fun n => [countClause n]) d.limit
    { limit := d.limit } _ _ _ (fun n hn => by
      rw [hn, Invocation.descriptor]
      exact except_map_eq_ok.2 ⟨n, count_countClause _ _ (h.limit_lt n hn), rfl⟩)
    (fun hn => by rw [hn]; rfl) (by decide) hoffset
  have hextend := @yields_callFor _ options .extend (·.map textClause) d.extend
    { extend := d.extend } _ _ _ (fun fs hfs => by
      rw [hfs, Invocation.descriptor]
      exact except_map_eq_ok.2 ⟨fs, fields_textClauses _ fs, rfl⟩)
    (fun hn => by rw [hn]; rfl) (by decide) hlimit
  have horder := @yields_callFor _ options .order (·.map SortKey.clause) d.order
    { order := d.order } _ _ _ (fun ks hks => by
      rw [hks, Invocation.descriptor]
      exact except_map_eq_ok.2 ⟨ks, sortKeys_clauses ks, rfl⟩)
    (fun hn => by rw [hn]; rfl) (by decide) hextend
  have hfilter := @yields_callFor _ options .filter (fun f => [f.clause]) d.filter
    { filter := d.filter, filterFields := d.filterFields } _ _ _ (fun f hf => by
      have hcompiled := Filter.filter_clause (h.filter_normal f hf)
        (List.all_eq_true.1 (h.filter_exact f hf))
      rw [h.filterFields_eq, hf, Invocation.descriptor_filter]
      exact except_map_eq_ok.2 ⟨f, hcompiled, rfl⟩)
    (fun hn => by rw [h.filterFields_eq, hn]; rfl) (by decide) horder
  have hselect := @yields_callFor _ options .select (·.map textClause) d.select
    { select := d.select } _ _ _ (fun fs hfs => by
      rw [hfs, Invocation.descriptor]
      exact except_map_eq_ok.2 ⟨fs, fields_textClauses _ fs, rfl⟩)
    (fun hn => by rw [hn]; rfl) (by decide) hfilter
  have hcalls := hselect [] fun x hx => by cases hx
  rw [List.append_nil] at hcalls
  simp only [← List.append_assoc] at hcalls
  rw [calls, hcalls]
  simp [override, empty]

theorem mem_callFor {α : Type} {directive : Directive}
    {arguments : α → List (Clause .disjunction)} {part : Option α} {c : Clause .disjunction}
    (h : c ∈ callFor directive arguments part) :
    ∃ cs, c = (call directive cs).loosen .disjunction (by decide) := by
  obtain ⟨a, -, rfl⟩ := List.mem_map.1 h
  exact ⟨arguments a, rfl⟩

/-- Only calls of directives are written. -/
theorem mem_calls {d : Descriptor} {c : Clause .disjunction} (h : c ∈ d.calls) :
    ∃ directive cs, c = (call directive cs).loosen .disjunction (by decide) := by
  simp only [calls, List.mem_append] at h
  rcases h with ((((h | h) | h) | h) | h) | h <;> exact ⟨_, mem_callFor h⟩

theorem callFor_eq_nil {α : Type} {directive : Directive}
    {arguments : α → List (Clause .disjunction)} {part : Option α} :
    callFor directive arguments part = [] ↔ part = none := by
  cases part <;> simp [callFor]

theorem calls_ne_nil {d : Descriptor} (h : d.WellFormed) : d.calls ≠ [] := by
  intro hnil
  simp only [calls, List.append_eq_nil_iff, callFor_eq_nil] at hnil
  have hn := h.nonempty
  simp [hnil] at hn

theorem ofExpression_calls (options : CompileOptions) {d : Descriptor} (h : d.WellFormed) :
    ofExpression options (seriesTree d.calls) = .ok d := by
  have htop : (seriesTree d.calls).topLevel = .ok (d.calls.map Clause.tree) := by
    unfold seriesTree
    split
    · next c hc =>
      obtain ⟨directive, cs, rfl⟩ := mem_calls (hc ▸ List.mem_cons_self)
      rw [hc]
      rfl
    · rfl
  rw [ofExpression_eq, htop]
  exact ofElements_calls options h

theorem isAllBlank_query {d : Descriptor} (h : d.WellFormed) :
    Text.isAllBlank d.query.toList = false := by
  obtain ⟨c, cs, hc⟩ := List.exists_cons_of_ne_nil (calls_ne_nil h)
  obtain ⟨directive, args, rfl⟩ := mem_calls (hc ▸ List.mem_cons_self)
  obtain ⟨ch, hch, hblank⟩ : ∃ ch ∈ directive.name.toList, Text.isBlank ch = false := by
    cases directive <;> exact ⟨_, List.mem_cons_self, by decide⟩
  have hword : Word.name directive ∈ listed d.calls := by
    rw [hc]
    exact List.mem_append_left _ List.mem_cons_self
  have hmem : ch ∈ d.query.toList := by
    rw [query, Clause.text, String.toList_ofList, Word.spaced, List.mem_flatMap]
    exact ⟨_, hword, List.mem_append_left _ hch⟩
  exact List.all_eq_false.2 ⟨ch, hmem, by rw [hblank]; decide⟩

/-- The text of a well-formed descriptor compiles to that descriptor, whatever the options
are. -/
theorem ofQuery_query (options : CompileOptions) {d : Descriptor} (h : d.WellFormed) :
    ofQuery options d.query = .ok d := by
  obtain ⟨e, he, hb⟩ := Expression.exists_parse_iff.2 (derives_text (calls_ne_nil h))
  have htree : ofExpression options e = .ok d := by
    rw [← ofExpression_bare, hb]
    exact ofExpression_calls options h
  rw [ofQuery_eq]
  rw [isAllBlank_query h, if_neg Bool.false_ne_true, Expression.ofQuery, query, he]
  exact htree

/-- A descriptor with a quote in a field, a negative integer and conditions in conditions. -/
def sample : Descriptor where
  filter := some (.combined .or
    [.leaf ⟨"a\"b", .equal, .scalar (.integer (-7))⟩,
      .combined .and
        [.leaf ⟨"c", .nonMember, .list [.null]⟩, .leaf ⟨"c", .less, .scalar (.boolean false)⟩]])
  filterFields := some ["a\"b", "c"]
  order := some [⟨"d", .descending⟩]
  limit := some 18446744073709551615

example : sample.query =
    "where ( \"a\\\"b\" == - 7 || ( \"c\" nin [ null ] && \"c\" < false ) ) , " ++
      "order ( - \"d\" ) , limit ( \"18446744073709551615\" ) " := by
  decide +kernel

theorem wellFormed_sample : sample.WellFormed where
  nonempty := .inr (.inl (by simp [sample]))
  filter_normal := by
    rintro _ ⟨⟩
    refine .combined (by decide) (fun f hf => ?_) (by decide)
    rcases List.mem_cons.1 hf with rfl | hf
    · exact .leaf _
    · obtain rfl := List.mem_singleton.1 hf
      refine .combined (by decide) (fun f hf => ?_) (by decide)
      rcases List.mem_cons.1 hf with rfl | hf
      · exact .leaf _
      · obtain rfl := List.mem_singleton.1 hf
        exact .leaf _
  filter_exact := by
    rintro _ ⟨⟩
    decide
  filterFields_eq := by decide
  limit_lt := by
    rintro _ ⟨⟩
    decide
  offset_lt := by
    rintro _ ⟨⟩

theorem ofQuery_query_sample :
    sample.WellFormed ∧ ofQuery ⟨.reject, .strict⟩ sample.query = .ok sample :=
  ⟨wellFormed_sample, ofQuery_query ⟨.reject, .strict⟩ wellFormed_sample⟩

end Descriptor

end DirectiveQuery
