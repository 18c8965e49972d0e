import DirectiveQuery.Compile.Condition
import DirectiveQuery.Proofs.Filter.Duality

/-
  Filters in normal form, and how compiling reaches them. A chain of operands compiles to
  combinations of two that lean to the left; the normal form of such a chain has all the
  operands side by side (`normalize_combineLeft`). Whatever the combinations are, if each has
  two operands or more then one pass reaches a filter in normal form (`isNormal_normalize`).
-/
namespace DirectiveQuery

namespace Filter

/-- What holds of leaves, and of combinations if it holds of their operands, holds of every
filter. -/
@[elab_as_elim]
theorem induction {motive : Filter → Prop} (leaf : ∀ l, motive (.leaf l))
    (combined : ∀ c fs, (∀ f ∈ fs, motive f) → motive (.combined c fs)) (f : Filter) :
    motive f := by
  cases f with
  | leaf l => exact leaf l
  | combined c fs => exact combined c fs fun f _ => induction leaf combined f

/-- The filter is combined by the connective. -/
def isCombinedBy (c : Connective) : Filter → Bool
  | combined d _ => d = c
  | leaf _ => false

/-- Every combination has two operands or more, none of which is combined by the same
connective. -/
inductive IsNormal : Filter → Prop
  | leaf (l : Leaf) : IsNormal (leaf l)
  | combined {c : Connective} {fs : List Filter} : 2 ≤ fs.length → (∀ f ∈ fs, IsNormal f) →
      (∀ f ∈ fs, f.isCombinedBy c = false) → IsNormal (combined c fs)

/-- Filters combined two by two, from the left. -/
def combineLeft (c : Connective) (f : Filter) (fs : List Filter) : Filter :=
  fs.foldl (fun f g => combined c [f, g]) f

theorem splice_of_not_combined {c : Connective} {f : Filter} (h : f.isCombinedBy c = false) :
    splice c f = [f] := by
  cases f with
  | leaf l => rfl
  | combined d fs =>
    have hd : d ≠ c := by simpa [isCombinedBy] using h
    rw [splice, if_neg hd]

theorem splice_combined (c : Connective) (fs : List Filter) : splice c (combined c fs) = fs := by
  rw [splice, if_pos rfl]

theorem normalize_pair (c : Connective) (f g : Filter) : (combined c [f, g]).normalize =
    combined c (splice c f.normalize ++ splice c g.normalize) := by
  rw [normalize, normalizeUnder, normalizeUnder, normalizeUnder, List.append_nil]

theorem normalizeUnder_eq_flatMap (c : Connective) (fs : List Filter) :
    normalizeUnder c fs = (fs.map normalize).flatMap (splice c) := by
  induction fs with
  | nil => simp [normalizeUnder]
  | cons f fs ih => rw [normalizeUnder, ih, List.map_cons, List.flatMap_cons]

theorem normalizeUnder_append (c : Connective) (fs gs : List Filter) :
    normalizeUnder c (fs ++ gs) = normalizeUnder c fs ++ normalizeUnder c gs := by
  simp only [normalizeUnder_eq_flatMap, List.map_append, List.flatMap_append]

/-- What has been combined so far is spliced, and each further operand is put behind it. -/
theorem normalize_combineLeft_combined {c : Connective} {f : Filter} {fs gs : List Filter}
    (hf : f.normalize = combined c fs)
    (hg : ∀ g ∈ gs, g.normalize.isCombinedBy c = false) :
    (combineLeft c f gs).normalize = combined c (fs ++ gs.map normalize) := by
  induction gs generalizing f fs with
  | nil => rw [combineLeft, List.foldl_nil, hf, List.map_nil, List.append_nil]
  | cons g gs ih =>
    have hpair : (combined c [f, g]).normalize = combined c (fs ++ [g.normalize]) := by
      rw [normalize_pair, hf, splice_combined, splice_of_not_combined (hg g (by simp))]
    have h := ih hpair fun g' hg' => hg g' (List.mem_cons_of_mem _ hg')
    rw [List.append_assoc, List.singleton_append] at h
    exact h

theorem normalize_combineLeft {c : Connective} {f : Filter} {fs : List Filter} (hne : fs ≠ [])
    (hn : ∀ g ∈ f :: fs, g.normalize.isCombinedBy c = false) :
    (combineLeft c f fs).normalize = combined c ((f :: fs).map normalize) := by
  cases fs with
  | nil => exact absurd rfl hne
  | cons g gs =>
    have hpair : (combined c [f, g]).normalize = combined c [f.normalize, g.normalize] := by
      rw [normalize_pair, splice_of_not_combined (hn f (by simp)),
        splice_of_not_combined (hn g (by simp))]
      rfl
    exact normalize_combineLeft_combined hpair fun g' hg' =>
      hn g' (List.mem_cons_of_mem _ (List.mem_cons_of_mem _ hg'))

/-! ## One pass reaches the normal form -/

/-- Every combination has two operands or more. -/
inductive IsBranching : Filter → Prop
  | leaf (l : Leaf) : IsBranching (leaf l)
  | combined {c : Connective} {fs : List Filter} : 2 ≤ fs.length → (∀ f ∈ fs, IsBranching f) →
      IsBranching (combined c fs)

/-- What a filter in normal form is spliced into can stand under the connective. -/
theorem IsNormal.of_mem_splice {c : Connective} {f g : Filter} (h : f.IsNormal)
    (hg : g ∈ splice c f) : g.IsNormal ∧ g.isCombinedBy c = false := by
  cases h with
  | leaf l =>
    obtain rfl := List.mem_singleton.1 hg
    exact ⟨.leaf l, rfl⟩
  | @combined d fs hlen hn hc =>
    by_cases hd : d = c
    · subst hd
      rw [splice_combined] at hg
      exact ⟨hn g hg, hc g hg⟩
    · rw [splice, if_neg hd] at hg
      obtain rfl := List.mem_singleton.1 hg
      exact ⟨.combined hlen hn hc, decide_eq_false hd⟩

/-- Splicing loses no operand, since a combination has operands of its own. -/
theorem IsNormal.length_splice_pos {f : Filter} (c : Connective) (h : f.IsNormal) :
    1 ≤ (splice c f).length := by
  cases h with
  | leaf l => exact Nat.le_refl 1
  | @combined d fs hlen =>
    rw [splice]
    split
    · exact Nat.le_of_succ_le hlen
    · exact Nat.le_refl 1

theorem isNormal_normalizeUnder {c : Connective} {fs : List Filter}
    (h : ∀ f ∈ fs, f.normalize.IsNormal) : fs.length ≤ (normalizeUnder c fs).length ∧
      ∀ g ∈ normalizeUnder c fs, g.IsNormal ∧ g.isCombinedBy c = false := by
  induction fs with
  | nil => simp [normalizeUnder]
  | cons f fs ih =>
    have hf := h f List.mem_cons_self
    obtain ⟨hlen, hfs⟩ := ih fun g hg => h g (List.mem_cons_of_mem _ hg)
    rw [normalizeUnder]
    constructor
    · have hpos := hf.length_splice_pos c
      rw [List.length_append, List.length_cons]
      omega
    · intro g hg
      rcases List.mem_append.1 hg with hg | hg
      · exact hf.of_mem_splice hg
      · exact hfs g hg

theorem isNormal_normalize {f : Filter} (h : f.IsBranching) : f.normalize.IsNormal := by
  induction h with
  | leaf l =>
    rw [normalize]
    exact .leaf l
  | @combined c fs hlen _ ih =>
    obtain ⟨hle, hfs⟩ := isNormal_normalizeUnder (c := c) ih
    rw [normalize]
    exact .combined (Nat.le_trans hlen hle) (fun g hg => (hfs g hg).1) fun g hg => (hfs g hg).2

theorem mem_leavesAll {l : Leaf} {fs : List Filter} :
    l ∈ leavesAll fs ↔ ∃ f ∈ fs, l ∈ f.leaves := by
  induction fs with
  | nil => simp [leavesAll]
  | cons f fs ih => simp [leavesAll, ih]

end Filter

namespace Expression

/-- A chain of conditions compiles to their filters, combined from the left. -/
theorem condition_foldl {c : Connective} {s : Span} {first : Expression}
    {es : List Expression} {f : Filter} {fs : List Filter}
    (hf : first.condition false = .ok f)
    (hes : es.map (condition false) = fs.map .ok) :
    (es.foldl (fun left right => logical left c right s) first).condition false =
      .ok (Filter.combineLeft c f fs) := by
  induction es generalizing first f fs with
  | nil =>
    cases fs with
    | nil => exact hf
    | cons f' fs => cases hes
  | cons e es ih =>
    cases fs with
    | nil => cases hes
    | cons g gs =>
      rw [List.map_cons, List.map_cons, List.cons.injEq] at hes
      have hpair : (logical first c e s).condition false = .ok (.combined c [f, g]) := by
        rw [condition_logical, hf, hes.1]
        rfl
      have h := ih hpair hes.2
      exact h

end Expression

end DirectiveQuery
