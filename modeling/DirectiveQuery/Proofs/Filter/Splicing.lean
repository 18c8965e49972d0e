import Mathlib.Logic.Relation
import DirectiveQuery.Proofs.Filter.NormalForm

/-
  Splicing step by step. A step takes one combination, anywhere in a filter, that sits directly
  in a combination by the same connective, and puts its operands in its place. Each step takes
  one combination away (`SpliceStep.combinations_eq`), so no sequence of steps goes on forever,
  and none changes the normal form (`SpliceStep.normalize_eq`). A filter without further steps
  is its own normal form, so whatever steps are taken, they end there
  (`spliceSteps_end_iff`). Combinations may have any number of operands, none included.
-/
namespace DirectiveQuery

namespace Filter

/-- One operand that is combined by the same connective gives way to its own operands. -/
inductive SpliceStep : Filter → Filter → Prop
  | here (c : Connective) (before inner after : List Filter) :
    SpliceStep (combined c (before ++ combined c inner :: after))
      (combined c (before ++ inner ++ after))
  | inside (c : Connective) (before after : List Filter) {f g : Filter} (h : SpliceStep f g) :
    SpliceStep (combined c (before ++ f :: after)) (combined c (before ++ g :: after))

/-- No step is left. -/
def IsSpliced (f : Filter) : Prop := ∀ g, ¬ SpliceStep f g

/-- No combination, at any depth, has an operand that is combined by the same connective. -/
inductive IsFlat : Filter → Prop
  | leaf (l : Leaf) : IsFlat (leaf l)
  | combined {c : Connective} {fs : List Filter} (operands : ∀ f ∈ fs, IsFlat f)
    (different : ∀ f ∈ fs, f.isCombinedBy c = false) : IsFlat (combined c fs)

/-! ## Steps take combinations away -/

mutual

/-- How many combinations there are. -/
def combinations : Filter → Nat
  | leaf _ => 0
  | combined _ operands => combinationsAll operands + 1

/-- How many combinations there are in several filters. -/
def combinationsAll : List Filter → Nat
  | [] => 0
  | f :: fs => combinations f + combinationsAll fs

end

theorem combinationsAll_append (fs gs : List Filter) :
    combinationsAll (fs ++ gs) = combinationsAll fs + combinationsAll gs := by
  induction fs with
  | nil => simp [combinationsAll]
  | cons f fs ih => simp only [List.cons_append, combinationsAll, ih, Nat.add_assoc]

theorem SpliceStep.combinations_eq {f g : Filter} (h : SpliceStep f g) :
    f.combinations = g.combinations + 1 := by
  induction h with
  | here c before inner after =>
    simp only [combinations, combinationsAll_append, combinationsAll]
    omega
  | inside c before after _ ih =>
    simp only [combinations, combinationsAll_append, combinationsAll, ih]
    omega

/-- A sequence of filters stops being one of steps before the combinations are used up. -/
theorem exists_stop (s : Nat → Filter) :
    ∃ n ≤ (s 0).combinations, ¬ SpliceStep (s n) (s (n + 1)) := by
  by_cases hstep : SpliceStep (s 0) (s 1)
  · have hless := hstep.combinations_eq
    obtain ⟨n, hn, hstop⟩ := exists_stop fun i => s (i + 1)
    refine ⟨n + 1, ?_, hstop⟩
    rw [hless]
    exact Nat.succ_le_succ hn
  · exact ⟨0, Nat.zero_le _, hstep⟩
termination_by (s 0).combinations

/-! ## Steps keep the normal form -/

theorem SpliceStep.normalize_eq {f g : Filter} (h : SpliceStep f g) :
    f.normalize = g.normalize := by
  induction h with
  | here c before inner after =>
    -- the pass would have spliced the very operand that the step has spliced
    simp only [normalize, normalizeUnder_append, normalizeUnder, splice_combined,
      List.append_assoc]
  | inside c before after _ ih =>
    simp only [normalize, normalizeUnder_append, normalizeUnder, ih]

theorem normalize_eq_of_steps {f g : Filter} (h : Relation.ReflTransGen SpliceStep f g) :
    f.normalize = g.normalize := by
  induction h with
  | refl => rfl
  | tail _ hstep ih => rw [ih, hstep.normalize_eq]

/-! ## Where no step is left -/

theorem IsSpliced.isFlat {f : Filter} (h : f.IsSpliced) : f.IsFlat := by
  induction f using Filter.induction with
  | leaf l => exact .leaf l
  | combined c fs ih =>
    constructor
    · intro f hf
      obtain ⟨before, after, rfl⟩ := List.append_of_mem hf
      exact ih f hf fun g hg => h _ (.inside c before after hg)
    · intro f hf
      obtain ⟨before, after, rfl⟩ := List.append_of_mem hf
      cases f with
      | leaf l => rfl
      | combined d inner =>
        by_cases hd : d = c
        · subst hd
          exact absurd (.here d before inner after) (h _)
        · exact decide_eq_false hd

theorem normalizeUnder_of_flat {c : Connective} {fs : List Filter}
    (hfs : ∀ f ∈ fs, f.normalize = f) (hc : ∀ f ∈ fs, f.isCombinedBy c = false) :
    normalizeUnder c fs = fs := by
  induction fs with
  | nil => rfl
  | cons f fs ih =>
    rw [List.forall_mem_cons] at hfs hc
    rw [normalizeUnder, hfs.1, splice_of_not_combined hc.1, ih hfs.2 hc.2, List.singleton_append]

theorem IsFlat.normalize_eq {f : Filter} (h : f.IsFlat) : f.normalize = f := by
  induction h with
  | leaf l => rw [normalize]
  | combined _ hdifferent ih => rw [normalize, normalizeUnder_of_flat ih hdifferent]

/-! ## The end of every sequence of steps -/

/-- Steps lead from every filter to one where no step is left. -/
theorem exists_steps_to_spliced (f : Filter) :
    ∃ g, Relation.ReflTransGen SpliceStep f g ∧ g.IsSpliced := by
  by_cases hf : ∃ g, SpliceStep f g
  · obtain ⟨g, hstep⟩ := hf
    have hless := hstep.combinations_eq
    obtain ⟨k, hsteps, hk⟩ := exists_steps_to_spliced g
    exact ⟨k, .head hstep hsteps, hk⟩
  · exact ⟨f, .refl, fun g hg => hf ⟨g, hg⟩⟩
termination_by f.combinations

theorem eq_normalize_of_steps {f g : Filter} (h : Relation.ReflTransGen SpliceStep f g)
    (hg : g.IsSpliced) : g = f.normalize := by
  rw [normalize_eq_of_steps h, hg.isFlat.normalize_eq]

/-- Whatever steps are taken from a filter, there are at most as many as it has combinations,
and where they cannot go on they have led to the normal form, which one pass finds. So the normal
form has no combination directly in one by the same connective, and is its own normal form. -/
theorem spliceSteps_end_iff (f : Filter) :
    (∀ s : Nat → Filter, s 0 = f →
      ∃ n ≤ f.combinations, ¬ SpliceStep (s n) (s (n + 1))) ∧
    (∀ g, Relation.ReflTransGen SpliceStep f g ∧ g.IsSpliced ↔ g = f.normalize) ∧
    f.normalize.IsFlat ∧ f.normalize.normalize = f.normalize := by
  obtain ⟨k, hsteps, hk⟩ := exists_steps_to_spliced f
  obtain rfl := eq_normalize_of_steps hsteps hk
  have hends : ∀ g, Relation.ReflTransGen SpliceStep f g ∧ g.IsSpliced ↔ g = f.normalize := by
    intro g
    constructor
    · rintro ⟨h, hg⟩
      exact eq_normalize_of_steps h hg
    · rintro rfl
      exact ⟨hsteps, hk⟩
  refine ⟨?_, hends, hk.isFlat, hk.isFlat.normalize_eq⟩
  rintro s rfl
  exact exists_stop s

/-- The filter `(and (and) (or (or a) (and (and b))))`, in which combinations have no operand, one
or two. -/
def sparse : Filter :=
  let a := leaf ⟨"a", .equal, .scalar .null⟩
  let b := leaf ⟨"b", .nonMember, .list []⟩
  combined .and
    [combined .and [], combined .or [combined .or [a], combined .and [combined .and [b]]]]

/-- The filter `(and (or a (and b)))`: a combination of one operand stays where the connective
around it is the other one. -/
def sparseEnd : Filter :=
  let a := leaf ⟨"a", .equal, .scalar .null⟩
  let b := leaf ⟨"b", .nonMember, .list []⟩
  combined .and [combined .or [a, combined .and [b]]]

theorem spliceSteps_end_iff_sparse :
    Relation.ReflTransGen SpliceStep sparse sparseEnd ∧ sparseEnd.IsSpliced :=
  ((spliceSteps_end_iff sparse).2.1 sparseEnd).2 rfl

end Filter

end DirectiveQuery
