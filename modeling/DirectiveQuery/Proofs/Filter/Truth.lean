import DirectiveQuery.Proofs.Filter.Meaning
import DirectiveQuery.Proofs.Filter.NormalForm

/-
  What the normal form keeps. Here every single leaf may hold or not, also two that say the
  same: a leaf is known by its number from the left, so an assignment of truth values can only
  be carried over to the normal form because no leaf is lost, added or moved
  (`leaves_normalize`). Combinations may have any number of operands; `and` without operands
  holds, `or` without operands does not.
-/
namespace DirectiveQuery

namespace Filter

/-- The connective at the root, if it is a combination. -/
def connective? : Filter → Option Connective
  | leaf _ => none
  | combined c _ => some c

mutual

/-- Whether the filter holds, where `truth` says which leaves do: it is given the number of a
leaf, the first one of the filter having the number `first`, and the leaf itself. -/
def holds (truth : Nat → Leaf → Bool) (first : Nat) : Filter → Bool
  | leaf l => truth first l
  | combined c operands => c.join (holdsAll truth first operands)

/-- Which of several filters hold, whose leaves are numbered in one go. -/
def holdsAll (truth : Nat → Leaf → Bool) (first : Nat) : List Filter → List Bool
  | [] => []
  | f :: fs => holds truth first f :: holdsAll truth (first + f.leaves.length) fs

end

variable {truth : Nat → Leaf → Bool}

theorem holdsAll_append (first : Nat) (fs gs : List Filter) :
    holdsAll truth first (fs ++ gs) =
      holdsAll truth first fs ++ holdsAll truth (first + (leavesAll fs).length) gs := by
  induction fs generalizing first with
  | nil => simp [holdsAll, leavesAll]
  | cons f fs ih =>
    simp only [List.cons_append, holdsAll, ih, leavesAll, List.length_append, Nat.add_assoc]

theorem join_holdsAll_splice (c : Connective) (first : Nat) (f : Filter) :
    c.join (holdsAll truth first (splice c f)) = f.holds truth first := by
  cases f with
  | leaf l => simp [splice, holdsAll, Connective.join_singleton]
  | combined d fs =>
    by_cases h : d = c
    · rw [h, splice_combined, holds]
    · rw [splice, if_neg h, holdsAll, holdsAll, Connective.join_singleton]

/-- What an operand is spliced into has its leaves, so the operands behind it keep their
numbers. -/
theorem join_holdsAll_normalizeUnder {c : Connective} {fs : List Filter}
    (h : ∀ f ∈ fs, ∀ first, f.normalize.holds truth first = f.holds truth first) (first : Nat) :
    c.join (holdsAll truth first (normalizeUnder c fs)) = c.join (holdsAll truth first fs) := by
  induction fs generalizing first with
  | nil => rw [normalizeUnder]
  | cons f fs ih =>
    rw [List.forall_mem_cons] at h
    rw [normalizeUnder, holdsAll_append, Connective.join_append, join_holdsAll_splice, h.1,
      leavesAll_splice, leaves_normalize, ih h.2, holdsAll, ← Connective.join_cons]

theorem holds_normalize (f : Filter) (first : Nat) :
    f.normalize.holds truth first = f.holds truth first := by
  induction f using Filter.induction generalizing first with
  | leaf l => rw [normalize]
  | combined c fs ih => rw [normalize, holds, holds, join_holdsAll_normalizeUnder ih]

theorem connective?_normalize (f : Filter) : f.normalize.connective? = f.connective? := by
  cases f with
  | leaf l => rw [normalize]
  | combined c fs => rw [normalize, connective?, connective?]

theorem IsNormal.isBranching {f : Filter} (h : f.IsNormal) : f.IsBranching := by
  induction h with
  | leaf l => exact .leaf l
  | combined hlen _ _ ih => exact .combined hlen ih

/-- The normal form of a filter has the same leaves in the same order and the same connective at
its root, has two operands or more wherever the filter has them everywhere, and holds whenever
the filter does, whichever of its leaves hold. -/
theorem normalize_keeps (f : Filter) :
    f.normalize.leaves = f.leaves ∧ f.normalize.connective? = f.connective? ∧
    (f.IsBranching → f.normalize.IsBranching) ∧
    ∀ (truth : Nat → Leaf → Bool) (first : Nat),
      f.normalize.holds truth first = f.holds truth first :=
  ⟨leaves_normalize f, connective?_normalize f, fun h => (isNormal_normalize h).isBranching,
    fun _ => holds_normalize f⟩

/-- The leaf `a == null`. -/
def absentLeaf : Filter := leaf ⟨"a", .equal, .scalar .null⟩

/-- Combinations two by two, in which the same leaf stands four times. -/
def fourTimes : Filter :=
  combined .and
    [combined .or [absentLeaf, combined .or [absentLeaf, absentLeaf]], absentLeaf]

theorem fourTimes_isBranching : fourTimes.IsBranching := by
  have h : absentLeaf.IsBranching := .leaf _
  have hpair : (combined .or [absentLeaf, absentLeaf]).IsBranching :=
    .combined (by decide) (by simp [h])
  have hleft : (combined .or [absentLeaf, combined .or [absentLeaf, absentLeaf]]).IsBranching :=
    .combined (by decide) (by simp [h, hpair])
  exact .combined (by decide) (by simp [h, hleft])

/-- Where only the third and the fourth leaf hold, the filter does, in normal form too. -/
theorem normalize_keeps_fourTimes :
    fourTimes.IsBranching ∧ fourTimes.normalize.IsBranching ∧
      fourTimes.normalize.holds (fun n _ => 2 ≤ n) 0 = true :=
  ⟨fourTimes_isBranching, (normalize_keeps fourTimes).2.2.1 fourTimes_isBranching,
    ((normalize_keeps fourTimes).2.2.2 (fun n _ => 2 ≤ n) 0).trans rfl⟩

end Filter

end DirectiveQuery
