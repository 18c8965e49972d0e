import DirectiveQuery.Proofs.Compile.Collecting

/-
  What conditions and filters mean. An interpretation says which comparisons hold; a condition
  is then read in the ordinary way, negations included, and a filter by its connectives alone.
  `filter_meaning`: whatever the interpretation, a filter that `where` gives means that all the
  arguments hold. On the way: a condition under an odd number of negations means the opposite of
  what it says (`condition_meaning`), and the normal form means what the filter means
  (`meaning_normalize`).
-/
namespace DirectiveQuery

/-- Which comparisons hold of some record. Of two opposite comparisons exactly one holds. -/
structure Interpretation where
  holds : String → Comparison → Operand → Bool
  holds_lessOrEqual : ∀ field v, holds field .lessOrEqual v = !holds field .greater v
  holds_greaterOrEqual : ∀ field v, holds field .greaterOrEqual v = !holds field .less v
  holds_notEqual : ∀ field v, holds field .notEqual v = !holds field .equal v
  holds_nonMember : ∀ field v, holds field .nonMember v = !holds field .member v

theorem Interpretation.holds_inverse (I : Interpretation) (field : String)
    (operator : Comparison) (v : Operand) :
    I.holds field operator.inverse v = !I.holds field operator v := by
  cases operator <;>
    simp [Comparison.inverse, I.holds_lessOrEqual, I.holds_greaterOrEqual, I.holds_notEqual,
      I.holds_nonMember]

/-- The interpretation that is given by what `>`, `<`, `==` and `in` say. -/
def Interpretation.ofPositive (holds : String → Comparison → Operand → Bool) : Interpretation where
  holds field operator v :=
    match operator with
    | .lessOrEqual | .greaterOrEqual | .notEqual | .nonMember => !holds field operator.inverse v
    | _ => holds field operator v
  holds_lessOrEqual _ _ := rfl
  holds_greaterOrEqual _ _ := rfl
  holds_notEqual _ _ := rfl
  holds_nonMember _ _ := rfl

/-- The meaning of a connective: all, or any. -/
def Connective.join : Connective → List Bool → Bool
  | and, bs => bs.all id
  | or, bs => bs.any id

namespace Connective

theorem join_append (c : Connective) (as bs : List Bool) :
    c.join (as ++ bs) = c.join [c.join as, c.join bs] := by
  cases c <;> simp [join]

theorem join_cons (c : Connective) (b : Bool) (bs : List Bool) :
    c.join (b :: bs) = c.join [b, c.join bs] := by
  cases c <;> simp [join]

theorem join_singleton (c : Connective) (b : Bool) : c.join [b] = b := by
  cases c <;> simp [join]

/-- De Morgan's laws. -/
theorem join_inverse (c : Connective) (a b : Bool) :
    c.inverse.join [!a, !b] = !c.join [a, b] := by
  cases c <;> simp [join, inverse]

end Connective

/-! ## Filters -/

namespace Filter

variable (I : Interpretation)

mutual

/-- Whether the filter holds. -/
def meaning : Filter → Bool
  | leaf l => I.holds l.field l.operator l.operand
  | combined c operands => c.join (meanings operands)

/-- Which of several filters hold. -/
def meanings : List Filter → List Bool
  | [] => []
  | f :: fs => meaning f :: meanings fs

end

theorem meanings_append (fs gs : List Filter) :
    meanings I (fs ++ gs) = meanings I fs ++ meanings I gs := by
  induction fs with
  | nil => simp [meanings]
  | cons f fs ih => simp [meanings, ih]

theorem join_splice (c : Connective) (f : Filter) :
    c.join (meanings I (splice c f)) = f.meaning I := by
  cases f with
  | leaf l => simp [splice, meanings, Connective.join_singleton]
  | combined d fs =>
    by_cases h : d = c
    · simp [splice, h, meaning]
    · simp [splice, h, meanings, Connective.join_singleton]

mutual

theorem meaning_normalize (f : Filter) : f.normalize.meaning I = f.meaning I := by
  cases f with
  | leaf l => simp [normalize]
  | combined c fs =>
    rw [normalize, meaning, meaning]
    exact join_normalizeUnder c fs

/-- Splicing puts the operands of an operand in its place, which changes neither `all` nor
`any`. -/
theorem join_normalizeUnder (c : Connective) (fs : List Filter) :
    c.join (meanings I (normalizeUnder c fs)) = c.join (meanings I fs) := by
  cases fs with
  | nil => simp [normalizeUnder]
  | cons f fs =>
    rw [normalizeUnder, meanings_append, Connective.join_append, join_splice,
      meaning_normalize f, join_normalizeUnder c fs, meanings, ← Connective.join_cons]

end

theorem meaning_conjunction (fs : List Filter) :
    (conjunction fs).meaning I = (meanings I fs).all id := by
  unfold conjunction
  split
  · simp [meanings]
  · simp [meaning, Connective.join]

end Filter

/-! ## Conditions -/

namespace Expression

/-- The operand that an expression writes out: an array of values, or one value. -/
def writtenOperand? : Expression → Option Operand
  | array elements _ => (elements.mapM Value.ofExpression?).map Operand.list
  | e => (Value.ofExpression? e).map Operand.scalar

/-- Whether the condition holds, if it is one: a comparison of a field with a written operand,
or a combination of conditions by `!`, `&&` and `||`. -/
def meaning? (I : Interpretation) : Expression → Option Bool
  | unary .not e _ => (meaning? I e).map (!·)
  | binary left operator right _ => do
    let field ← left.fieldName?
    let v ← right.writtenOperand?
    return I.holds field operator v
  | logical left .and right _ => do return (← meaning? I left) && (← meaning? I right)
  | logical left .or right _ => do return (← meaning? I left) || (← meaning? I right)
  | _ => none

theorem writtenOperand?_of_operand {e : Expression} {operator : Comparison} {v : Operand}
    (h : e.operand operator = .ok v) : e.writtenOperand? = some v := by
  unfold operand at h
  split at h
  · next elements s =>
    split at h
    · obtain ⟨vs, hvs, rfl⟩ := except_map_eq_ok.1 h
      have hm := mapM_eq_some_iff.2 (readEach_eq_ok_iff.1 hvs)
      rw [writtenOperand?, hm, Option.map_some]
    · cases h
  · next e hne =>
    split at h
    · cases h
    · split at h
      · next v' hv =>
        cases h
        unfold writtenOperand?
        split
        · exact absurd rfl (hne _ _)
        · rw [hv, Option.map_some]
      · cases h

theorem comparison_written {left right : Expression} {operator : Comparison} {l : Leaf}
    (h : comparison left operator right = .ok l) :
    left.fieldName? = some l.field ∧ l.operator = operator ∧
      right.writtenOperand? = some l.operand := by
  unfold comparison at h
  split at h
  · cases h
  · next field hf =>
    obtain ⟨v, hv, rfl⟩ := except_map_eq_ok.1 h
    exact ⟨hf, rfl, writtenOperand?_of_operand hv⟩

/-- Under an odd number of negations (`inverted`) the filter of a condition means the opposite
of what the condition says. -/
theorem condition_meaning (I : Interpretation) {inverted : Bool} {e : Expression} {f : Filter}
    (h : e.condition inverted = .ok f) :
    e.meaning? I = some (f.meaning I != inverted) := by
  rw [condition_eq_ok] at h
  induction h with
  | @negated inverted e f s _ ih =>
    rw [meaning?, ih]
    cases inverted <;> simp
  | @compared inverted left operator right l s hl =>
    obtain ⟨hf, ho, hv⟩ := comparison_written hl
    simp only [meaning?, hf, hv, Filter.meaning, ho]
    cases inverted <;> simp [I.holds_inverse]
  | @joined inverted left right f g c s _ _ ihf ihg =>
    have hc : meaning? I (logical left c right s) =
        some (c.join [f.meaning I != inverted, g.meaning I != inverted]) := by
      cases c <;> simp [meaning?, ihf, ihg, Connective.join]
    rw [hc]
    cases inverted with
    | false => simp [Filter.meaning, Filter.meanings]
    | true =>
      have hd := Connective.join_inverse c.inverse (f.meaning I) (g.meaning I)
      rw [Connective.inverse_inverse] at hd
      simp [Filter.meaning, Filter.meanings, hd]

end Expression

namespace Arguments

theorem conditions_meaning (I : Interpretation) {arguments : Arguments} {fs : List Filter}
    (h : arguments.conditions = .ok fs) :
    arguments.mapM (Expression.meaning? I) = some (Filter.meanings I fs) := by
  induction arguments generalizing fs with
  | nil =>
    cases h
    rfl
  | cons e es ih =>
    rw [conditions_cons] at h
    obtain ⟨f, hf, h⟩ := except_bind_eq_ok.1 h
    obtain ⟨gs, hgs, h⟩ := except_bind_eq_ok.1 h
    cases h
    rw [List.mapM_cons, Expression.condition_meaning I hf, ih hgs]
    simp [Filter.meanings]

theorem filter_eq_ok {arguments : Arguments} {f : Filter} (h : arguments.filter = .ok f) :
    arguments ≠ [] ∧ ∃ fs, arguments.conditions = .ok fs ∧ (Filter.conjunction fs).normalize = f := by
  have hne : arguments ≠ [] := by
    rintro rfl
    cases h
  rw [filter_of_ne_nil hne] at h
  exact ⟨hne, except_map_eq_ok.1 h⟩

/-- Every argument of a `where` that compiles is a condition, and under every interpretation
the filter holds exactly when all of them do. -/
theorem filter_meaning (I : Interpretation) {arguments : Arguments} {f : Filter}
    (h : arguments.filter = .ok f) :
    ∃ values, arguments.mapM (Expression.meaning? I) = some values ∧
      f.meaning I = values.all id := by
  obtain ⟨-, fs, hfs, rfl⟩ := filter_eq_ok h
  refine ⟨Filter.meanings I fs, conditions_meaning I hfs, ?_⟩
  rw [Filter.meaning_normalize, Filter.meaning_conjunction]

/-- The arguments of `where(!(a > "x" && !(b in ["y"] || c == null)), d != true)`. -/
def negatedConditions (s : Span) : Arguments :=
  let a := Expression.binary (.identifier "a" s) .greater (.literal (.string "x") s) s
  let b := Expression.binary (.identifier "b" s) .member (.array [.literal (.string "y") s] s) s
  let c := Expression.binary (.literal (.string "c") s) .equal (.literal .null s) s
  let d := Expression.binary (.identifier "d" s) .notEqual (.literal (.boolean true) s) s
  [.unary .not (.logical a .and (.unary .not (.logical b .or c s) s) s) s, d]

/-- The filter of `negatedConditions`: `(a <= "x" || b in ["y"] || c == null) && d != true`. -/
def negatedConditionsFilter : Filter :=
  .combined .and
    [.combined .or
      [.leaf ⟨"a", .lessOrEqual, .scalar (.string "x")⟩,
        .leaf ⟨"b", .member, .list [.string "y"]⟩, .leaf ⟨"c", .equal, .scalar .null⟩],
      .leaf ⟨"d", .notEqual, .scalar (.boolean true)⟩]

theorem filter_meaning_negatedConditions :
    (negatedConditions ⟨0, 0, 1, 1⟩).filter = .ok negatedConditionsFilter ∧
      ∃ values,
        (negatedConditions ⟨0, 0, 1, 1⟩).mapM
            (Expression.meaning? (.ofPositive fun field _ _ => field == "b")) = some values ∧
          negatedConditionsFilter.meaning (.ofPositive fun field _ _ => field == "b")
            = values.all id :=
  ⟨rfl, filter_meaning _ rfl⟩

end Arguments

end DirectiveQuery
