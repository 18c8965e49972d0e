import DirectiveQuery.CompileError
import DirectiveQuery.Descriptor

/-
  Arguments that are read one by one: the fields of `select` and `extend`, and the sort keys of
  `order`. The first argument that cannot be read is blamed, with its index and its position;
  `readEach_eq_ok_iff` says that there is a result exactly when every argument can be read.
-/
namespace DirectiveQuery

/-- The arguments of a directive. -/
abbrev Arguments := List Expression

/-- Reads each expression of a list, the first of which has the given index. -/
def readEach {α : Type} (read : Expression → Option α) (blame : Nat → Nat → CompileError) :
    (index : Nat) → List Expression → Except CompileError (List α)
  | _, [] => .ok []
  | index, e :: es =>
    match read e with
    | none => .error (blame index e.offset)
    | some a => (readEach read blame (index + 1) es).map (a :: ·)

/-- The fields that the arguments of `select` or `extend` name, repeats included. -/
def Arguments.fields (directive : Directive) (arguments : Arguments) :
    Except CompileError (List String) :=
  readEach Expression.fieldName? (.invalidFieldArgument directive) 0 arguments

/-- A field to sort by: ascending as it is or after a plus sign, descending after a minus
sign. -/
def SortKey.ofExpression? : Expression → Option SortKey
  | .unary .plus e _ => e.fieldName?.map fun field => ⟨field, .ascending⟩
  | .unary .minus e _ => e.fieldName?.map fun field => ⟨field, .descending⟩
  | e => e.fieldName?.map fun field => ⟨field, .ascending⟩

/-- The sort keys that the arguments of `order` give, repeats included. -/
def Arguments.sortKeys (arguments : Arguments) : Except CompileError (List SortKey) :=
  readEach SortKey.ofExpression? .invalidOrderArgument 0 arguments

theorem readEach_eq_ok_iff {α : Type} {read : Expression → Option α}
    {blame : Nat → Nat → CompileError} {index : Nat} {es : List Expression} {as : List α} :
    readEach read blame index es = .ok as ↔ es.map read = as.map some := by
  induction es generalizing index as with
  | nil => cases as <;> simp [readEach]
  | cons e es ih =>
    cases h : read e with
    | none => cases as <;> simp [readEach, h]
    | some a =>
      cases hr : readEach read blame (index + 1) es with
      | error err =>
        have hn : ∀ bs : List α, es.map read ≠ bs.map some := fun bs hb => by
          have := (@ih (index + 1) bs).2 hb
          simp [hr] at this
        cases as with
        | nil => simp [readEach, h, hr, Except.map]
        | cons b bs => simp [readEach, h, hr, Except.map, hn]
      | ok bs =>
        have hb := (@ih (index + 1) bs).1 hr
        cases as with
        | nil => simp [readEach, h, hr, Except.map]
        | cons c cs =>
          simp only [readEach, h, hr, Except.map, Except.ok.injEq, List.cons.injEq, List.map_cons,
            Option.some.injEq, hb]
          refine and_congr_right fun _ => ⟨fun e => by rw [e], fun e => ?_⟩
          exact List.map_inj_right (fun _ _ h => Option.some.inj h) |>.1 e

end DirectiveQuery
