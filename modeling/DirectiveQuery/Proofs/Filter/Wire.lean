import DirectiveQuery.Filter.Basic
import DirectiveQuery.Proofs.Outcome

/-
  The JSON of a filter loses nothing but the numbers that are not finite, which become null.
  What is left of a filter (`onWire`) is read back from its JSON by a decoder. A leaf and a
  combination are told apart by what stands under the key, an object or an array, so a field may
  have the name of a connective.
-/
namespace DirectiveQuery

namespace Value

/-- The value is no number, or a finite one. -/
def isFinite : Value → Bool
  | float x => x.isFinite
  | _ => true

/-- A number that is not finite becomes null. -/
def onWire : Value → Value
  | float x => if x.isFinite then float x else null
  | v => v

/-- Reads a value. -/
def ofJson? : Json → Option Value
  | .null => some null
  | .boolean b => some (boolean b)
  | .integer n => some (integer n)
  | .number negative x => some (float (.finite negative x))
  | .string text => some (string text)
  | .array _ | .object _ => none

theorem ofJson?_toJson (v : Value) : ofJson? v.toJson = some v.onWire := by
  cases v with
  | float x => cases x <;> rfl
  | integer n | string text | boolean b | null => rfl

theorem toJson_onWire (v : Value) : v.onWire.toJson = v.toJson := by
  cases v with
  | float x => cases x <;> rfl
  | integer n | string text | boolean b | null => rfl

theorem onWire_eq_self {v : Value} (h : v.isFinite) : v.onWire = v := by
  cases v with
  | float x => exact if_pos h
  | integer n | string text | boolean b | null => rfl

end Value

namespace Operand

/-- The values of an operand. -/
def values : Operand → List Value
  | scalar v => [v]
  | list vs => vs

/-- What is left of an operand. -/
def onWire : Operand → Operand
  | scalar v => scalar v.onWire
  | list vs => list (vs.map Value.onWire)

/-- Reads an operand. -/
def ofJson? : Json → Option Operand
  | .array es => (es.mapM Value.ofJson?).map list
  | value => (Value.ofJson? value).map scalar

theorem ofJson?_toJson (o : Operand) : ofJson? o.toJson = some o.onWire := by
  cases o with
  | scalar v =>
    have h := Value.ofJson?_toJson v
    cases v with
    | float x => cases x <;> rfl
    | integer n | string text | boolean b | null => rfl
  | list vs => rw [toJson, ofJson?, mapM_map_eq_some Value.ofJson?_toJson, Option.map_some, onWire]

theorem toJson_onWire (o : Operand) : o.onWire.toJson = o.toJson := by
  cases o with
  | scalar v => exact v.toJson_onWire
  | list vs =>
    simp only [onWire, toJson, List.map_map, Function.comp_def, Value.toJson_onWire]

theorem onWire_eq_self {o : Operand} (h : ∀ v ∈ o.values, v.isFinite) : o.onWire = o := by
  cases o with
  | scalar v => rw [onWire, Value.onWire_eq_self (h v List.mem_cons_self)]
  | list vs =>
    have hmap : vs.map Value.onWire = vs.map id :=
      List.map_congr_left fun v hv => Value.onWire_eq_self (h v hv)
    rw [onWire, hmap, List.map_id]

end Operand

/-- The comparison with a key. -/
def Comparison.ofKey? (key : String) : Option Comparison := all.find? fun c => c.key == key

theorem Comparison.ofKey?_key (c : Comparison) : ofKey? c.key = some c := by
  cases c <;> decide

/-- The connective with a key. -/
def Connective.ofKey? (key : String) : Option Connective := all.find? fun c => c.key == key

theorem Connective.ofKey?_key (c : Connective) : ofKey? c.key = some c := by
  cases c <;> decide

namespace Filter

/-- The values that a filter compares with. -/
def values (f : Filter) : List Value := f.leaves.flatMap fun l => l.operand.values

mutual

/-- What is left of a filter. -/
def onWire : Filter → Filter
  | leaf l => leaf ⟨l.field, l.operator, l.operand.onWire⟩
  | combined c fs => combined c (onWireAll fs)

/-- What is left of several filters. -/
def onWireAll : List Filter → List Filter
  | [] => []
  | f :: fs => onWire f :: onWireAll fs

end

mutual

/-- Reads a filter. -/
def ofJson? : Json → Option Filter
  | .object [(field, .object [(key, operand)])] => do
    let operator ← Comparison.ofKey? key
    let operand ← Operand.ofJson? operand
    return leaf ⟨field, operator, operand⟩
  | .object [(key, .array es)] => do
    let c ← Connective.ofKey? key
    let fs ← ofJsonAll? es
    return combined c fs
  | _ => none

/-- Reads several filters. -/
def ofJsonAll? : List Json → Option (List Filter)
  | [] => some []
  | e :: es => do
    let f ← ofJson? e
    let fs ← ofJsonAll? es
    return f :: fs

end

mutual

theorem ofJson?_toJson : ∀ f : Filter, ofJson? f.toJson = some f.onWire
  | leaf l => by
    simp only [toJson, ofJson?, Comparison.ofKey?_key, Operand.ofJson?_toJson, onWire,
      Option.bind_eq_bind, Option.bind_some, Option.pure_def]
  | combined c fs => by
    simp only [toJson, ofJson?, Connective.ofKey?_key, ofJsonAll?_toJsonAll fs, onWire,
      Option.bind_eq_bind, Option.bind_some, Option.pure_def]

theorem ofJsonAll?_toJsonAll : ∀ fs : List Filter, ofJsonAll? (toJsonAll fs) = some (onWireAll fs)
  | [] => rfl
  | f :: fs => by
    simp only [toJsonAll, ofJsonAll?, ofJson?_toJson f, ofJsonAll?_toJsonAll fs, onWireAll,
      Option.bind_eq_bind, Option.bind_some, Option.pure_def]

end

mutual

theorem toJson_onWire : ∀ f : Filter, f.onWire.toJson = f.toJson
  | leaf l => by rw [onWire, toJson, toJson, Operand.toJson_onWire]
  | combined c fs => by rw [onWire, toJson, toJson, toJsonAll_onWireAll fs]

theorem toJsonAll_onWireAll : ∀ fs : List Filter, toJsonAll (onWireAll fs) = toJsonAll fs
  | [] => rfl
  | f :: fs => by rw [onWireAll, toJsonAll, toJsonAll, toJson_onWire f, toJsonAll_onWireAll fs]

end

mutual

theorem onWire_eq_self : ∀ {f : Filter}, (∀ l ∈ f.leaves, ∀ v ∈ l.operand.values, v.isFinite) →
    f.onWire = f
  | leaf l, h => by rw [onWire, Operand.onWire_eq_self (h l (by simp [leaves]))]
  | combined c fs, h => by rw [onWire, onWireAll_eq_self h]

theorem onWireAll_eq_self : ∀ {fs : List Filter},
    (∀ l ∈ leavesAll fs, ∀ v ∈ l.operand.values, v.isFinite) → onWireAll fs = fs
  | [], _ => rfl
  | f :: fs, h => by
    rw [leavesAll, List.forall_mem_append] at h
    rw [onWireAll, onWire_eq_self h.1, onWireAll_eq_self h.2]

end

end Filter

end DirectiveQuery
