import DirectiveQuery.Descriptor
import DirectiveQuery.Proofs.Filter.Wire

/-
  The JSON of a descriptor loses what the JSON of its filter loses and nothing else. A decoder
  reads each part from the member with its key, in any order, and takes a missing member for a
  missing part.
-/
namespace DirectiveQuery

/-- Reads a direction. -/
def Direction.ofJson? : Json → Option Direction
  | .integer 1 => some ascending
  | .integer (-1) => some descending
  | _ => none

/-- Reads a sort key. -/
def SortKey.ofJson? : Json → Option SortKey
  | .object [(field, direction)] => (Direction.ofJson? direction).map fun d => ⟨field, d⟩
  | _ => none

theorem SortKey.ofJson?_toJson (k : SortKey) : ofJson? k.toJson = some k := by
  obtain ⟨field, direction⟩ := k
  cases direction <;> rfl

namespace Json

/-- Reads a string. -/
def string? : Json → Option String
  | string text => some text
  | _ => none

/-- Reads a natural number. -/
def natural? : Json → Option Nat
  | integer (.ofNat n) => some n
  | _ => none

/-- Reads a list. -/
def list? {α : Type} (element? : Json → Option α) : Json → Option (List α)
  | array es => es.mapM element?
  | _ => none

theorem list?_map {α : Type} {write : α → Json} {element? : Json → Option α}
    (h : ∀ a, element? (write a) = some a) (as : List α) :
    list? element? (array (as.map write)) = some as := by
  have hread : (as.map write).mapM element? = some (as.map id) := mapM_map_eq_some h as
  rw [list?, hread, List.map_id]

theorem string?_string (text : String) : string? (string text) = some text := rfl

theorem list?_strings (texts : List String) : list? string? (strings texts) = some texts :=
  list?_map string?_string texts

/-- Reads a part that may be missing. -/
def part? {α : Type} (key : String) (value? : Json → Option α) (members : List (String × Json)) :
    Option (Option α) :=
  match field? key members with
  | none => some none
  | some value => (value? value).map some

theorem field?_append (key : String) (as bs : List (String × Json)) :
    field? key (as ++ bs) = (field? key bs).or (field? key as) := by
  simp only [field?, List.reverse_append, List.find?_append, Option.map_or]

theorem field?_member (key name : String) (part : Option Json) :
    field? key (Descriptor.member name part) = if name = key then part else none := by
  cases part with
  | none => simp [Descriptor.member, field?]
  | some value => by_cases h : name = key <;> simp [Descriptor.member, field?, h]

variable {α : Type} {key : String} {value? : Json → Option α} {write : α → Json}
  {members : List (String × Json)} {part : Option α}

/-- A part is read as what its value is read as. -/
theorem part?_eq_some (hpart : field? key members = part.map write) {keep : α → α}
    (h : ∀ a, value? (write a) = some (keep a)) :
    part? key value? members = some (part.map keep) := by
  rw [part?, hpart]
  cases part with
  | none => rfl
  | some a => simp [h]

theorem part?_eq_self (hpart : field? key members = part.map write)
    (h : ∀ a, value? (write a) = some a) : part? key value? members = some part := by
  have hread : part? key value? members = some (part.map id) := part?_eq_some hpart h
  rw [hread, Option.map_id, id]

end Json

namespace Descriptor

/-- What is left of a descriptor. -/
def onWire (d : Descriptor) : Descriptor := { d with filter := d.filter.map Filter.onWire }

/-- The values that the filter compares with. -/
def values (d : Descriptor) : List Value := (d.filter.map Filter.values).getD []

/-- All numbers are finite. -/
def IsFinite (d : Descriptor) : Prop := ∀ v ∈ d.values, v.isFinite

/-- Reads a descriptor. -/
def ofJson? : Json → Option Descriptor
  | .object members => do
    return {
      select := ← Json.part? "select" (Json.list? Json.string?) members
      filter := ← Json.part? "where" Filter.ofJson? members
      filterFields := ← Json.part? "whereFields" (Json.list? Json.string?) members
      order := ← Json.part? "order" (Json.list? SortKey.ofJson?) members
      extend := ← Json.part? "extend" (Json.list? Json.string?) members
      limit := ← Json.part? "limit" Json.natural? members
      offset := ← Json.part? "offset" Json.natural? members }
  | _ => none

/-- The members of the JSON are the parts that are there. -/
theorem exists_members (d : Descriptor) : ∃ members, d.toJson = .object members ∧
    Json.field? "select" members = d.select.map Json.strings ∧
    Json.field? "where" members = d.filter.map Filter.toJson ∧
    Json.field? "whereFields" members = d.filterFields.map Json.strings ∧
    Json.field? "order" members = d.order.map (fun keys => .array (keys.map SortKey.toJson)) ∧
    Json.field? "extend" members = d.extend.map Json.strings ∧
    Json.field? "limit" members = d.limit.map (fun n => .integer n) ∧
    Json.field? "offset" members = d.offset.map (fun n => .integer n) := by
  refine ⟨_, rfl, ?_, ?_, ?_, ?_, ?_, ?_, ?_⟩ <;>
    simp [Json.field?_append, Json.field?_member]
  · cases d.limit <;> rfl
  · cases d.offset <;> rfl

/-- The decoder recovers what is left of a descriptor. -/
theorem ofJson?_toJson (d : Descriptor) : ofJson? d.toJson = some d.onWire := by
  obtain ⟨members, hjson, hselect, hfilter, hfields, horder, hextend, hlimit, hoffset⟩ :=
    d.exists_members
  rw [hjson, ofJson?, Json.part?_eq_self hselect Json.list?_strings,
    Json.part?_eq_some hfilter Filter.ofJson?_toJson,
    Json.part?_eq_self hfields Json.list?_strings,
    Json.part?_eq_self horder (Json.list?_map SortKey.ofJson?_toJson),
    Json.part?_eq_self hextend Json.list?_strings,
    Json.part?_eq_self hlimit fun _ => rfl,
    Json.part?_eq_self hoffset fun _ => rfl]
  rfl

theorem toJson_onWire (d : Descriptor) : d.onWire.toJson = d.toJson := by
  have hfilter : (d.filter.map Filter.onWire).map Filter.toJson = d.filter.map Filter.toJson := by
    rw [Option.map_map, Function.comp_def]
    simp only [Filter.toJson_onWire]
  simp only [toJson, onWire, hfilter]

theorem onWire_eq_self {d : Descriptor} (h : d.IsFinite) : d.onWire = d := by
  have hfilter : d.filter.map Filter.onWire = d.filter := by
    unfold IsFinite values at h
    cases hf : d.filter with
    | none => rfl
    | some f =>
      rw [hf] at h
      exact congrArg some (Filter.onWire_eq_self fun l hl v hv =>
        h v (List.mem_flatMap.2 ⟨l, hl, hv⟩))
  rw [onWire, hfilter]

/-- Two descriptors have the same JSON exactly when the same is left of them. -/
theorem toJson_eq_iff {a b : Descriptor} : a.toJson = b.toJson ↔ a.onWire = b.onWire := by
  constructor
  · intro h
    have hread := b.ofJson?_toJson
    rw [← h, ofJson?_toJson] at hread
    exact Option.some.inj hread
  · intro h
    rw [← a.toJson_onWire, ← b.toJson_onWire, h]

end Descriptor

end DirectiveQuery
