import DirectiveQuery.Proofs.Descriptor.Wire
import DirectiveQuery.Proofs.Json.Layout

/-
  The JSON text of a descriptor. Its integers are of the range that the reader of JSON keeps
  exact, so the decoder of the JSON is one of the text as well, in both layouts.
-/
namespace DirectiveQuery

open Json (Exact isExact)

/-- An integer value is one of 64 bits with a sign. -/
def Value.fitsWord : Value → Bool
  | integer n => isWord n
  | _ => true

theorem Value.isExact_of_isWord {n : Int} (h : isWord n) : isExact n := by
  simp only [isWord, Nat.pow_eq, Bool.and_eq_true, decide_eq_true_eq] at h
  simp only [isExact, Bool.and_eq_true, decide_eq_true_eq]
  omega

theorem Value.exact_toJson {v : Value} (h : v.fitsWord) : Exact v.toJson := by
  cases v with
  | integer n => exact .integer (isExact_of_isWord h)
  | float x =>
    cases x with
    | finite negative x => exact .number negative x
    | nan | infinite negative => exact .null
  | string text => exact .string text
  | boolean b => exact .boolean b
  | null => exact .null

theorem Operand.exact_toJson {o : Operand} (h : ∀ v ∈ o.values, v.fitsWord) :
    Exact o.toJson := by
  cases o with
  | scalar v => exact Value.exact_toJson (h v List.mem_cons_self)
  | list vs => exact .array (List.forall_mem_map.2 fun v hv => Value.exact_toJson (h v hv))

theorem Json.exact_member {key : String} {v : Json} (h : Exact v) : Exact (.object [(key, v)]) :=
  .object (List.forall_mem_singleton.2 h)

mutual

theorem Filter.exact_toJson : ∀ {f : Filter},
    (∀ l ∈ f.leaves, ∀ v ∈ l.operand.values, v.fitsWord) → Exact f.toJson
  | leaf l, h => by
    rw [toJson]
    exact Json.exact_member (Json.exact_member (Operand.exact_toJson (h l (by simp [leaves]))))
  | combined c fs, h => by
    rw [toJson]
    exact Json.exact_member (.array (exact_toJsonAll h))

theorem Filter.exact_toJsonAll : ∀ {fs : List Filter},
    (∀ l ∈ leavesAll fs, ∀ v ∈ l.operand.values, v.fitsWord) → ∀ v ∈ toJsonAll fs, Exact v
  | [], _ => List.forall_mem_nil _
  | f :: fs, h => by
    rw [leavesAll, List.forall_mem_append] at h
    rw [toJsonAll]
    exact List.forall_mem_cons.2 ⟨exact_toJson h.1, exact_toJsonAll h.2⟩

end

namespace Descriptor

/-- Every integer fits its word: 64 bits with a sign in a value, without one in a count. -/
structure InRange (d : Descriptor) : Prop where
  values : ∀ v ∈ d.values, v.fitsWord
  limit : ∀ n ∈ d.limit, n < Nat.pow 2 64
  offset : ∀ n ∈ d.offset, n < Nat.pow 2 64

theorem exact_of_mem_member {α : Type} {key : String} {part : Option α} {write : α → Json}
    (h : ∀ a ∈ part, Exact (write a)) : ∀ m ∈ member key (part.map write), Exact m.2 := by
  cases part with
  | none => exact List.forall_mem_nil _
  | some a => exact List.forall_mem_singleton.2 (h a rfl)

theorem exact_strings (texts : List String) : Exact (Json.strings texts) :=
  .array (List.forall_mem_map.2 fun text _ => .string text)

theorem exact_sortKey (k : SortKey) : Exact k.toJson := by
  refine Json.exact_member ?_
  cases k.direction <;> exact .integer (by decide)

theorem exact_count {part : Option Nat} (h : ∀ n ∈ part, n < Nat.pow 2 64) {n : Int}
    (hn : n ∈ (part : Option Int)) : Exact (.integer n) := by
  obtain ⟨k, hk, rfl⟩ : ∃ k ∈ part, (k : Int) = n := by
    simpa [Option.bind_eq_some_iff] using hn
  have hlt := h k hk
  rw [Nat.pow_eq] at hlt
  refine .integer ?_
  simp only [isExact, Bool.and_eq_true, decide_eq_true_eq]
  omega

theorem exact_toJson {d : Descriptor} (h : d.InRange) : Exact d.toJson := by
  refine .object ?_
  simp only [List.forall_mem_append]
  refine ⟨⟨⟨⟨⟨⟨?_, ?_⟩, ?_⟩, ?_⟩, ?_⟩, ?_⟩, ?_⟩
  · exact exact_of_mem_member fun texts _ => exact_strings texts
  · refine exact_of_mem_member fun f hf => Filter.exact_toJson fun l hl v hv => h.values v ?_
    unfold values
    rw [hf]
    exact List.mem_flatMap.2 ⟨l, hl, hv⟩
  · exact exact_of_mem_member fun texts _ => exact_strings texts
  · exact exact_of_mem_member fun keys _ =>
      .array (List.forall_mem_map.2 fun k _ => exact_sortKey k)
  · exact exact_of_mem_member fun texts _ => exact_strings texts
  · exact exact_of_mem_member fun n hn => exact_count h.limit hn
  · exact exact_of_mem_member fun n hn => exact_count h.offset hn

/-- Reads a descriptor from its text. -/
def ofText? (text : String) : Option Descriptor := (Json.ofText? text).bind ofJson?

theorem ofText?_of_json {text : String} {d : Descriptor} (h : Json.ofText? text = some d.toJson) :
    ofText? text = some d.onWire := by
  rw [ofText?, h, Option.bind_some, ofJson?_toJson]

/-- A text from which the JSON of every descriptor is read back keeps what is left of it. -/
theorem text_eq_iff {layout : Json → String} {a b : Descriptor}
    (ha : Json.ofText? (layout a.toJson) = some a.toJson)
    (hb : Json.ofText? (layout b.toJson) = some b.toJson) :
    layout a.toJson = layout b.toJson ↔ a.onWire = b.onWire := by
  rw [← toJson_eq_iff]
  constructor
  · intro h
    rw [h, hb] at ha
    exact (Option.some.inj ha).symm
  · intro h
    rw [h]

/-- The JSON of two descriptors is the same exactly when they are equal with null in the place of
every number that is not finite, as a value and as a text in either layout. So a descriptor of
finite numbers is recovered from its JSON, and from both texts. -/
theorem toJson_faithful (a b : Descriptor) :
    (a.toJson = b.toJson ↔ a.onWire = b.onWire) ∧
    (a.InRange → b.InRange →
      (a.toJson.compact = b.toJson.compact ↔ a.onWire = b.onWire) ∧
      (a.toJson.indented = b.toJson.indented ↔ a.onWire = b.onWire)) ∧
    (a.IsFinite → ofJson? a.toJson = some a ∧
      (a.InRange → ofText? a.toJson.compact = some a ∧ ofText? a.toJson.indented = some a)) := by
  refine ⟨toJson_eq_iff, fun ha hb => ?_, fun hfinite => ?_⟩
  · exact ⟨text_eq_iff (Json.ofText?_compact (exact_toJson ha))
        (Json.ofText?_compact (exact_toJson hb)),
      text_eq_iff (Json.ofText?_indented (exact_toJson ha))
        (Json.ofText?_indented (exact_toJson hb))⟩
  · have hself : a.onWire = a := onWire_eq_self hfinite
    refine ⟨by rw [ofJson?_toJson, hself], fun ha => ?_⟩
    have hcompact := ofText?_of_json (Json.ofText?_compact (exact_toJson ha))
    have hindented := ofText?_of_json (Json.ofText?_indented (exact_toJson ha))
    rw [hself] at hcompact hindented
    exact ⟨hcompact, hindented⟩

/-- A field with the name of a connective is one or a value. -/
def among (v : Value) : Descriptor where
  filter := some (.leaf ⟨"$and", .member, .list [.integer 1, v]⟩)
  limit := some 18446744073709551615

theorem inRange_among {v : Value} (h : v.fitsWord) : (among v).InRange where
  values := List.forall_mem_cons.2 ⟨by decide, List.forall_mem_singleton.2 h⟩
  limit := by
    rintro n ⟨⟩
    decide
  offset := nofun

theorem toJson_faithful_among :
    (among (.float (.infinite true))).InRange ∧ (among .null).InRange ∧
      (among (.float (.infinite true))).toJson.compact = (among .null).toJson.compact ∧
      (among (.float (.finite true .zero))).IsFinite ∧
      (among (.float (.finite true .zero))).InRange ∧
      ofText? (among (.float (.finite true .zero))).toJson.compact =
        some (among (.float (.finite true .zero))) := by
  have hinfinite : (among (.float (.infinite true))).InRange := inRange_among rfl
  have hnull : (among .null).InRange := inRange_among rfl
  have hzero : (among (.float (.finite true .zero))).InRange := inRange_among rfl
  have hfinite : (among (.float (.finite true .zero))).IsFinite := by
    unfold IsFinite
    decide
  refine ⟨hinfinite, hnull, ?_, hfinite, hzero, ?_⟩
  · exact ((toJson_faithful _ _).2.1 hinfinite hnull).1.2 rfl
  · exact (((toJson_faithful _ (among .null)).2.2 hfinite).2 hzero).1

end Descriptor

end DirectiveQuery
