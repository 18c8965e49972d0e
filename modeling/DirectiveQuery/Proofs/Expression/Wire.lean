import DirectiveQuery.Command.Run
import DirectiveQuery.Proofs.Grammar.Spans
import DirectiveQuery.Proofs.Json.Layout
import DirectiveQuery.Proofs.Outcome

/-
  Trees handed over as JSON. A node is read back if its literal, should it be one, and the nodes
  under it are (`nodeOfJson?_toJson`), and is refused if one of these is (`nodeOfJson?_refuses`);
  so a tree is read back as it was, spans included, or, with a number in it that is not finite,
  not at all. Such a number is written as null, and the reader takes null for no number. The
  reader of trees follows the nesting of the JSON, which goes down at least by one for each node.
-/
namespace DirectiveQuery

open Json (Exact isExact)

/-! ## Parts of a node -/

/-- The positions of a span are of 64 bits. -/
structure Span.FitsWords (s : Span) : Prop where
  start : s.start < Nat.pow 2 64
  stop : s.stop < Nat.pow 2 64
  line : s.line < Nat.pow 2 64
  column : s.column < Nat.pow 2 64

theorem positionOfJson?_natCast {n : Nat} (h : n < Nat.pow 2 64) :
    positionOfJson? (.integer n) = some n := if_pos h

theorem Span.ofJson?_toJson {s : Span} (h : s.FitsWords) : ofJson? s.toJson = some s := by
  have hparts : s.toJson.record? ["start", "end", "line", "column"] =
      some [.integer s.start, .integer s.stop, .integer s.line, .integer s.column] := rfl
  rw [ofJson?, hparts]
  simp only [Option.bind_eq_bind, Option.bind_some, List.mapM_cons, List.mapM_nil,
    positionOfJson?_natCast h.start, positionOfJson?_natCast h.stop,
    positionOfJson?_natCast h.line, positionOfJson?_natCast h.column, Option.pure_def]

theorem Mark.ofTreeName?_treeName (m : Mark) : ofTreeName? m.treeName = some m := by
  cases m <;> decide

theorem Comparison.ofTreeName?_treeName (c : Comparison) : ofTreeName? c.treeName = some c := by
  cases c <;> decide

theorem Connective.ofTreeName?_treeName (c : Connective) : ofTreeName? c.treeName = some c := by
  cases c <;> decide

namespace Literal

/-- The literal is no number, or a finite one. -/
def isFinite : Literal → Bool
  | number x => x.isFinite
  | _ => true

theorem ofJson?_toJson {v : Literal} (h : v.isFinite) : ofJson? v.toJson = some v := by
  cases v with
  | number x =>
    cases x with
    | finite negative x => rfl
    | nan | infinite negative => cases h
  | string text | boolean b | null => rfl

/-- A number that is not finite is no literal any more. -/
theorem ofJson?_toJson_of_not_isFinite {v : Literal} (h : ¬ v.isFinite) :
    ofJson? v.toJson = none := by
  cases v with
  | number x =>
    cases x with
    | finite negative x => exact absurd rfl h
    | nan | infinite negative => rfl
  | string text | boolean b | null => exact absurd rfl h

end Literal

namespace Json

theorem depth_le_depthOfElements {v : Json} {vs : List Json} (h : v ∈ vs) :
    v.depth ≤ depthOfElements vs := by
  induction vs with
  | nil => cases h
  | cons w ws ih =>
    rw [depthOfElements]
    rcases List.mem_cons.1 h with rfl | h
    · exact Nat.le_max_left _ _
    · exact Nat.le_trans (ih h) (Nat.le_max_right _ _)

end Json

namespace Expression

/-! ## One node -/

section Node

variable {inner : Json → Option Expression} {e : Expression} {es : List Expression}

theorem toJsonAll_eq_map (es : List Expression) : toJsonAll es = es.map toJson := by
  induction es with
  | nil => rfl
  | cons e es ih => rw [toJsonAll, ih, List.map_cons]

theorem mapM_toJsonAll (h : ∀ e ∈ es, inner e.toJson = some e) :
    (toJsonAll es).mapM inner = some es := by
  rw [toJsonAll_eq_map, mapM_eq_some_iff, List.map_map]
  exact List.map_congr_left h

theorem mapM_toJsonAll_refuses (he : e ∈ es) (h : inner e.toJson = none) :
    (toJsonAll es).mapM inner = none := by
  rw [Option.eq_none_iff_forall_ne_some]
  intro read hread
  rw [mapM_eq_some_iff, toJsonAll_eq_map, List.map_map] at hread
  have hnone : none ∈ read.map some := hread ▸ List.mem_map.2 ⟨e, he, h⟩
  obtain ⟨_, -, hsome⟩ := List.mem_map.1 hnone
  cases hsome

/-- The node is no number, or a finite one. -/
def isFiniteNode : Expression → Bool
  | literal v _ => v.isFinite
  | _ => true

/-! What becomes of the parts of each kind of node. -/

theorem nodeOfJson?_identifier (name : String) (s : Span) :
    nodeOfJson? inner (identifier name s).toJson =
      (Span.ofJson? s.toJson).bind fun s => some (identifier name s) := rfl

theorem nodeOfJson?_literal (v : Literal) (s : Span) :
    nodeOfJson? inner (literal v s).toJson = (Span.ofJson? s.toJson).bind fun s =>
      (Literal.ofJson? v.toJson).bind fun v => some (literal v s) := rfl

theorem nodeOfJson?_unary (m : Mark) (e : Expression) (s : Span) :
    nodeOfJson? inner (unary m e s).toJson = (Span.ofJson? s.toJson).bind fun s =>
      (Mark.ofTreeName? m.treeName).bind fun m =>
        (inner e.toJson).bind fun e => some (unary m e s) := rfl

theorem nodeOfJson?_binary (left right : Expression) (c : Comparison) (s : Span) :
    nodeOfJson? inner (binary left c right s).toJson = (Span.ofJson? s.toJson).bind fun s =>
      (inner left.toJson).bind fun left => (Comparison.ofTreeName? c.treeName).bind fun c =>
        (inner right.toJson).bind fun right => some (binary left c right s) := rfl

theorem nodeOfJson?_logical (left right : Expression) (c : Connective) (s : Span) :
    nodeOfJson? inner (logical left c right s).toJson = (Span.ofJson? s.toJson).bind fun s =>
      (inner left.toJson).bind fun left => (Connective.ofTreeName? c.treeName).bind fun c =>
        (inner right.toJson).bind fun right => some (logical left c right s) := rfl

theorem nodeOfJson?_array (es : List Expression) (s : Span) :
    nodeOfJson? inner (array es s).toJson = (Span.ofJson? s.toJson).bind fun s =>
      ((toJsonAll es).mapM inner).bind fun es => some (array es s) := rfl

theorem nodeOfJson?_call (callee : Expression) (es : List Expression) (s : Span) :
    nodeOfJson? inner (call callee es s).toJson = (Span.ofJson? s.toJson).bind fun s =>
      (inner callee.toJson).bind fun callee =>
        ((toJsonAll es).mapM inner).bind fun es => some (call callee es s) := rfl

theorem nodeOfJson?_sequence (es : List Expression) (s : Span) :
    nodeOfJson? inner (sequence es s).toJson = (Span.ofJson? s.toJson).bind fun s =>
      ((toJsonAll es).mapM inner).bind fun es => some (sequence es s) := rfl

/-- A node is read back if the nodes under it are. -/
theorem nodeOfJson?_toJson (hspan : e.span.FitsWords) (hnumber : e.isFiniteNode)
    (h : ∀ child ∈ e.children, inner child.toJson = some child) :
    nodeOfJson? inner e.toJson = some e := by
  have hread := Span.ofJson?_toJson hspan
  cases e with
  | identifier name s =>
    simp only [span] at hread
    rw [nodeOfJson?_identifier, hread, Option.bind_some]
  | literal v s =>
    simp only [span] at hread
    rw [nodeOfJson?_literal, hread, Option.bind_some, Literal.ofJson?_toJson hnumber,
      Option.bind_some]
  | unary m argument s =>
    simp only [span] at hread
    rw [nodeOfJson?_unary, hread, Option.bind_some, Mark.ofTreeName?_treeName, Option.bind_some,
      h argument List.mem_cons_self, Option.bind_some]
  | binary left c right s =>
    simp only [span] at hread
    rw [nodeOfJson?_binary, hread, Option.bind_some, h left List.mem_cons_self, Option.bind_some,
      Comparison.ofTreeName?_treeName, Option.bind_some,
      h right (List.mem_cons_of_mem _ List.mem_cons_self), Option.bind_some]
  | logical left c right s =>
    simp only [span] at hread
    rw [nodeOfJson?_logical, hread, Option.bind_some, h left List.mem_cons_self, Option.bind_some,
      Connective.ofTreeName?_treeName, Option.bind_some,
      h right (List.mem_cons_of_mem _ List.mem_cons_self), Option.bind_some]
  | array es s =>
    simp only [span] at hread
    have hes : ∀ child ∈ es, inner child.toJson = some child := h
    rw [nodeOfJson?_array, hread, Option.bind_some, mapM_toJsonAll hes, Option.bind_some]
  | call callee es s =>
    simp only [span] at hread
    obtain ⟨hcallee, hes⟩ := List.forall_mem_cons.1 h
    rw [nodeOfJson?_call, hread, Option.bind_some, hcallee, Option.bind_some, mapM_toJsonAll hes,
      Option.bind_some]
  | sequence es s =>
    simp only [span] at hread
    have hes : ∀ child ∈ es, inner child.toJson = some child := h
    rw [nodeOfJson?_sequence, hread, Option.bind_some, mapM_toJsonAll hes, Option.bind_some]

/-- A number that is not finite is refused. -/
theorem nodeOfJson?_refuses_number (h : ¬ e.isFiniteNode) : nodeOfJson? inner e.toJson = none := by
  cases e with
  | literal v s =>
    rw [nodeOfJson?_literal, Literal.ofJson?_toJson_of_not_isFinite h]
    simp only [Option.bind_none, Option.bind_fun_none]
  | _ => exact absurd rfl h

/-- A node is refused if one of the nodes under it is. -/
theorem nodeOfJson?_refuses {child : Expression} (hchild : child ∈ e.children)
    (h : inner child.toJson = none) : nodeOfJson? inner e.toJson = none := by
  cases e with
  | identifier | literal => cases hchild
  | unary m argument s =>
    obtain rfl := List.mem_singleton.1 hchild
    rw [nodeOfJson?_unary, h]
    simp only [Option.bind_none, Option.bind_fun_none]
  | binary left c right s =>
    simp only [children, List.mem_cons, List.not_mem_nil, or_false] at hchild
    rcases hchild with rfl | rfl <;>
      simp only [nodeOfJson?_binary, h, Option.bind_none, Option.bind_fun_none]
  | logical left c right s =>
    simp only [children, List.mem_cons, List.not_mem_nil, or_false] at hchild
    rcases hchild with rfl | rfl <;>
      simp only [nodeOfJson?_logical, h, Option.bind_none, Option.bind_fun_none]
  | array es s =>
    have hes : child ∈ es := hchild
    rw [nodeOfJson?_array, mapM_toJsonAll_refuses hes h]
    simp only [Option.bind_none, Option.bind_fun_none]
  | call callee es s =>
    rcases List.mem_cons.1 hchild with rfl | hes
    · rw [nodeOfJson?_call, h]
      simp only [Option.bind_none, Option.bind_fun_none]
    · rw [nodeOfJson?_call, mapM_toJsonAll_refuses hes h]
      simp only [Option.bind_none, Option.bind_fun_none]
  | sequence es s =>
    have hes : child ∈ es := hchild
    rw [nodeOfJson?_sequence, mapM_toJsonAll_refuses hes h]
    simp only [Option.bind_none, Option.bind_fun_none]

/-- The JSON of a node is nested deeper than that of the nodes under it. -/
theorem depth_lt_of_child {child : Expression} (h : child ∈ e.children) :
    child.toJson.depth < e.toJson.depth := by
  have hall : ∀ {es : List Expression}, child ∈ es →
      child.toJson.depth ≤ Json.depthOfElements (toJsonAll es) := by
    intro es hes
    rw [toJsonAll_eq_map]
    exact Json.depth_le_depthOfElements (List.mem_map_of_mem hes)
  cases e with
  | identifier | literal => cases h
  | unary m argument s =>
    obtain rfl := List.mem_singleton.1 h
    simp only [toJson, node, Json.tagged, Json.depth, Json.depthOfMembers]
    omega
  | binary left operator right s | logical left operator right s =>
    simp only [children, List.mem_cons, List.not_mem_nil, or_false] at h
    simp only [toJson, node, Json.tagged, Json.depth, Json.depthOfMembers]
    rcases h with rfl | rfl <;> omega
  | array es s | sequence es s =>
    have hes : child ∈ es := h
    have := hall hes
    simp only [toJson, node, Json.tagged, Json.depth, Json.depthOfMembers]
    omega
  | call callee es s =>
    simp only [toJson, node, Json.tagged, Json.depth, Json.depthOfMembers]
    rcases List.mem_cons.1 h with rfl | hes
    · omega
    · have := hall hes
      omega

end Node

/-! ## Whole trees -/

/-- Every number in the tree is finite. -/
def IsFinite (e : Expression) : Prop := ∀ node, IsNode node e → node.isFiniteNode

/-- All positions in the tree are of 64 bits. -/
def FitsWords (e : Expression) : Prop := ∀ node, IsNode node e → node.span.FitsWords

/-- What holds of all nodes of a tree holds of its root and of all nodes of the trees under it. -/
theorem forall_isNode_iff {P : Expression → Prop} {e : Expression} :
    (∀ node, IsNode node e → P node) ↔ P e ∧ ∀ child ∈ e.children, ∀ node, IsNode node child →
      P node := by
  constructor
  · exact fun h => ⟨h e (.root e), fun child hc node hn => h node (.under hc hn)⟩
  · rintro ⟨hroot, hbelow⟩ node hn
    cases hn with
    | root => exact hroot
    | under hc hn => exact hbelow _ hc node hn

variable {e : Expression}

theorem ofJsonWithin?_toJson (hspans : e.FitsWords) (hnumbers : e.IsFinite) {depth : Nat}
    (hd : e.toJson.depth ≤ depth) : ofJsonWithin? depth e.toJson = some e := by
  induction e using Expression.induction generalizing depth with
  | step e ih =>
    obtain ⟨hspan, hspans⟩ := forall_isNode_iff.1 hspans
    obtain ⟨hnumber, hnumbers⟩ := forall_isNode_iff.1 hnumbers
    cases depth with
    | zero => cases e <;> cases hd
    | succ depth =>
      refine nodeOfJson?_toJson hspan hnumber fun child hc => ?_
      have := depth_lt_of_child hc
      exact ih child hc (hspans child hc) (hnumbers child hc) (by omega)

theorem ofJson?_toJson (hspans : e.FitsWords) (hnumbers : e.IsFinite) :
    ofJson? e.toJson = some e := ofJsonWithin?_toJson hspans hnumbers (Nat.le_refl _)

/-- One number that is not finite is enough for a refusal. -/
theorem ofJsonWithin?_refuses {node : Expression} (hn : IsNode node e)
    (hnumber : ¬ node.isFiniteNode) (depth : Nat) : ofJsonWithin? depth e.toJson = none := by
  induction hn generalizing depth with
  | root =>
    cases depth with
    | zero => rfl
    | succ depth => exact nodeOfJson?_refuses_number hnumber
  | under hc _ ih =>
    cases depth with
    | zero => rfl
    | succ depth => exact nodeOfJson?_refuses hc (ih depth)

theorem ofJson?_refuses (h : ¬ e.IsFinite) : ofJson? e.toJson = none := by
  simp only [IsFinite, not_forall] at h
  obtain ⟨node, hn, hnumber⟩ := h
  exact ofJsonWithin?_refuses hn hnumber _

/-! ## Texts -/

theorem exact_position {n : Nat} (h : n < Nat.pow 2 64) : Exact (.integer n) := by
  rw [Nat.pow_eq] at h
  refine .integer ?_
  simp only [isExact, Bool.and_eq_true, decide_eq_true_eq]
  omega

theorem exact_span {s : Span} (h : s.FitsWords) : Exact s.toJson :=
  .object (by simp [exact_position h.start, exact_position h.stop, exact_position h.line,
    exact_position h.column])

theorem exact_literal (v : Literal) : Exact v.toJson := by
  cases v with
  | number x =>
    refine .object (List.forall_mem_singleton.2 ?_)
    cases x with
    | finite negative x => exact .number negative x
    | nan | infinite negative => exact .null
  | string text => exact .object (List.forall_mem_singleton.2 (.string text))
  | boolean b => exact .object (List.forall_mem_singleton.2 (.boolean b))
  | null => exact .string _

theorem exact_node {s : Span} {name : String} {parts : Json} (hs : s.FitsWords)
    (hparts : Exact parts) : Exact (node s (.tagged name parts)) :=
  have hkind : Exact (.tagged name parts) := .object (List.forall_mem_singleton.2 hparts)
  .object (by simp [hkind, exact_span hs])

theorem exact_toJson (h : e.FitsWords) : Exact e.toJson := by
  induction e using Expression.induction with
  | step e ih =>
    obtain ⟨hspan, hspans⟩ := forall_isNode_iff.1 h
    replace ih : ∀ child ∈ e.children, Exact child.toJson := fun child hc =>
      ih child hc (hspans child hc)
    have hall : ∀ {es : List Expression}, (∀ child ∈ es, Exact child.toJson) →
        Exact (.array (toJsonAll es)) := by
      intro es hes
      rw [toJsonAll_eq_map]
      exact .array (List.forall_mem_map.2 hes)
    cases e with
    | identifier name s => exact exact_node hspan (.string name)
    | literal v s => exact exact_node hspan (exact_literal v)
    | unary m argument s =>
      refine exact_node hspan (.object ?_)
      simpa [Exact.string] using ih argument List.mem_cons_self
    | binary left operator right s | logical left operator right s =>
      refine exact_node hspan (.object ?_)
      simpa [Exact.string, children] using ih
    | array es s | sequence es s => exact exact_node hspan (hall ih)
    | call callee es s =>
      obtain ⟨hcallee, hes⟩ := List.forall_mem_cons.1 ih
      refine exact_node hspan (.object ?_)
      simpa using ⟨hcallee, hall hes⟩

/-- The text in which a tree is handed over. -/
def treeText (e : Expression) : String := e.toJson.indented ++ "\n"

/-- Reads a tree from a text. -/
def ofText? (text : String) : Option Expression := (Json.ofText? text).bind ofJson?

theorem ofText?_treeText (h : e.FitsWords) : ofText? e.treeText = ofJson? e.toJson := by
  rw [ofText?, treeText, Json.ofText?_indented_line (exact_toJson h), Option.bind_some]

theorem run_tree {files : Files} {source : QuerySource} {query : String}
    (hload : source.load files.read = .ok query) (hparse : parse query = .ok e)
    (env : Environment) (rules : List LogRule) :
    ((Command.tree source).run files env rules).stdout = e.treeText := by
  simp only [Command.run, Command.report, Command.onQuery, hload, hparse, treeText]

/-- A tree whose numbers are finite is what its text is read as, and compiles as that does; the
text of any other tree is refused. That text is what is put out for a query that has the tree. -/
theorem treeText_faithful (h : e.FitsWords) :
    (e.IsFinite → ofText? e.treeText = some e) ∧
    (¬ e.IsFinite → ofText? e.treeText = none) ∧
    (e.IsFinite → ∀ options : CompileOptions,
      (ofText? e.treeText).map (Descriptor.ofExpression options) =
        some (Descriptor.ofExpression options e)) ∧
    ∀ (files : Files) (env : Environment) (rules : List LogRule) (source : QuerySource)
      (query : String), source.load files.read = .ok query → parse query = .ok e →
        ((Command.tree source).run files env rules).stdout = e.treeText := by
  have hread : e.IsFinite → ofText? e.treeText = some e := fun hfinite => by
    rw [ofText?_treeText h, ofJson?_toJson h hfinite]
  refine ⟨hread, fun hinfinite => ?_, fun hfinite options => ?_, ?_⟩
  · rw [ofText?_treeText h, ofJson?_refuses hinfinite]
  · rw [hread hfinite, Option.map_some]
  · exact fun files env rules source query hload hparse => run_tree hload hparse env rules

/-- An array of one literal. -/
def single (v : Literal) : Expression := .array [.literal v ⟨1, 5, 1, 2⟩] ⟨0, 6, 1, 1⟩

theorem fitsWords_single (v : Literal) : (single v).FitsWords := by
  have harray : (⟨0, 6, 1, 1⟩ : Span).FitsWords := by constructor <;> decide
  have hliteral : (⟨1, 5, 1, 2⟩ : Span).FitsWords := by constructor <;> decide
  exact forall_isNode_iff.2 ⟨harray,
    List.forall_mem_singleton.2 (forall_isNode_iff.2 ⟨hliteral, nofun⟩)⟩

theorem isFinite_single {v : Literal} : (single v).IsFinite ↔ v.isFinite := by
  constructor
  · exact fun h => h _ (.under List.mem_cons_self (.root _))
  · intro hv
    exact forall_isNode_iff.2 ⟨rfl,
      List.forall_mem_singleton.2 (forall_isNode_iff.2 ⟨hv, nofun⟩)⟩

theorem treeText_faithful_single :
    (single (.number (.finite true .zero))).FitsWords ∧
    (single (.number (.finite true .zero))).IsFinite ∧
    ofText? (single (.number (.finite true .zero))).treeText =
      some (single (.number (.finite true .zero))) ∧
    (single (.number (.infinite false))).FitsWords ∧
    ¬ (single (.number (.infinite false))).IsFinite ∧
    ofText? (single (.number (.infinite false))).treeText = none ∧
    parse "[null]" = .ok (single .null) ∧
    ((Command.tree (.text "[null]")).run ⟨[]⟩ ⟨[]⟩ []).stdout = (single .null).treeText := by
  have hzero : (single (.number (.finite true .zero))).IsFinite := isFinite_single.2 rfl
  have hinfinite : ¬ (single (.number (.infinite false))).IsFinite := fun h =>
    Bool.false_ne_true (isFinite_single.1 h)
  have hparse : parse "[null]" = .ok (single .null) := rfl
  obtain ⟨-, -, -, hrun⟩ := treeText_faithful (fitsWords_single .null)
  exact ⟨fitsWords_single _, hzero, (treeText_faithful (fitsWords_single _)).1 hzero,
    fitsWords_single _, hinfinite, (treeText_faithful (fitsWords_single _)).2.1 hinfinite, hparse,
    hrun ⟨[]⟩ ⟨[]⟩ [] (.text "[null]") _ rfl hparse⟩

end Expression

end DirectiveQuery
