import DirectiveQuery.Proofs.Compile.Compiler
import DirectiveQuery.Proofs.Compile.Steps
import DirectiveQuery.Proofs.Grammar.Placing

/-
  Errors point at what they talk about. In a tree, the position of an error is the start of the
  node that the error is about (`IsAbout`): a call for its name, an argument or an element with
  its index, an operand for its mark. Each step of compiling blames a node of the tree that it
  was given, so every step keeps this, whatever the spans of the tree are. What the characters at
  that position are is then a matter of how parsed trees stand in their text: a name that is
  called is a whole word, since only spaces and closing parentheses can come between it and its
  arguments, and a mark is the first character of its node.
-/
namespace DirectiveQuery

open Expression

/-! ## Trees -/

theorem Expression.IsNode.trans {a b c : Expression} (h : IsNode a b) (h' : IsNode b c) :
    IsNode a c := by
  induction h' with
  | root => exact h
  | under hm _ ih => exact .under hm ih

theorem Expression.IsNode.child {a b : Expression} (h : a ∈ b.children) : IsNode a b :=
  .under h (.root a)

namespace Expression

/-- Every node of the tree stands in the text as its span says. -/
def AllPlaced (text : List Char) (e : Expression) : Prop :=
  ∀ node, IsNode node e → node.IsPlaced text

namespace AllPlaced

variable {text : List Char} {a b e node other : Expression} {es : List Expression}

theorem of_parse {query : String} {tree : Expression} (h : parse query = .ok tree)
    (hn : IsNode node tree) : AllPlaced query.toList node :=
  fun _ hm => parse_isPlaced h (hm.trans hn)

theorem child (h : AllPlaced text e) (hn : node ∈ e.children) : AllPlaced text node :=
  fun m hm => h m (hm.trans (.child hn))

/-- The sides of an operator stand one behind the other. -/
theorem sides (h : AllPlaced text e) (he : e.children = [a, b]) :
    AllPlaced text a ∧ AllPlaced text b ∧ a.span.stop ≤ b.span.start := by
  have hapart := (h e (.root e)).apart
  rw [he, List.pairwise_pair] at hapart
  exact ⟨h.child (by simp [he]), h.child (by simp [he]), hapart⟩

/-- A node stands in the tree. -/
theorem within (h : AllPlaced text e) (hn : IsNode node e) :
    e.offset ≤ node.offset ∧ node.span.stop ≤ e.span.stop := by
  induction hn with
  | root => exact ⟨Nat.le_refl _, Nat.le_refl _⟩
  | @under c e hc hn ih =>
    obtain ⟨hstart, hstop⟩ := (h e (.root e)).inside c hc
    obtain ⟨hstart', hstop'⟩ := ih (h.child hc)
    unfold offset at *
    omega

/-- A node of one tree starts before any node of a tree behind it. -/
theorem offset_lt (ha : AllPlaced text a) (hb : AllPlaced text b)
    (hab : a.span.stop ≤ b.span.start) (hnode : IsNode node a) (hother : IsNode other b) :
    node.offset < other.offset := by
  have hlt := (ha node hnode).start_lt_stop
  have hstop := (ha.within hnode).2
  have hstart := (hb.within hother).1
  unfold offset at *
  omega

end AllPlaced

end Expression

namespace CompileError

/-- The node is what the error is about: it starts at the position of the error, or has the
part that starts there, and it is as the error says. -/
def IsAbout (node : Expression) : CompileError → Prop
  | emptyQuery | unparsable _ => False
  | malformedQuery n | invalidComparisonField n | typeMismatch _ n | unknownExpression n =>
    node.offset = n
  | unknownDirective name n => ∃ s es t, node = .call (.identifier name s) es t ∧ s.start = n
  | duplicateDirective d n => ∃ s es t, node = .call (.identifier d.name s) es t ∧ t.start = n
  | invalidFieldArgument d i n =>
    ∃ s es t e, node = .call (.identifier d.name s) es t ∧ es[i]? = some e ∧ e.offset = n
  | invalidOrderArgument i n => ∃ s es t e,
    node = .call (.identifier Directive.order.name s) es t ∧ es[i]? = some e ∧ e.offset = n
  | invalidIntegerArgument d n =>
    ∃ s e t, node = .call (.identifier d.name s) [e] t ∧ e.offset = n
  | invalidArrayElement i n => ∃ es s e, node = .array es s ∧ es[i]? = some e ∧ e.offset = n
  | unknownOperator token n =>
    ∃ mark e s, mark ≠ .not ∧ mark.token = token ∧ node = .unary mark e s ∧ s.start = n
  | arityMismatch d found => ∃ s es t, node = .call (.identifier d.name s) es t ∧ es.length = found

/-- The error is about a node of the tree. -/
def Concerns (err : CompileError) (tree : Expression) : Prop :=
  ∃ node, IsNode node tree ∧ err.IsAbout node

variable {err : CompileError} {tree : Expression}

theorem IsAbout.concerns (h : err.IsAbout tree) : err.Concerns tree := ⟨tree, .root tree, h⟩

theorem Concerns.within {child : Expression} (h : err.Concerns child) (hn : IsNode child tree) :
    err.Concerns tree := by
  obtain ⟨node, hnode, habout⟩ := h
  exact ⟨node, hnode.trans hn, habout⟩

/-- The position of an error is the start of a node. -/
theorem Concerns.exists_start {n : Nat} (h : err.Concerns tree) (hn : err.offset? = some n) :
    ∃ node, IsNode node tree ∧ node.offset = n := by
  obtain ⟨node, hnode, habout⟩ := h
  have hargument : ∀ {callee : Expression} {es : List Expression} {t : Span} {i : Nat}
      {e : Expression}, node = .call callee es t → es[i]? = some e → IsNode e tree := by
    rintro callee es t i e rfl he
    exact (IsNode.child (List.mem_cons_of_mem _ (List.mem_of_getElem? he))).trans hnode
  cases err with
  | emptyQuery | unparsable => exact habout.elim
  | arityMismatch => cases hn
  | malformedQuery | invalidComparisonField | typeMismatch | unknownExpression =>
    cases hn
    exact ⟨node, hnode, habout⟩
  | unknownDirective =>
    cases hn
    obtain ⟨s, es, t, rfl, rfl⟩ := habout
    exact ⟨_, (IsNode.child List.mem_cons_self).trans hnode, rfl⟩
  | duplicateDirective =>
    cases hn
    obtain ⟨s, es, t, rfl, rfl⟩ := habout
    exact ⟨_, hnode, rfl⟩
  | invalidFieldArgument | invalidOrderArgument =>
    cases hn
    obtain ⟨s, es, t, e, hcall, he, rfl⟩ := habout
    exact ⟨e, hargument hcall he, rfl⟩
  | invalidIntegerArgument =>
    cases hn
    obtain ⟨s, e, t, hcall, rfl⟩ := habout
    exact ⟨e, hargument (i := 0) hcall rfl, rfl⟩
  | invalidArrayElement =>
    cases hn
    obtain ⟨es, s, e, rfl, he, rfl⟩ := habout
    exact ⟨e, (IsNode.child (List.mem_of_getElem? he)).trans hnode, rfl⟩
  | unknownOperator =>
    cases hn
    obtain ⟨mark, e, s, -, -, rfl, rfl⟩ := habout
    exact ⟨_, hnode, rfl⟩

end CompileError

/-! ## The steps of compiling -/

section

variable {err : CompileError}

/-- Whatever cannot be read, its index and its position are reported. -/
theorem readEach_eq_error {α : Type} {read : Expression → Option α}
    {blame : Nat → Nat → CompileError} {index : Nat} {es : List Expression}
    (h : readEach read blame index es = .error err) :
    ∃ i e, es[i]? = some e ∧ err = blame (index + i) e.offset := by
  induction es generalizing index with
  | nil => cases h
  | cons e es ih =>
    rw [readEach] at h
    cases hr : read e with
    | none =>
      rw [hr] at h
      cases h
      exact ⟨0, e, rfl, rfl⟩
    | some a =>
      rw [hr] at h
      obtain ⟨i, e', he, rfl⟩ := ih (except_map_eq_error.1 h)
      exact ⟨i + 1, e', he, by rw [Nat.add_right_comm, Nat.add_assoc]⟩

namespace Expression

theorem operand_concerns {operator : Comparison} {e : Expression}
    (h : e.operand operator = .error err) : err.Concerns e := by
  cases e with
  | array es s =>
    rw [operand] at h
    split at h
    · obtain ⟨i, e, he, rfl⟩ := readEach_eq_error (except_map_eq_error.1 h)
      rw [Nat.zero_add]
      exact CompileError.IsAbout.concerns ⟨es, s, e, rfl, he, rfl⟩
    · cases h
      exact CompileError.IsAbout.concerns rfl
  | _ =>
    rw [operand_of_scalar (by rintro _ _ ⟨⟩)] at h
    split at h
    · cases h
      exact CompileError.IsAbout.concerns rfl
    · split at h
      · cases h
      · cases h
        exact CompileError.IsAbout.concerns rfl

theorem comparison_concerns {left right : Expression} {operator : Comparison}
    (h : comparison left operator right = .error err) : err.Concerns left ∨ err.Concerns right := by
  rw [comparison] at h
  split at h
  · cases h
    exact .inl (CompileError.IsAbout.concerns rfl)
  · exact .inr (operand_concerns (except_map_eq_error.1 h))

theorem condition_concerns {inverted : Bool} {e : Expression}
    (h : e.condition inverted = .error err) : err.Concerns e := by
  induction inverted, e using condition_induction with
  | negated inverted e s ih => exact (ih h).within (.child List.mem_cons_self)
  | signed inverted mark e s hm =>
    rw [condition_sign hm] at h
    cases h
    exact CompileError.IsAbout.concerns ⟨mark, e, s, hm, rfl, rfl, rfl⟩
  | compared inverted left operator right s =>
    rw [condition_binary] at h
    obtain h | h := comparison_concerns (except_map_eq_error.1 h)
    · exact h.within (.child List.mem_cons_self)
    · exact h.within (.child (List.mem_cons_of_mem _ List.mem_cons_self))
  | joined inverted left connective right s ihl ihr =>
    rw [condition_logical, except_bind_eq_error] at h
    obtain h | ⟨f, -, h⟩ := h
    · exact (ihl h).within (.child List.mem_cons_self)
    · obtain h | ⟨g, -, h⟩ := except_bind_eq_error.1 h
      · exact (ihr h).within (.child (List.mem_cons_of_mem _ List.mem_cons_self))
      · cases h
  | plain inverted e he =>
    rw [condition_plain he] at h
    cases h
    exact CompileError.IsAbout.concerns rfl

end Expression

theorem Arguments.conditions_concerns {es : Arguments} (h : conditions es = .error err) :
    ∃ e ∈ es, err.Concerns e := by
  induction es with
  | nil => cases h
  | cons e es ih =>
    rw [conditions_cons] at h
    obtain h | ⟨f, -, h⟩ := except_bind_eq_error.1 h
    · exact ⟨e, List.mem_cons_self, condition_concerns h⟩
    · obtain h | ⟨fs, -, h⟩ := except_bind_eq_error.1 h
      · obtain ⟨e, he, h⟩ := ih h
        exact ⟨e, List.mem_cons_of_mem _ he, h⟩
      · cases h

/-- A directive that rejects its arguments blames the call, one of the arguments or a node under
one of them. -/
theorem Invocation.descriptor_concerns {mode : IntegerMode} {d : Directive} {es : Arguments}
    {n : Nat} (s t : Span) (h : descriptor mode ⟨d, es, n⟩ = .error err) :
    err.Concerns (.call (.identifier d.name s) es t) := by
  have hcount : ∀ x, Arguments.count x mode es = .error err →
      err.Concerns (.call (.identifier x.name s) es t) := by
    intro x h
    match es with
    | [e] =>
      simp only [Arguments.count] at h
      split at h
      · cases h
      · cases h
        exact CompileError.IsAbout.concerns ⟨s, e, t, rfl, rfl⟩
    | [] | _ :: _ :: _ =>
      cases h
      exact CompileError.IsAbout.concerns ⟨s, _, t, rfl, rfl⟩
  have hfields : ∀ x, Arguments.fields x es = .error err →
      err.Concerns (.call (.identifier x.name s) es t) := by
    intro x h
    obtain ⟨i, e, he, rfl⟩ := readEach_eq_error h
    rw [Nat.zero_add]
    exact CompileError.IsAbout.concerns ⟨s, es, t, e, rfl, he, rfl⟩
  cases d with
  | select | extend => exact hfields _ (except_map_eq_error.1 h)
  | filter =>
    rw [descriptor_filter] at h
    have h := except_map_eq_error.1 h
    by_cases hempty : es = []
    · subst hempty
      cases h
      exact CompileError.IsAbout.concerns ⟨s, [], t, rfl, rfl⟩
    · rw [Arguments.filter_of_ne_nil hempty] at h
      obtain ⟨e, he, h⟩ := Arguments.conditions_concerns (except_map_eq_error.1 h)
      exact h.within (.child (List.mem_cons_of_mem _ he))
  | order =>
    obtain ⟨i, e, he, rfl⟩ := readEach_eq_error (except_map_eq_error.1 h)
    rw [Nat.zero_add]
    exact CompileError.IsAbout.concerns ⟨s, es, t, e, rfl, he, rfl⟩
  | limit | offset => exact hcount _ (except_map_eq_error.1 h)

theorem Invocation.ofExpression_concerns {e : Expression} (h : ofExpression e = .error err) :
    err.Concerns e := by
  unfold ofExpression at h
  split at h
  · split at h
    · cases h
    · cases h
      exact CompileError.IsAbout.concerns ⟨_, _, _, rfl, rfl⟩
  · next callee es s _ =>
    cases h
    exact ⟨callee, .child List.mem_cons_self, rfl⟩
  · cases h
    exact CompileError.IsAbout.concerns rfl

theorem Descriptor.ofElements_concerns {options : CompileOptions} {seen : List Directive}
    {es : List Expression} (h : ofElements options seen es = .error err) :
    ∃ e ∈ es, err.Concerns e := by
  induction es generalizing seen with
  | nil => cases h
  | cons e es ih =>
    rw [ofElements_step] at h
    obtain h | ⟨⟨d, as, n⟩, hi, h⟩ := except_bind_eq_error.1 h
    · exact ⟨e, List.mem_cons_self, Invocation.ofExpression_concerns h⟩
    obtain ⟨s, t, rfl, rfl⟩ := Invocation.ofExpression_eq_ok.1 hi
    split at h
    · cases h
      exact ⟨_, List.mem_cons_self, CompileError.IsAbout.concerns ⟨s, as, t, rfl, rfl⟩⟩
    obtain h | ⟨part, -, h⟩ := except_bind_eq_error.1 h
    · exact ⟨_, List.mem_cons_self, Invocation.descriptor_concerns s t h⟩
    obtain h | ⟨rest, -, h⟩ := except_bind_eq_error.1 h
    · obtain ⟨e, he, h⟩ := ih h
      exact ⟨e, List.mem_cons_of_mem _ he, h⟩
    · cases h

theorem Descriptor.ofExpression_concerns {options : CompileOptions} {e : Expression}
    (h : ofExpression options e = .error err) : err.Concerns e := by
  obtain htop | ⟨es, htop, hes⟩ := except_bind_eq_error.1 h
  · cases e with
    | call | sequence => cases htop
    | _ =>
      cases htop
      exact CompileError.IsAbout.concerns rfl
  · obtain ⟨m, hm, hconcerns⟩ := ofElements_concerns hes
    cases e with
    | call callee es s =>
      cases htop
      rwa [List.mem_singleton.1 hm] at hconcerns
    | sequence es s =>
      cases htop
      exact hconcerns.within (.child hm)
    | _ => cases htop

end

/-! ## Texts -/

/-- The text from the position on begins with the name, which is a whole word there. -/
def NameAt (text : List Char) (n : Nat) (name : String) : Prop :=
  ∃ rest, text.drop n = name.toList ++ rest ∧ ∀ c ∈ rest.head?, Lexeme.isWordChar c = false

namespace Expression

/-- In the tree there is a call of the name whose argument with the index starts there. -/
def HasArgument (tree : Expression) (name : String) (index n : Nat) : Prop :=
  ∃ s es t e, IsNode (.call (.identifier name s) es t) tree ∧ es[index]? = some e ∧ e.offset = n

/-- In the tree there is an array whose element with the index starts there. -/
def HasElement (tree : Expression) (index n : Nat) : Prop :=
  ∃ es s e, IsNode (.array es s) tree ∧ es[index]? = some e ∧ e.offset = n

end Expression

/-- What an error says is found at its position, in the text or in its tree. -/
def CompileError.PointsIn (text : List Char) (tree : Expression) : CompileError → Prop
  | unknownDirective name n => NameAt text n name
  | duplicateDirective d n => NameAt text n d.name
  | unknownOperator token n =>
    token = "+" ∧ text[n]? = some '+' ∨ token = "-" ∧ text[n]? = some '-'
  | invalidFieldArgument d i n => tree.HasArgument d.name i n
  | invalidOrderArgument i n => tree.HasArgument Directive.order.name i n
  | invalidArrayElement i n => tree.HasElement i n
  | _ => True

namespace Grammar

open Text (slice slice_append_drop slice_append_slice)

variable {text : List Char} {i j k l : Nat}

theorem isWordChar_of_isTrailing {c : Char} (h : isTrailing c) : Lexeme.isWordChar c = false := by
  simp only [isTrailing, Lexeme.isSpace, Bool.or_eq_true, decide_eq_true_eq] at h
  obtain rfl | ((rfl | rfl) | rfl) | rfl := h <;> decide

/-- The arguments of a call do not go on with the word before them. -/
theorem not_isWordChar_behind {es : List Expression} (hkl : k ≤ l) (hlj : l ≤ j)
    (ht : Trailing text k l) (hes : Encloses '(' ')' es (slice text l j)) :
    ∀ c ∈ (text.drop k).head?, Lexeme.isWordChar c = false := by
  obtain ⟨inner, -, hopen, -⟩ := hes
  intro c hc
  rw [← slice_append_drop hkl, ← slice_append_drop hlj, hopen] at hc
  rw [Trailing] at ht
  cases hgap : slice text k l with
  | nil =>
    rw [hgap] at hc
    cases hc
    decide
  | cons ch chs =>
    rw [hgap] at hc ht
    cases hc
    exact isWordChar_of_isTrailing (ht _ List.mem_cons_self)

/-- A call of a name starts with the name. -/
theorem Placed.call_of_name {e : Expression} (h : Placed text i e j) {name : String}
    {es : List Expression} {s t : Span}
    (he : e.inCharacters (Text.Positions.ofText text) = .call (.identifier name s) es t) :
    s.start = i ∧ t.start = i ∧ NameAt text i name := by
  have ht := h.span_inCharacters
  rw [he] at ht
  cases h with
  | call hc hkl hlj _ _ htrailing hes =>
    have hs := hc.span_inCharacters
    rw [inCharacters, mapSpans, call.injEq, ← inCharacters] at he
    rw [he.1] at hs
    have hname := he.1
    cases hc with
    | identifier hik _ hslice =>
      cases hname
      refine ⟨congrArg Span.start hs, congrArg Span.start ht, _, ?_,
        not_isWordChar_behind hkl (Nat.le_of_lt hlj) htrailing hes⟩
      rw [← hslice, slice_append_drop (Nat.le_of_lt hik)]
    | _ => cases hname
  | _ => cases he

/-- A mark starts its node. -/
theorem Placed.mark_of_unary {e argument : Expression} (h : Placed text i e j) {mark : Mark}
    {s : Span} (he : e.inCharacters (Text.Positions.ofText text) = .unary mark argument s) :
    s.start = i ∧ ∃ rest, text.drop i = mark.token.toList ++ rest := by
  have hs := h.span_inCharacters
  rw [he] at hs
  cases h with
  | unary hmark hik _ _ =>
    cases he
    have hdrop := @slice_append_drop text _ _ (Nat.le_of_lt hik)
    rw [hmark] at hdrop
    exact ⟨congrArg Span.start hs, _, hdrop.symm⟩
  | _ => cases he

end Grammar

namespace Expression

open Grammar

theorem exists_placed_of_parse {query : String} {tree node : Expression}
    (h : parse query = .ok tree) (hn : IsNode node tree) :
    ∃ e i j, Placed query.toList i e j ∧
      e.inCharacters (Text.Positions.ofText query.toList) = node := by
  obtain ⟨e, c', hr, rfl⟩ := parse_eq_ok.1 h
  obtain ⟨i, j, hp⟩ := program_yields hr
  obtain ⟨e', k, l, hp', rfl⟩ := hp.of_isNode hn
  exact ⟨e', k, l, hp', rfl⟩

theorem offset_lt_of_parse {query : String} {tree node : Expression}
    (h : parse query = .ok tree) (hn : IsNode node tree) : node.offset < query.toList.length := by
  obtain ⟨e, i, j, hp, rfl⟩ := exists_placed_of_parse h hn
  rw [offset, hp.span_inCharacters]
  exact Nat.lt_of_lt_of_le hp.lt hp.le_length

/-- In the tree of a text, an error about a node says what the text has there. -/
theorem pointsIn_of_concerns {query : String} {tree : Expression} {err : CompileError}
    (h : parse query = .ok tree) (hc : err.Concerns tree) : err.PointsIn query.toList tree := by
  obtain ⟨node, hn, habout⟩ := hc
  obtain ⟨e, i, j, hp, he⟩ := exists_placed_of_parse h hn
  cases err with
  | unknownDirective =>
    obtain ⟨s, es, t, rfl, rfl⟩ := habout
    obtain ⟨hs, -, hname⟩ := hp.call_of_name he
    rw [← hs] at hname
    exact hname
  | duplicateDirective =>
    obtain ⟨s, es, t, rfl, rfl⟩ := habout
    obtain ⟨-, ht, hname⟩ := hp.call_of_name he
    rw [← ht] at hname
    exact hname
  | unknownOperator token =>
    obtain ⟨mark, argument, s, hmark, rfl, rfl, rfl⟩ := habout
    obtain ⟨hs, rest, hdrop⟩ := hp.mark_of_unary he
    have hhead : query.toList[s.start]? = (mark.token.toList ++ rest).head? := by
      rw [hs, ← hdrop, List.head?_drop]
    cases mark with
    | not => exact absurd rfl hmark
    | plus => exact .inl ⟨rfl, hhead⟩
    | minus => exact .inr ⟨rfl, hhead⟩
  | invalidFieldArgument | invalidOrderArgument =>
    obtain ⟨s, es, t, e, rfl, harg, hoffset⟩ := habout
    exact ⟨s, es, t, e, hn, harg, hoffset⟩
  | invalidArrayElement =>
    obtain ⟨es, s, e, rfl, helem, hoffset⟩ := habout
    exact ⟨es, s, e, hn, helem, hoffset⟩
  | _ => trivial

end Expression

namespace Descriptor

/-- An error other than a syntax error that has a position points at the start of a node of the
tree of the query, in the query, and what it says is found there. -/
theorem ofQuery_points {options : CompileOptions} {query : String} {err : CompileError} {n : Nat}
    (h : ofQuery options query = .error err) (hparsed : ∀ e, err ≠ .unparsable e)
    (hn : err.offset? = some n) :
    ∃ tree, parse query = .ok tree ∧ (∃ node, IsNode node tree ∧ node.offset = n) ∧
      n < query.toList.length ∧ err.PointsIn query.toList tree := by
  rw [ofQuery_eq] at h
  split at h
  · cases h
    cases hn
  obtain h | ⟨tree, htree, h⟩ := except_bind_eq_error.1 h
  · rw [Expression.ofQuery] at h
    cases hp : parse query with
    | ok tree =>
      rw [hp] at h
      cases h
    | error e =>
      rw [hp] at h
      cases h
      exact absurd rfl (hparsed e)
  have hparse : parse query = .ok tree := by
    rw [Expression.ofQuery] at htree
    cases hp : parse query with
    | ok tree' =>
      rw [hp] at htree
      cases htree
      rfl
    | error e =>
      rw [hp] at htree
      cases htree
  have hconcerns := ofExpression_concerns h
  obtain ⟨node, hnode, rfl⟩ := hconcerns.exists_start hn
  exact ⟨tree, hparse, ⟨node, hnode, rfl⟩, offset_lt_of_parse hparse hnode,
    pointsIn_of_concerns hparse hconcerns⟩

/-- The sign is blamed, behind a character of two bytes. -/
theorem ofQuery_points_at_sign : ∃ tree, parse "where(a == 'é', -b)" = .ok tree ∧
    (∃ node, IsNode node tree ∧ node.offset = 16) ∧ 16 < "where(a == 'é', -b)".toList.length ∧
    (CompileError.unknownOperator "-" 16).PointsIn "where(a == 'é', -b)".toList tree :=
  have h : errorOf? (ofQuery {} "where(a == 'é', -b)") = some (.unknownOperator "-" 16) := by
    decide +kernel
  ofQuery_points (errorOf?_eq_some.1 h) (by rintro e ⟨⟩) rfl

end Descriptor

end DirectiveQuery
