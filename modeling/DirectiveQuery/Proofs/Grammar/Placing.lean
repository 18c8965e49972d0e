import DirectiveQuery.Proofs.Grammar.Spans
import DirectiveQuery.Proofs.Outcome

/-
  The parsers place their trees. Run at a place of a text, a parser of expressions stops at a
  later one, and the tree that it builds stands between the two (`Yields`). Loops keep this from
  run to run (`foldl_places`), with the tree that has been built so far.
-/
namespace DirectiveQuery.Grammar

open DirectiveQuery.Parser Token Expression Cursor
open Text (slice slice_self slice_append_drop slice_append_slice slice_of_drop_eq)

variable {text : List Char} {i j k l n : Nat} {e : Expression} {c' : Cursor}

/-! ## Tokens and spaces -/

/-- A parser that takes some characters stops behind them. -/
theorem place_of_ahead {α : Type} {p : Parser α} {a : α} {lexeme : List Char} (hp : Strides p)
    (hi : i ≤ text.length) (h : Runs p (place text i) a c')
    (hc : text.drop i = lexeme ++ c'.ahead) :
    ∃ j, j ≤ text.length ∧ c' = place text j ∧ i + lexeme.length = j ∧
      slice text i j = lexeme := by
  obtain ⟨j, -, hj, rfl⟩ := hp.place hi h
  rw [ahead_place] at hc
  exact ⟨j, hj, rfl, slice_of_drop_eq hi hc hj⟩

theorem place_of_token {s : String} {u : Unit} (hi : i ≤ text.length)
    (h : Runs (token s) (place text i) u c') :
    ∃ j, j ≤ text.length ∧ c' = place text j ∧ i + s.toList.length = j ∧
      slice text i j = s.toList :=
  place_of_ahead (.scanned _) hi h ((ahead_place text i).symm.trans (ahead_of_token h))

theorem skip_place (hi : i ≤ text.length) : ∃ j, j ≤ text.length ∧
    skip (place text i) = place text j ∧ i ≤ j ∧ Trailing text i j := by
  have h : text.drop i = (text.drop i).takeWhile Lexeme.isSpace ++ (skip (place text i)).ahead := by
    rw [ahead_skip, ahead_place]
    exact List.takeWhile_append_dropWhile.symm
  obtain ⟨j, hj, hskip, hlength, hslice⟩ :=
    place_of_ahead (.scanned _) hi (runs_space (u := ()).2 rfl) h
  refine ⟨j, hj, hskip, by omega, fun ch hch => ?_⟩
  rw [hslice] at hch
  rw [isTrailing, Bool.or_eq_true]
  exact .inr (List.all_eq_true.1 List.all_takeWhile ch hch)

/-! ## Trees that are joined -/

theorem between_through (text : List Char) (k : Nat) (h : j ≤ l) :
    (between text i j).through (between text k l) = between text i l := by
  have hbyte := byte_place_le text h
  simp only [between, spanTo, Span.through, Nat.max_eq_left hbyte]

namespace Stands

variable {left right : Expression}

theorem of_placed (h : Placed text i e j) : Stands text i e j :=
  ⟨i, j, Nat.le_refl _, h, Nat.le_refl _, .refl text j⟩

theorem widen_left (h : Stands text k e j) (hik : i ≤ k) : Stands text i e j := by
  obtain ⟨a, b, ha, hp, hb, ht⟩ := h
  exact ⟨a, b, Nat.le_trans hik ha, hp, hb, ht⟩

theorem widen_right (h : Stands text i e k) (ht : Trailing text k j) (hkj : k ≤ j) :
    Stands text i e j := by
  obtain ⟨a, b, ha, hp, hb, ht'⟩ := h
  exact ⟨a, b, ha, hp, Nat.le_trans hb hkj, ht'.trans ht hb hkj⟩

theorem lt (h : Stands text i e j) : i < j := by
  obtain ⟨a, b, ha, hp, hb, -⟩ := h
  have := hp.lt
  omega

theorem cons {es : List Expression} (h : Stands text i e k) (hes : Listed text k es j) :
    Listed text i (e :: es) j := by
  obtain ⟨a, b, ha, hp, hb, -⟩ := h
  exact .cons ha hp (hes.widen hb (Nat.le_refl _))

theorem joined (operator : Operator) (hl : Stands text i left k) (hr : Stands text k right j) :
    Stands text i (joined left operator right) j := by
  obtain ⟨a, b, ha, hleft, hb, -⟩ := hl
  obtain ⟨c, d, hc, hright, hd, ht⟩ := hr
  have hbc : b ≤ c := Nat.le_trans hb hc
  have hspan : left.span.through right.span = between text a d := by
    rw [hleft.span_eq, hright.span_eq,
      between_through text c (Nat.le_trans hbc (Nat.le_of_lt hright.lt))]
  refine ⟨a, d, ha, ?_, hd, ht⟩
  cases operator with
  | comparison o =>
    show Placed text a (.binary left o right (left.span.through right.span)) d
    rw [hspan]
    exact .binary o hleft hbc hright
  | connective o =>
    show Placed text a (.logical left o right (left.span.through right.span)) d
    rw [hspan]
    exact .logical o hleft hbc hright

theorem call {callee : Expression} {es : List Expression} (h : Stands text i callee k)
    (hkl : k ≤ l) (hlj : l < j) (hj : j ≤ text.length) (ht : Trailing text k l)
    (hes : Listed text l es j) (hb : Encloses '(' ')' es (slice text l j)) :
    Stands text i (.call callee es (callee.span.through (between text l j))) j := by
  obtain ⟨a, b, ha, hp, hbk, ht'⟩ := h
  have hbl : b ≤ l := Nat.le_trans hbk hkl
  refine ⟨a, j, ha, ?_, Nat.le_refl _, .refl text j⟩
  rw [hp.span_eq, between_through text l (by omega)]
  exact .call hp hbl hlj hj hes (ht'.trans ht hbk hkl) hb

theorem unary {mark : Mark} (hmark : slice text i k = mark.token.toList) (hik : i < k)
    (h : Stands text k e j) :
    Stands text i (.unary mark e ((between text i k).through e.span)) j := by
  obtain ⟨a, b, ha, hp, hb, ht⟩ := h
  have hkb : k ≤ b := Nat.le_trans ha (Nat.le_of_lt hp.lt)
  refine ⟨i, b, Nat.le_refl _, ?_, hb, ht⟩
  rw [hp.span_eq, between_through text a hkb]
  exact .unary hmark hik ha hp

end Stands

/-! ## Parsers of expressions -/

/-- The parser builds trees that stand in the text where it reads them. -/
def Yields (text : List Char) (p : Parser Expression) : Prop :=
  ∀ i e c', i ≤ text.length → Runs p (place text i) e c' →
    ∃ j, j ≤ text.length ∧ c' = place text j ∧ Stands text i e j

namespace Yields

variable {p q : Parser Expression}

theorem named (rule : Rule) (hp : Yields text p) : Yields text (named rule p) :=
  fun i e c' hi h => hp i e c' hi (runs_named.1 h)

theorem orElse (hp : Yields text p) (hq : Yields text q) : Yields text (orElse p q) := by
  intro i e c' hi h
  obtain h | ⟨-, h⟩ := runs_orElse.1 h
  · exact hp i e c' hi h
  · exact hq i e c' hi h

theorem fail : Yields text Parser.fail := by
  intro i e c' _ h
  cases h

/-- Spaces may come first. -/
theorem skip (hp : Yields text p) (hi : i ≤ text.length)
    (h : Runs p (skip (place text i)) e c') :
    ∃ j, j ≤ text.length ∧ c' = place text j ∧ Stands text i e j := by
  obtain ⟨k, hk, hskip, hik, -⟩ := skip_place hi
  rw [hskip] at h
  obtain ⟨j, hj, hc, hs⟩ := hp k e c' hk h
  exact ⟨j, hj, hc, hs.widen_left hik⟩

end Yields

/-- Folding runs from left to right keeps what each run keeps. -/
theorem foldl_places {β γ : Type} {p : Parser β} {step : γ → β → γ} (inv : Nat → γ → Prop)
    (hstep : ∀ i g b c', i ≤ text.length → inv i g → Runs p (skip (place text i)) b c' →
      ∃ j, j ≤ text.length ∧ c' = place text j ∧ inv j (step g b))
    {g : γ} {bs : List β} (hi : i ≤ text.length) (hg : inv i g)
    (h : Runs (spaced p) (place text i) bs c') :
    ∃ j, j ≤ text.length ∧ c' = place text j ∧ inv j (bs.foldl step g) := by
  have hr := repeats_of_many h
  clear h
  generalize hc : place text i = c at hr
  induction hr generalizing i g with
  | nil c => exact ⟨i, hi, hc.symm, hg⟩
  | cons hrun _ ih =>
    subst hc
    obtain ⟨j, hj, rfl, hinv⟩ := hstep _ _ _ _ hi hg (runs_item.1 hrun)
    exact ih hj hinv rfl

section Element

variable {element : Parser Expression}

/-! ## Lists -/

theorem further_listed (he : Yields text element) {es : List Expression} (hi : i ≤ text.length)
    (h : Runs (furtherElements element) (place text i) es c') :
    ∃ j, j ≤ text.length ∧ c' = place text j ∧ Listed text i es j := by
  have hr := repeats_of_many h
  clear h
  generalize hc : place text i = c at hr
  induction hr generalizing i with
  | nil c => exact ⟨i, hi, hc.symm, .nil (Nat.le_refl _)⟩
  | cons hrun _ ih =>
    subst hc
    have hitem := runs_item.1 hrun
    simp only [runs_bind, runs_space] at hitem
    obtain ⟨_, d, hcomma, _, _, rfl, helement⟩ := hitem
    obtain ⟨k, hk, hskip, hik, -⟩ := skip_place hi
    rw [hskip] at hcomma
    obtain ⟨l, hl, rfl, hkl, -⟩ := place_of_token hk hcomma
    obtain ⟨m, hm, rfl, hs⟩ := he.skip hl helement
    obtain ⟨j, hj, hc, hes⟩ := ih hm rfl
    exact ⟨j, hj, hc, (hs.widen_left (by omega)).cons hes⟩

theorem elements_listed (he : Yields text element) {es : List Expression} (hi : i ≤ text.length)
    (h : Runs (elements element) (place text i) es c') :
    ∃ j, j ≤ text.length ∧ c' = place text j ∧ Listed text i es j := by
  simp only [elements, runs_bind, runs_space, runs_pure] at h
  obtain ⟨first, d, hfirst, _, _, rfl, others, f, hothers, _, _, rfl, u, c', hcomma, rfl, rfl⟩ := h
  obtain ⟨k, hk, rfl, hs⟩ := he i first d hi hfirst
  obtain ⟨l, hl, hskip, hkl, -⟩ := skip_place hk
  rw [hskip] at hothers
  obtain ⟨m, hm, rfl, hes⟩ := further_listed he hl hothers
  obtain ⟨a, ha, hskip', hma, -⟩ := skip_place hm
  rw [hskip'] at hcomma
  obtain ⟨j, haj, hj, rfl⟩ := (Strides.scanned _).withDefault () |>.place ha hcomma
  exact ⟨j, hj, rfl, hs.cons (hes.widen hkl (by omega))⟩

theorem optional_elements_listed (he : Yields text element) {es : List Expression}
    (hi : i ≤ text.length) (h : Runs (withDefault [] (elements element)) (place text i) es c') :
    ∃ j, j ≤ text.length ∧ c' = place text j ∧ Listed text i es j := by
  obtain h | ⟨-, rfl, rfl⟩ := runs_withDefault.1 h
  · exact elements_listed he hi h
  · exact ⟨i, hi, rfl, .nil (Nat.le_refl _)⟩

/-- What stands between the brackets reads as it reads in the text. -/
theorem reads_slice {us : List Token} (hil : i ≤ l) (hskip : skip (place text k) = place text l)
    (h : Reads (skip (place text i)).ahead us (place text k).ahead) :
    Reads (slice text i l) us [] := by
  have htrimmed : IsTrimmed (place text l) := hskip ▸ isTrimmed_skip _
  have hrest : afterSpace (place text k).ahead = afterSpace (place text l).ahead := by
    rw [← hskip, afterSpace_skip]
  have hus := (reads_skip.1 h).congr_right hrest
  rw [ahead_place, ahead_place, ← slice_append_drop hil] at hus
  rw [IsTrimmed, ahead_place] at htrimmed
  exact hus.cut htrimmed

/-- A list in brackets: where its elements stand, and that they are all that the brackets
hold. -/
theorem bracketed_places (he : Yields text element) (hread : ReadsExpressions n element)
    {opening closing : String} {o t : Char} (ho : opening.toList = [o]) (ht : closing.toList = [t])
    {es : List Expression} (hi : i ≤ text.length)
    (h : Runs (bracketed opening closing element) (place text i) es c') :
    ∃ j, j ≤ text.length ∧ c' = place text j ∧ i < j ∧ Listed text i es j ∧
      Encloses o t es (slice text i j) := by
  simp only [bracketed, runs_bind, runs_space, runs_pure] at h
  obtain ⟨_, d, hopen, _, _, rfl, es, f, hes, _, _, rfl, _, c', hclose, rfl, rfl⟩ := h
  obtain ⟨a, ha, rfl, hia, hopening⟩ := place_of_token hi hopen
  obtain ⟨us, hus, helements⟩ := optional_elements_sound hread hes
  obtain ⟨b, hb, hskip, hab, -⟩ := skip_place ha
  rw [hskip] at hes
  obtain ⟨k, hk, rfl, hlisted⟩ := optional_elements_listed he hb hes
  obtain ⟨l, hl, hskip', hkl, -⟩ := skip_place hk
  rw [hskip'] at hclose
  obtain ⟨j, hj, rfl, hlj, hclosing⟩ := place_of_token hl hclose
  rw [ho, List.length_singleton] at hia
  have hle := hlisted.le
  have hal : a ≤ l := by omega
  refine ⟨j, hj, rfl, by omega, hlisted.widen (by omega) (by omega), slice text a l, us, ?_,
    reads_slice hal hskip' hus, helements⟩
  rw [← slice_append_slice (k := a) (by omega) (by omega),
    ← slice_append_slice hal (Nat.le.intro hlj), hopening, hclosing, ho, ht, List.singleton_append]

/-! ## Operands -/

/-- A parser of one token stops behind a spelling of it. -/
theorem place_of_picks {α : Type} {p : Parser α} {value : Token → Option α} {a : α}
    (hp : Picks anywhere p value) (hs : Strides p) (hi : i ≤ text.length)
    (h : Runs p (place text i) a c') :
    ∃ t j, value t = some a ∧ j ≤ text.length ∧ c' = place text j ∧ i < j ∧
      Spelling (slice text i j) t := by
  obtain ⟨t, lexeme, ht, hstarts⟩ := hp.sound trivial h
  have heq := hstarts.eq
  rw [ahead_place] at heq
  obtain ⟨j, hj, rfl, hlength, hslice⟩ := place_of_ahead hs hi h heq
  obtain ⟨ch, chs, rfl⟩ := hstarts.spelling.ne_nil
  rw [List.length_cons] at hlength
  exact ⟨t, j, ht, hj, rfl, by omega, hslice ▸ hstarts.spelling⟩

theorem eq_toList_of_spelling {part : List Char} {name : String}
    (h : Spelling part (.identifier name)) : part = name.toList := by
  generalize ht : Token.identifier name = t at h
  cases h with
  | identifier =>
    cases ht
    exact String.toList_ofList.symm
  | fixed hm =>
    subst ht
    simp [Token.fixed] at hm
  | number => cases ht
  | string => cases ht

theorem literal_yields : Yields text literal := by
  intro i e c' hi h
  simp only [literal, runs_bind, runs_pure] at h
  obtain ⟨⟨value, s⟩, d, h, rfl, rfl⟩ := h
  obtain ⟨hvalue, rfl⟩ := runs_spanned.1 h
  obtain ⟨t, j, ht, hj, rfl, hij, hspelling⟩ :=
    place_of_picks literal_picks literal_strides hi hvalue
  cases t with
  | literal value' =>
    cases ht
    exact ⟨j, hj, rfl, .of_placed (.literal hij hj hspelling)⟩
  | _ => cases ht

theorem identifier_yields : Yields text identifier := by
  intro i e c' hi h
  simp only [identifier, runs_named, runs_bind, runs_pure] at h
  obtain ⟨⟨name, s⟩, d, h, rfl, rfl⟩ := h
  obtain ⟨hname, rfl⟩ := runs_spanned.1 h
  obtain ⟨t, j, ht, hj, rfl, hij, hspelling⟩ :=
    place_of_picks identifier_picks (.scanned _) hi hname
  cases t with
  | identifier name' =>
    cases ht
    exact ⟨j, hj, rfl, .of_placed (.identifier hij hj (eq_toList_of_spelling hspelling))⟩
  | _ => cases ht

theorem array_yields (he : Yields text element) (hread : ReadsExpressions n element) :
    Yields text (array element) := by
  intro i e c' hi h
  simp only [array, runs_named, runs_bind, runs_pure] at h
  obtain ⟨⟨es, s⟩, d, h, rfl, rfl⟩ := h
  obtain ⟨hes, rfl⟩ := runs_spanned.1 h
  obtain ⟨j, hj, rfl, hij, hlisted, hb⟩ := bracketed_places he hread rfl rfl hi hes
  exact ⟨j, hj, rfl, .of_placed (.array hij hj hlisted hb)⟩

theorem sequence_yields (he : Yields text element) : Yields text (sequence element) := by
  intro i e c' hi h
  simp only [sequence, runs_named, runs_bind, runs_here, runs_space, runs_pure] at h
  obtain ⟨_, _, ⟨rfl, rfl⟩, first, d, hfirst, _, _, rfl, others, c', hothers, _, _, ⟨rfl, rfl⟩,
    rfl, rfl⟩ := h
  obtain ⟨k, hk, rfl, hs⟩ := he i first d hi hfirst
  obtain ⟨l, hl, hskip, hkl, ht⟩ := skip_place hk
  rw [hskip] at hothers
  cases others with
  | nil =>
    have hstay := repeats_of_many hothers
    cases hstay
    exact ⟨l, hl, rfl, hs.widen_right ht hkl⟩
  | cons other others =>
    obtain ⟨j, hj, rfl, hes⟩ := further_listed he hl hothers
    have hle := hes.le
    have hlt := hs.lt
    rw [List.isEmpty_cons, if_neg Bool.false_ne_true]
    exact ⟨j, hj, rfl,
      .of_placed (.sequence (by omega) hj (hs.cons (hes.widen hkl (Nat.le_refl _))))⟩

theorem group_yields (he : Yields text element) : Yields text (group element) := by
  intro i e c' hi h
  simp only [group, runs_named, runs_bind, runs_space, runs_pure] at h
  obtain ⟨_, d, hopen, _, _, rfl, e, f, hes, _, _, rfl, _, c', hclose, rfl, rfl⟩ := h
  obtain ⟨a, ha, rfl, hia, -⟩ := place_of_token hi hopen
  obtain ⟨k, hk, rfl, hs⟩ := (sequence_yields he).skip ha hes
  obtain ⟨l, hl, hskip, hkl, ht⟩ := skip_place hk
  rw [hskip] at hclose
  obtain ⟨j, hj, rfl, hlj, hclosing⟩ := place_of_token hl hclose
  have hparen : Trailing text l j := by
    rw [Trailing, hclosing]
    exact List.all_eq_true.1 (by decide)
  have hle : l ≤ j := Nat.le.intro hlj
  exact ⟨j, hj, rfl, ((hs.widen_left (by omega)).widen_right ht hkl).widen_right hparen hle⟩

theorem primary_yields (he : Yields text element) (hread : ReadsExpressions n element) :
    Yields text (primary element) :=
  literal_yields.orElse ((array_yields he hread).orElse
    (identifier_yields.orElse ((group_yields he).orElse .fail)))

theorem application_yields (he : Yields text element) (hread : ReadsExpressions n element) :
    Yields text (application element) := by
  intro i e c' hi h
  simp only [application, runs_named, runs_bind, runs_space, runs_pure] at h
  obtain ⟨head, d, hhead, _, _, rfl, calls, c', hcalls, rfl, rfl⟩ := h
  obtain ⟨k, hk, rfl, hs⟩ := primary_yields he hread i head d hi hhead
  obtain ⟨l, hl, hskip, hkl, ht⟩ := skip_place hk
  rw [hskip] at hcalls
  refine foldl_places (fun j callee => Stands text i callee j) ?_ hl
    (hs.widen_right ht hkl) hcalls
  rintro k callee ⟨es, s⟩ c' hk hcallee hcall
  simp only [arguments, runs_named] at hcall
  obtain ⟨hes, rfl⟩ := runs_spanned.1 hcall
  obtain ⟨l, hl, hskip, hkl, ht⟩ := skip_place hk
  rw [hskip] at hes
  obtain ⟨j, hj, rfl, hlj, hlisted, hb⟩ := bracketed_places he hread rfl rfl hl hes
  rw [hskip]
  exact ⟨j, hj, rfl, hcallee.call hkl hlj hj ht hlisted hb⟩

/-! ## Marks and operators -/

/-- The marks before an operand are put around its tree, from the last one on. -/
theorem marks_stand {ms : List (Mark × Span)} {d : Cursor} (hi : i ≤ text.length)
    (h : Repeats (do space; mark) (place text i) ms d) :
    ∃ k, k ≤ text.length ∧ d = place text k ∧ ∀ {e j}, Stands text k e j →
      Stands text i (ms.foldr (fun (m, s) e => .unary m e (s.through e.span)) e) j := by
  generalize hc : place text i = c at h
  induction h generalizing i with
  | nil c => exact ⟨i, hi, hc.symm, fun hs => hs⟩
  | @cons _ d c' m ms hrun _ ih =>
    subst hc
    obtain ⟨m, s⟩ := m
    have hmark := runs_item.1 hrun
    obtain ⟨a, ha, hskip, hia, -⟩ := skip_place hi
    rw [hskip] at hmark
    have hhead := ahead_of_mark hmark
    rw [ahead_place] at hhead
    obtain ⟨b, hb, rfl, hab, hslice⟩ := place_of_ahead mark_strides ha hmark hhead
    obtain ⟨-, rfl⟩ := runs_spanned.1 hmark
    obtain ⟨k, hk, rfl, hms⟩ := ih hb rfl
    refine ⟨k, hk, rfl, fun hs => ?_⟩
    have hlength : m.token.toList.length = 1 := by cases m <;> rfl
    exact ((hms hs).unary hslice (by omega)).widen_left hia

theorem unary_yields (he : Yields text element) (hread : ReadsExpressions n element) :
    Yields text (unary element) := by
  intro i e c' hi h
  simp only [unary, runs_named, runs_bind, runs_space, runs_pure] at h
  obtain ⟨ms, d, hms, _, _, rfl, operand, _, hoperand, rfl, rfl⟩ := h
  obtain ⟨k, hk, rfl, hmarks⟩ := marks_stand hi (repeats_of_many hms)
  obtain ⟨j, hj, rfl, hs⟩ := (application_yields he hread).skip hk hoperand
  exact ⟨j, hj, rfl, hmarks hs⟩

theorem chain_yields (rule : Rule) {operator : Parser Operator} {operand : Parser Expression}
    (ho : Strides operator) (hp : Yields text operand) :
    Yields text (chain rule operator operand) := by
  intro i e c' hi h
  simp only [chain, runs_named, runs_bind, runs_space, runs_pure] at h
  obtain ⟨first, d, hfirst, _, _, rfl, others, c', hothers, rfl, rfl⟩ := h
  obtain ⟨k, hk, rfl, hs⟩ := hp i first d hi hfirst
  obtain ⟨l, hl, hskip, hkl, ht⟩ := skip_place hk
  rw [hskip] at hothers
  refine foldl_places (fun j left => Stands text i left j) ?_ hl
    (hs.widen_right ht hkl) hothers
  rintro k left ⟨o, right⟩ c' hk hleft hjoint
  simp only [runs_bind, runs_space, runs_pure] at hjoint
  obtain ⟨_, d, hoperator, _, _, rfl, _, _, hright, ⟨⟩, rfl⟩ := hjoint
  obtain ⟨l, hl, hskip, hkl, -⟩ := skip_place hk
  rw [hskip] at hoperator
  obtain ⟨a, hla, ha, rfl⟩ := ho.place hl hoperator
  obtain ⟨j, hj, rfl, hs⟩ := hp.skip ha hright
  exact ⟨j, hj, rfl, hleft.joined o (hs.widen_left (by omega))⟩

theorem expressionOver_yields (he : Yields text element) (hread : ReadsExpressions n element) :
    Yields text (expressionOver element) := by
  have hrelation := chain_yields .relation relationToken_strides (unary_yields he hread)
  have hequality := chain_yields .equality equalityToken_strides hrelation
  have hconjunction := chain_yields .conjunction andToken_strides hequality
  exact (chain_yields .disjunction orToken_strides hconjunction).named .expression

end Element

theorem expressionWithin_yields (text : List Char) (depth : Nat) :
    Yields text (expressionWithin depth) := by
  induction depth with
  | zero => exact .fail
  | succ depth ih => exact expressionOver_yields ih (expressionWithin_reads depth)

theorem program_yields (h : Runs program (start text) e c') :
    ∃ i j, Placed text i e j := by
  rw [runs_program] at h
  simp only [runs_named, runs_bind, runs_space, runs_pure] at h
  obtain ⟨_, _, rfl, e, d, hd, _, _, rfl, _, _, -, rfl, rfl⟩ := h
  obtain ⟨j, -, -, i, k, -, hp, -⟩ :=
    (sequence_yields (expressionWithin_yields text _)).skip (Nat.zero_le _) hd
  exact ⟨i, k, hp⟩

end DirectiveQuery.Grammar

namespace DirectiveQuery.Expression

open Grammar Cursor

/-- Every node of the tree that is read from a text has the span that belongs to it: it has a
start before its stop, in the text and counted in characters, with the line and the column of
its start; the nodes under it stand in it, one behind the other; identifiers and literals are
the characters in their spans, and arrays and calls end with the bracket that closes them. -/
theorem parse_isPlaced {query : String} {e node : Expression} (h : parse query = .ok e)
    (hn : IsNode node e) : node.IsPlaced query.toList := by
  obtain ⟨e', c', hr, rfl⟩ := parse_eq_ok.1 h
  obtain ⟨i, j, hp⟩ := program_yields hr
  exact hp.isPlaced_of_isNode hn

/-- The array in this call stands on the second line, behind a character of two bytes. -/
theorem parse_isPlaced_array : ∃ e node, parse "f('é',\n[g])" = .ok e ∧ node ∈ e.children ∧
    node.span = ⟨7, 10, 2, 1⟩ ∧ node.IsPlaced "f('é',\n[g])".toList := by
  have h : (parse "f('é',\n[g])").toOption.map (fun e => e.children.map span) =
      some [⟨0, 1, 1, 1⟩, ⟨2, 5, 1, 3⟩, ⟨7, 10, 2, 1⟩] := by
    decide +kernel
  obtain ⟨e, he, hspans⟩ := Option.map_eq_some_iff.1 h
  have hparse := except_toOption_eq_some.1 he
  have hmem : (⟨7, 10, 2, 1⟩ : Span) ∈ e.children.map span := by simp [hspans]
  obtain ⟨node, hn, hspan⟩ := List.mem_map.1 hmem
  exact ⟨e, node, hparse, hn, hspan, parse_isPlaced hparse (.under hn (.root node))⟩

end DirectiveQuery.Expression
