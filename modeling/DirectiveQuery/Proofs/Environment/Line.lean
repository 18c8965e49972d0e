import DirectiveQuery.Environment
import DirectiveQuery.Proofs.Text.Blank
import DirectiveQuery.Proofs.Text.Line

/-
  Lines of an environment file, said without a way to read them. An idle line is blank or a
  comment. Any other line has a body, which is what stands between its blanks and behind the word
  `export`; it assigns a value to a name if it has both around an equals sign (`Assigns`), or it
  spoils the file (`Spoils`). Every line is of one of these kinds, and is read as it
  (`ofText_eq_nothing_iff`, `ofText_eq_assignment_iff`, `error?_eq_some_iff`).
-/
namespace DirectiveQuery

namespace Text

variable {mark : Char} {text before after : List Char}

theorem cutAt_eq_none_iff : cutAt mark text = none ↔ mark ∉ text := by
  induction text with
  | nil => simp [cutAt]
  | cons c rest ih =>
    rw [cutAt, List.mem_cons, not_or, ← ih]
    split
    · next h => simp [h]
    · next h => simp [Ne.symm h]

/-- A text is cut at its first mark. -/
theorem cutAt_eq_some_iff : cutAt mark text = some (before, after) ↔
    text = before ++ mark :: after ∧ mark ∉ before := by
  induction text generalizing before with
  | nil => simp [cutAt]
  | cons c rest ih =>
    rw [cutAt]
    split
    · next h =>
      subst h
      cases before with
      | nil => simp
      | cons d ds =>
        refine iff_of_false (by simp) ?_
        rintro ⟨heq, hnot⟩
        cases heq
        exact hnot List.mem_cons_self
    · next h =>
      cases before with
      | nil => simp [h]
      | cons d ds =>
        have hne : mark ≠ c := Ne.symm h
        simp only [Option.map_eq_some_iff, Prod.exists, Prod.mk.injEq, List.cons.injEq,
          List.cons_append, List.mem_cons, not_or]
        constructor
        · rintro ⟨b, a, hcut, ⟨rfl, rfl⟩, rfl⟩
          obtain ⟨hrest, hnot⟩ := ih.1 hcut
          exact ⟨⟨rfl, hrest⟩, hne, hnot⟩
        · rintro ⟨⟨rfl, hrest⟩, -, hnot⟩
          exact ⟨ds, after, ih.2 ⟨hrest, hnot⟩, ⟨rfl, rfl⟩, rfl⟩

end Text

open Text (IsAmongBlanks trim_eq_iff)

namespace EnvironmentLine

/-! ## What a line is -/

/-- A quote that may stand around a value. -/
def IsQuote (c : Char) : Prop := c = '"' ∨ c = '\x27'

/-- The line is blank, or a comment between blanks. -/
def IsIdle (line : List Char) : Prop :=
  ∃ inner, IsAmongBlanks inner line ∧ (inner = [] ∨ inner.head? = some '#')

/-- The body of a line that is not idle: what stands between its blanks, and behind the word
`export` if that word and a space come first. -/
inductive HasBody : (line body : List Char) → Prop
  | exported {line body : List Char} :
      IsAmongBlanks ("export ".toList ++ body) line → HasBody line body
  | bare {line body : List Char} : IsAmongBlanks body line → body ≠ [] →
      body.head? ≠ some '#' → ¬"export ".toList <+: body → HasBody line body

/-- What stands behind the equals sign gives the value: it is the value in quotes, between
blanks, or the value itself if that is nothing in quotes. -/
inductive Gives : (written value : List Char) → Prop
  | quoted {written value : List Char} {quote : Char} : IsQuote quote →
      IsAmongBlanks (quote :: (value ++ [quote])) written → Gives written value
  | bare {written value : List Char} : IsAmongBlanks value written →
      (∀ quote inside, IsQuote quote → value ≠ quote :: (inside ++ [quote])) →
      Gives written value

/-- The line assigns the value to the name: its body is the name, between blanks and not empty,
the first equals sign, and what gives the value. -/
def Assigns (line : List Char) (key value : String) : Prop :=
  ∃ before after, HasBody line (before ++ '=' :: after) ∧ '=' ∉ before ∧
    IsAmongBlanks key.toList before ∧ key ≠ "" ∧ Gives after value.toList

/-- The line with this number is neither idle nor an assignment: it has no equals sign, or
nothing but blanks before it. -/
inductive Spoils (number : Nat) : (line : List Char) → EnvironmentError → Prop
  | malformed {line body : List Char} : HasBody line body → '=' ∉ body →
      Spoils number line (.malformedLine number)
  | noName {line before after : List Char} : HasBody line (before ++ '=' :: after) →
      (∀ c ∈ before, Text.isBlank c) → Spoils number line (.emptyKey number)

/-! ## Values -/

theorem unquoted_eq_iff {written value : List Char} :
    unquoted written = value ↔ Gives written value := by
  have hquoted : ∀ quote inside, IsQuote quote →
      Text.trim written = quote :: (inside ++ [quote]) → unquoted written = inside := by
    intro quote inside hquote htrim
    rw [unquoted, htrim]
    simp only [List.getLast?_concat, List.dropLast_concat]
    rcases hquote with rfl | rfl <;> simp
  have hbare : (∀ quote inside, IsQuote quote →
      Text.trim written ≠ quote :: (inside ++ [quote])) → unquoted written = Text.trim written := by
    intro hnot
    unfold unquoted
    split
    · next h => exact h.symm
    · next first rest h =>
      rw [if_neg, h]
      simp only [Bool.and_eq_true, Bool.or_eq_true, decide_eq_true_eq, not_and]
      intro hquote hlast
      obtain ⟨inside, hinside⟩ := List.getLast?_eq_some_iff.1 hlast
      exact hnot first inside hquote (by rw [h, hinside])
  constructor
  · rintro rfl
    by_cases h : ∃ quote inside, IsQuote quote ∧ Text.trim written = quote :: (inside ++ [quote])
    · obtain ⟨quote, inside, hquote, htrim⟩ := h
      rw [hquoted quote inside hquote htrim]
      exact .quoted hquote (trim_eq_iff.1 htrim)
    · have hnot : ∀ quote inside, IsQuote quote →
          Text.trim written ≠ quote :: (inside ++ [quote]) := fun quote inside hquote htrim =>
        h ⟨quote, inside, hquote, htrim⟩
      rw [hbare hnot]
      exact .bare (trim_eq_iff.1 rfl) hnot
  · rintro (⟨hquote, hamong⟩ | ⟨hamong, hnot⟩)
    · exact hquoted _ _ hquote (trim_eq_iff.2 hamong)
    · have htrim := trim_eq_iff.2 hamong
      rw [hbare (by rwa [htrim]), htrim]

/-! ## Every line is idle or has a body -/

section

variable {line body : List Char} {key value : String}

theorem isIdle_iff :
    IsIdle line ↔ Text.trim line = [] ∨ (Text.trim line).head? = some '#' := by
  simp only [IsIdle, ← trim_eq_iff, exists_eq_left']

theorem ofText_of_isIdle (h : IsIdle line) : ofText line = .nothing := by
  unfold ofText
  split
  · rfl
  · rfl
  · next hnil hcomment =>
    rcases isIdle_iff.1 h with htrim | htrim
    · exact absurd htrim hnil
    · obtain ⟨rest, hrest⟩ := List.head?_eq_some_iff.1 htrim
      exact absurd hrest (hcomment rest)

theorem isIdle_or_hasBody (line : List Char) : IsIdle line ∨ ∃ body, HasBody line body := by
  rw [isIdle_iff]
  by_cases hnil : Text.trim line = []
  · exact .inl (.inl hnil)
  by_cases hcomment : (Text.trim line).head? = some '#'
  · exact .inl (.inr hcomment)
  right
  by_cases hexport : "export ".toList <+: Text.trim line
  · obtain ⟨body, hbody⟩ := hexport
    exact ⟨body, .exported (trim_eq_iff.1 hbody.symm)⟩
  · exact ⟨_, .bare (trim_eq_iff.1 rfl) hnil hcomment hexport⟩

/-- What the body of a line is read as. -/
def ofBody (body : List Char) : EnvironmentLine :=
  match Text.cutAt '=' body with
  | none => noAssignment
  | some (before, after) =>
    match Text.trim before with
    | [] => noKey
    | key => assignment (String.ofList key) (String.ofList (unquoted after))

theorem ofText_eq_ofBody (hnil : Text.trim line ≠ [])
    (hcomment : (Text.trim line).head? ≠ some '#') :
    ofText line = ofBody (withoutExport (Text.trim line)) := by
  unfold ofText
  split
  · next h => exact absurd h hnil
  · next h => exact absurd (by rw [h]; rfl) hcomment
  · rfl

theorem ofText_of_hasBody (h : HasBody line body) : ofText line = ofBody body := by
  cases h with
  | exported hamong =>
    have htrim := trim_eq_iff.2 hamong
    have hexport : Text.dropStart? exportMark ("export ".toList ++ body) = some body :=
      Text.dropStart?_eq_some_iff.2 rfl
    rw [ofText_eq_ofBody (by simp [htrim]) (by simp [htrim]), htrim, withoutExport, hexport]
    rfl
  | bare hamong hne hcomment hexport =>
    have htrim := trim_eq_iff.2 hamong
    have hnone : Text.dropStart? exportMark body = none := by
      rw [Option.eq_none_iff_forall_ne_some]
      intro rest hrest
      exact hexport ⟨rest, (Text.dropStart?_eq_some_iff.1 hrest).symm⟩
    rw [ofText_eq_ofBody (by rwa [htrim]) (by rwa [htrim]), htrim, withoutExport, hnone]
    rfl

theorem ofBody_of_not_mem (h : '=' ∉ body) : ofBody body = noAssignment := by
  rw [ofBody, Text.cutAt_eq_none_iff.2 h]

theorem ofBody_append {before after : List Char} (h : '=' ∉ before) :
    ofBody (before ++ '=' :: after) =
      if Text.trim before = [] then noKey
      else assignment (String.ofList (Text.trim before)) (String.ofList (unquoted after)) := by
  rw [ofBody, Text.cutAt_eq_some_iff.2 ⟨rfl, h⟩]
  dsimp only
  split
  · next hnil => rw [if_pos hnil]
  · next hne => rw [if_neg hne]

theorem ofText_of_assigns (h : Assigns line key value) :
    ofText line = assignment key value := by
  obtain ⟨before, after, hbody, hbefore, hkey, hne, hvalue⟩ := h
  have hnil : key.toList ≠ [] := by simpa using hne
  rw [ofText_of_hasBody hbody, ofBody_append hbefore, trim_eq_iff.2 hkey, if_neg hnil,
    unquoted_eq_iff.2 hvalue, String.ofList_toList, String.ofList_toList]

/-- The error of a line with a number, if it spoils the file. -/
def error? (number : Nat) : EnvironmentLine → Option EnvironmentError
  | nothing => none
  | assignment _ _ => none
  | noAssignment => some (.malformedLine number)
  | noKey => some (.emptyKey number)

theorem error?_of_spoils {number : Nat} {error : EnvironmentError}
    (h : Spoils number line error) : (ofText line).error? number = some error := by
  cases h with
  | malformed hbody hnot =>
    rw [ofText_of_hasBody hbody, ofBody_of_not_mem hnot]
    rfl
  | noName hbody hblank =>
    have hnot : '=' ∉ _ := fun h => absurd (hblank '=' h) (by decide)
    rw [ofText_of_hasBody hbody, ofBody_append hnot, if_pos (Text.trim_eq_nil_iff.2 hblank)]
    rfl

/-- A line is idle, or assigns a value to a name, or spoils the file. -/
theorem line_cases (number : Nat) (line : List Char) :
    IsIdle line ∨ (∃ key value, Assigns line key value) ∨ ∃ error, Spoils number line error := by
  rcases isIdle_or_hasBody line with hidle | ⟨body, hbody⟩
  · exact .inl hidle
  right
  cases hcut : Text.cutAt '=' body with
  | none => exact .inr ⟨_, .malformed hbody (Text.cutAt_eq_none_iff.1 hcut)⟩
  | some parts =>
    obtain ⟨before, after⟩ := parts
    obtain ⟨rfl, hnot⟩ := Text.cutAt_eq_some_iff.1 hcut
    by_cases hnil : Text.trim before = []
    · exact .inr ⟨_, .noName hbody (Text.trim_eq_nil_iff.1 hnil)⟩
    · refine .inl ⟨String.ofList (Text.trim before), String.ofList (unquoted after), before, after,
        hbody, hnot, ?_, by simpa using hnil, ?_⟩
      · rw [String.toList_ofList]
        exact trim_eq_iff.1 rfl
      · rw [String.toList_ofList]
        exact unquoted_eq_iff.1 rfl

theorem ofText_eq_nothing_iff : ofText line = nothing ↔ IsIdle line := by
  refine ⟨fun h => ?_, ofText_of_isIdle⟩
  rcases line_cases 0 line with hidle | ⟨key, value, hassigns⟩ | ⟨error, hspoils⟩
  · exact hidle
  · rw [ofText_of_assigns hassigns] at h
    cases h
  · have herror := error?_of_spoils hspoils
    rw [h] at herror
    cases herror

theorem ofText_eq_assignment_iff : ofText line = assignment key value ↔
    Assigns line key value := by
  refine ⟨fun h => ?_, ofText_of_assigns⟩
  rcases line_cases 0 line with hidle | ⟨k, v, hassigns⟩ | ⟨error, hspoils⟩
  · rw [ofText_of_isIdle hidle] at h
    cases h
  · rw [ofText_of_assigns hassigns] at h
    cases h
    exact hassigns
  · have herror := error?_of_spoils hspoils
    rw [h] at herror
    cases herror

/-- What a line assigns. -/
def pair? : EnvironmentLine → Option (String × String)
  | assignment key value => some (key, value)
  | _ => none

theorem pair?_eq_some_iff : (ofText line).pair? = some (key, value) ↔ Assigns line key value := by
  rw [← ofText_eq_assignment_iff]
  cases ofText line <;> simp [pair?]

theorem error?_eq_some_iff {number : Nat} {error : EnvironmentError} :
    (ofText line).error? number = some error ↔ Spoils number line error := by
  refine ⟨fun h => ?_, error?_of_spoils⟩
  rcases line_cases number line with hidle | ⟨key, value, hassigns⟩ | ⟨e, hspoils⟩
  · rw [ofText_of_isIdle hidle] at h
    cases h
  · rw [ofText_of_assigns hassigns] at h
    cases h
  · rw [error?_of_spoils hspoils] at h
    cases h
    exact hspoils

/-- Blanks around a line do not matter. -/
theorem ofText_congr {other : List Char} (h : Text.trim line = Text.trim other) :
    ofText line = ofText other := by
  rw [ofText, ofText, h]

theorem ofText_withoutReturn (line : List Char) :
    ofText (Text.withoutReturn line) = ofText line := by
  apply ofText_congr
  unfold Text.withoutReturn
  split
  · next h =>
    obtain ⟨rest, rfl⟩ := List.getLast?_eq_some_iff.1 h
    rw [List.dropLast_concat, Text.trim_concat (by decide)]
  · rfl

end

end EnvironmentLine

end DirectiveQuery
