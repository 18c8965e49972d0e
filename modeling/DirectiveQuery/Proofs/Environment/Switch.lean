import DirectiveQuery.Proofs.Environment.Loading
import DirectiveQuery.Proofs.Outcome

/-
  What a variable says about a switch. Below the lines of an environment file a variable has the
  value of the last line that assigns it one, or else its old value (`hasValue_iff`). The word of
  a value says on or off, or the value is refused; a missing or blank value says nothing. A switch
  is what the value of its variable says (`switch_eq_ok_iff`, `switch_eq_error_iff`).
-/
namespace DirectiveQuery

open EnvironmentLine (Assigns LastAssigns)
open Text (IsAmongBlanks isBlank)

namespace EnvironmentLine

/-- A name is assigned a value by a last line, or by none. -/
theorem lastAssigns_or_not (lines : List (List Char)) (key : String) :
    (∃ value, LastAssigns lines key value) ∨ ∀ line ∈ lines, ∀ v, ¬Assigns line key v := by
  induction lines with
  | nil => exact .inr nofun
  | cons l ls ih =>
    rcases ih with ⟨value, before, line, after, rfl, hlast⟩ | hnone
    · exact .inl ⟨value, l :: before, line, after, rfl, hlast⟩
    by_cases h : ∃ value, Assigns l key value
    · obtain ⟨value, hassigns⟩ := h
      exact .inl ⟨value, [], l, ls, rfl, hassigns, hnone⟩
    · exact .inr (List.forall_mem_cons.2 ⟨not_exists.1 h, hnone⟩)

end EnvironmentLine

namespace Environment

variable {env : Environment} {lines : List (List Char)} {key word : String}
  {value : Option String} {said : Option Bool} {error : EnvironmentError}

/-! ## Values -/

/-- The value of a variable below some lines of a file: what the last of them that assigns to it
assigns, be it blank, and the value in the environment if none does. -/
inductive HasValue (env : Environment) (lines : List (List Char)) (key : String) :
    Option String → Prop
  | assigned {value : String} : LastAssigns lines key value → HasValue env lines key (some value)
  | inherited : (∀ line ∈ lines, ∀ v, ¬Assigns line key v) → HasValue env lines key (env.get? key)

theorem HasValue.get?_eq (h : HasValue env lines key value) :
    (env.setAll (assignments lines)).get? key = value := by
  cases h with
  | assigned hlast => exact get?_of_lastAssigns env hlast
  | inherited hnone => exact get?_of_not_assigns env hnone

theorem hasValue_iff :
    HasValue env lines key value ↔ (env.setAll (assignments lines)).get? key = value := by
  refine ⟨HasValue.get?_eq, ?_⟩
  rintro rfl
  rcases EnvironmentLine.lastAssigns_or_not lines key with ⟨v, hlast⟩ | hnone
  · rw [get?_of_lastAssigns env hlast]
    exact .assigned hlast
  · rw [get?_of_not_assigns env hnone]
    exact .inherited hnone

/-! ## Switches -/

/-- The word of a value: what stands between its blanks, with its ASCII letters made small. -/
def IsWordOf (word value : String) : Prop :=
  ∃ inner, IsAmongBlanks inner value.toList ∧ word = String.ofList (inner.map Char.toLower)

/-- What the value of a variable says about its switch: on, off or nothing. -/
inductive Says : Option String → Option Bool → Prop
  | missing : Says none none
  | blank {value : String} : (∀ c ∈ value.toList, isBlank c) → Says (some value) none
  | on {value word : String} : IsWordOf word value → word ∈ onWords → Says (some value) (some true)
  | off {value word : String} : IsWordOf word value → word ∈ offWords →
      Says (some value) (some false)

/-- The value of the variable is refused: it is not blank, and its word turns a switch neither on
nor off. -/
inductive Refuses (key : String) : Option String → EnvironmentError → Prop
  | intro {value word : String} : IsWordOf word value → word ≠ "" → word ∉ onWords →
      word ∉ offWords → Refuses key (some value) (.invalidSwitch key word)

theorem isWordOf_trim (value : String) :
    IsWordOf (String.ofList ((Text.trim value.toList).map Char.toLower)) value :=
  ⟨_, Text.isAmongBlanks_trim _, rfl⟩

theorem IsWordOf.eq {value : String} (h : IsWordOf word value) :
    String.ofList ((Text.trim value.toList).map Char.toLower) = word := by
  obtain ⟨inner, hinner, rfl⟩ := h
  rw [Text.trim_eq_iff.2 hinner]

theorem isWordOf_empty_iff {value : String} :
    IsWordOf "" value ↔ ∀ c ∈ value.toList, isBlank c := by
  rw [← Text.trim_eq_nil_iff]
  constructor
  · intro h
    simpa using h.eq
  · intro h
    have hword := isWordOf_trim value
    rwa [h] at hword

/-- A switch as its word has it. -/
theorem switch_of_isWordOf {value : String} (hvalue : env.get? key = some value)
    (hword : IsWordOf word value) : env.switch key =
      if word = "" then .ok none
      else if word ∈ onWords then .ok (some true)
      else if word ∈ offWords then .ok (some false)
      else .error (.invalidSwitch key word) := by
  rw [switch, hvalue]
  simp only [hword.eq, String.isEmpty_iff, List.contains_iff_mem]

/-- No word turns a switch both on and off. -/
theorem not_mem_onWords : ∀ word ∈ offWords, word ∉ onWords := by
  decide

theorem switch_of_said (h : Says (env.get? key) said) : env.switch key = .ok said := by
  generalize hget : env.get? key = found at h
  cases h with
  | missing => rw [switch, hget]
  | blank hblank => rw [switch_of_isWordOf hget (isWordOf_empty_iff.2 hblank), if_pos rfl]
  | on hword hon =>
    have hne : _ ≠ "" := ne_of_mem_of_not_mem hon (by decide)
    rw [switch_of_isWordOf hget hword, if_neg hne, if_pos hon]
  | off hword hoff =>
    have hne : _ ≠ "" := ne_of_mem_of_not_mem hoff (by decide)
    rw [switch_of_isWordOf hget hword, if_neg hne, if_neg (not_mem_onWords _ hoff), if_pos hoff]

theorem exists_get?_eq (value : Option String) :
    ∃ (env : Environment) (key : String), env.get? key = value := by
  cases value with
  | none => exact ⟨{}, "", rfl⟩
  | some v => exact ⟨({} : Environment).set "" v, "", by rw [get?_set, if_pos rfl]⟩

theorem Says.unique {other : Option Bool} (h : Says value said) (h' : Says value other) :
    said = other := by
  obtain ⟨env, key, rfl⟩ := exists_get?_eq value
  exact Except.ok.inj ((switch_of_said h).symm.trans (switch_of_said h'))

theorem switch_of_refuses (h : Refuses key (env.get? key) error) :
    env.switch key = .error error := by
  generalize hget : env.get? key = found at h
  cases h with
  | intro hword hne hon hoff =>
    rw [switch_of_isWordOf hget hword, if_neg hne, if_neg hon, if_neg hoff]

theorem says_or_refuses (key : String) (value : Option String) :
    (∃ said, Says value said) ∨ ∃ error, Refuses key value error := by
  cases value with
  | none => exact .inl ⟨_, .missing⟩
  | some value =>
    have hword := isWordOf_trim value
    generalize String.ofList ((Text.trim value.toList).map Char.toLower) = word at hword
    by_cases hne : word = ""
    · exact .inl ⟨_, .blank (isWordOf_empty_iff.1 (hne ▸ hword))⟩
    by_cases hon : word ∈ onWords
    · exact .inl ⟨_, .on hword hon⟩
    by_cases hoff : word ∈ offWords
    · exact .inl ⟨_, .off hword hoff⟩
    · exact .inr ⟨_, .intro hword hne hon hoff⟩

theorem switch_cases (env : Environment) (key : String) :
    (∃ said, Says (env.get? key) said ∧ env.switch key = .ok said) ∨
      ∃ error, Refuses key (env.get? key) error :=
  (says_or_refuses key (env.get? key)).imp_left fun ⟨said, h⟩ => ⟨said, h, switch_of_said h⟩

theorem switch_eq_ok_iff : env.switch key = .ok said ↔ Says (env.get? key) said :=
  ⟨except_values_of_ok (fun _ => switch_of_refuses) (switch_cases env key), switch_of_said⟩

theorem switch_eq_error_iff :
    env.switch key = .error error ↔ Refuses key (env.get? key) error :=
  except_eq_error_iff_of (fun _ => switch_of_refuses) (switch_cases env key)

end Environment

end DirectiveQuery
