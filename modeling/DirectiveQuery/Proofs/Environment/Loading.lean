import DirectiveQuery.Proofs.Environment.Line
import DirectiveQuery.Proofs.Text.Line

/-
  Loading environment files. Lines that do not spoil the file are loaded one after another, each
  into what the ones before it made (`loadLines_of_sound`), and the first one that does stops the
  loading there (`loadLines_of_spoils`); a list of lines is one or the other (`lines_sound_or`).
  So a variable has the value of the last line that assigns it one (`get?_of_lastAssigns`), and a
  file behind another one is loaded into what the first one made (`load_followed`).
-/
namespace DirectiveQuery

open EnvironmentLine

/-- The error for a line further down. -/
def EnvironmentError.later (lines : Nat) : EnvironmentError → EnvironmentError
  | malformedLine n => malformedLine (n + lines)
  | emptyKey n => emptyKey (n + lines)
  | invalidSwitch key value => invalidSwitch key value

namespace EnvironmentLine

/-- The line is idle or an assignment. -/
def IsSound (line : List Char) : Prop := IsIdle line ∨ ∃ key value, Assigns line key value

/-- The last of the lines that assign a value to the name assigns this one. -/
def LastAssigns (lines : List (List Char)) (key value : String) : Prop :=
  ∃ before line after, lines = before ++ line :: after ∧ Assigns line key value ∧
    ∀ l ∈ after, ∀ v, ¬Assigns l key v

variable {line : List Char} {number : Nat} {error : EnvironmentError} {key value : String}

theorem isSound_iff (number : Nat) : IsSound line ↔ (ofText line).error? number = none := by
  simp only [IsSound, ← ofText_eq_nothing_iff, ← ofText_eq_assignment_iff]
  cases ofText line <;> simp [error?]

theorem Spoils.not_isSound (h : Spoils number line error) : ¬IsSound line := by
  intro hsound
  rw [isSound_iff number, error?_of_spoils h] at hsound
  cases hsound

theorem isSound_or_spoils (number : Nat) (line : List Char) :
    IsSound line ∨ ∃ error, Spoils number line error := by
  cases h : (ofText line).error? number with
  | none => exact .inl ((isSound_iff number).2 h)
  | some error => exact .inr ⟨error, error?_eq_some_iff.1 h⟩

theorem Spoils.later (h : Spoils number line error) (lines : Nat) :
    Spoils (number + lines) line (error.later lines) := by
  cases h with
  | malformed hbody hnot => exact .malformed hbody hnot
  | noName hbody hblank => exact .noName hbody hblank

/-- Lines are all sound, or there is a first one that is not. -/
theorem lines_sound_or (number : Nat) (lines : List (List Char)) : (∀ l ∈ lines, IsSound l) ∨
    ∃ before line after error, lines = before ++ line :: after ∧ (∀ l ∈ before, IsSound l) ∧
      Spoils (number + before.length) line error := by
  induction lines generalizing number with
  | nil => exact .inl nofun
  | cons l ls ih =>
    rcases isSound_or_spoils number l with hsound | ⟨e, hspoils⟩
    · rcases ih (number + 1) with hall | ⟨before, line, after, e, rfl, hbefore, hspoils⟩
      · exact .inl (List.forall_mem_cons.2 ⟨hsound, hall⟩)
      · refine .inr ⟨l :: before, line, after, e, rfl,
          List.forall_mem_cons.2 ⟨hsound, hbefore⟩, ?_⟩
        rwa [List.length_cons, Nat.add_comm before.length, ← Nat.add_assoc]
    · exact .inr ⟨[], l, ls, e, rfl, nofun, hspoils⟩

end EnvironmentLine

namespace Environment

variable {env loaded : Environment} {lines before after : List (List Char)} {line : List Char}
  {error : EnvironmentError} {key value : String}

/-- The environment with variables set one after another. -/
def setAll (env : Environment) (pairs : List (String × String)) : Environment :=
  pairs.foldl (fun env pair => env.set pair.1 pair.2) env

theorem get?_setAll_of_ne (env : Environment) {pairs : List (String × String)}
    (h : ∀ pair ∈ pairs, pair.1 ≠ key) : (env.setAll pairs).get? key = env.get? key := by
  induction pairs generalizing env with
  | nil => rfl
  | cons pair pairs ih =>
    obtain ⟨hpair, hpairs⟩ := List.forall_mem_cons.1 h
    have hset := get?_set env pair.1 pair.2 key
    rw [if_neg hpair] at hset
    exact (ih _ hpairs).trans hset

/-- What is set last counts. -/
theorem get?_setAll (env : Environment) {before after : List (String × String)}
    (h : ∀ pair ∈ after, pair.1 ≠ key) :
    (env.setAll (before ++ (key, value) :: after)).get? key = some value := by
  have hset := get?_set (env.setAll before) key value key
  rw [if_pos rfl] at hset
  rw [setAll, List.foldl_append]
  exact (get?_setAll_of_ne _ h).trans hset

/-! ## One line -/

/-- What is assigned in lines, one after another. -/
def assignments (lines : List (List Char)) : List (String × String) :=
  lines.filterMap fun line => (EnvironmentLine.ofText line).pair?

theorem mem_assignments : (key, value) ∈ assignments lines ↔ ∃ l ∈ lines, Assigns l key value := by
  simp only [assignments, List.mem_filterMap, pair?_eq_some_iff]

theorem loadLines_cons (env : Environment) (number : Nat) (line : List Char)
    (lines : List (List Char)) : env.loadLines number (line :: lines) =
      match (EnvironmentLine.ofText line).error? number with
      | some e => (env, some e)
      | none => (env.setAll (assignments [line])).loadLines (number + 1) lines := by
  rw [loadLines, assignments, List.filterMap_cons]
  cases EnvironmentLine.ofText line <;> rfl

/-! ## Lines one after another -/

theorem assignments_append (lines more : List (List Char)) :
    assignments (lines ++ more) = assignments lines ++ assignments more :=
  List.filterMap_append

theorem assignments_cons (line : List Char) (lines : List (List Char)) :
    assignments (line :: lines) = assignments [line] ++ assignments lines :=
  assignments_append [line] lines

theorem setAll_append (env : Environment) (pairs more : List (String × String)) :
    env.setAll (pairs ++ more) = (env.setAll pairs).setAll more :=
  List.foldl_append

theorem loadLines_of_sound (env : Environment) (number : Nat) (h : ∀ l ∈ lines, IsSound l) :
    env.loadLines number lines = (env.setAll (assignments lines), none) := by
  induction lines generalizing env number with
  | nil => rfl
  | cons l ls ih =>
    obtain ⟨hl, hls⟩ := List.forall_mem_cons.1 h
    rw [loadLines_cons, (isSound_iff number).1 hl, assignments_cons l ls, setAll_append]
    exact ih _ _ hls

theorem loadLines_of_spoils (env : Environment) (number : Nat) (h : ∀ l ∈ before, IsSound l)
    (hline : Spoils (number + before.length) line error) (after : List (List Char)) :
    env.loadLines number (before ++ line :: after) =
      (env.setAll (assignments before), some error) := by
  induction before generalizing env number with
  | nil =>
    have hfirst : Spoils number line error := hline
    rw [List.nil_append, loadLines_cons, error?_of_spoils hfirst]
    rfl
  | cons l ls ih =>
    obtain ⟨hl, hls⟩ := List.forall_mem_cons.1 h
    rw [List.length_cons, Nat.add_comm ls.length, ← Nat.add_assoc] at hline
    rw [List.cons_append, loadLines_cons, (isSound_iff number).1 hl, assignments_cons l ls,
      setAll_append]
    exact ih _ _ hls hline

theorem get?_of_lastAssigns (env : Environment) (h : LastAssigns lines key value) :
    (env.setAll (assignments lines)).get? key = some value := by
  obtain ⟨before, line, after, rfl, hline, hafter⟩ := h
  have hpair : assignments [line] = [(key, value)] := by
    rw [assignments, List.filterMap_cons, pair?_eq_some_iff.2 hline]
    rfl
  rw [assignments_append, assignments_cons, hpair]
  refine get?_setAll env fun pair hmem heq => ?_
  obtain ⟨l, hl, hassigns⟩ := mem_assignments.1 hmem
  exact hafter l hl pair.2 (heq ▸ hassigns)

theorem get?_of_not_assigns (env : Environment) (h : ∀ line ∈ lines, ∀ v, ¬Assigns line key v) :
    (env.setAll (assignments lines)).get? key = env.get? key := by
  refine get?_setAll_of_ne env fun pair hmem heq => ?_
  obtain ⟨l, hl, hassigns⟩ := mem_assignments.1 hmem
  exact h l hl pair.2 (heq ▸ hassigns)

/-- More lines are loaded into what the first ones made, unless these stopped the loading. -/
theorem loadLines_append (env : Environment) (number : Nat) (lines more : List (List Char)) :
    env.loadLines number (lines ++ more) =
      match env.loadLines number lines with
      | (loaded, none) => loaded.loadLines (number + lines.length) more
      | (stopped, some e) => (stopped, some e) := by
  induction lines generalizing env number with
  | nil => rfl
  | cons l ls ih =>
    rw [List.cons_append, loadLines_cons, loadLines_cons]
    cases (EnvironmentLine.ofText l).error? number with
    | some e => rfl
    | none =>
      dsimp only
      rw [ih, List.length_cons, Nat.add_assoc, Nat.add_comm 1]

/-- Lines further down are loaded alike, but for the number in an error. -/
theorem loadLines_later (env : Environment) (number further : Nat) (lines : List (List Char)) :
    env.loadLines (number + further) lines =
      ((env.loadLines number lines).1,
        (env.loadLines number lines).2.map (EnvironmentError.later further)) := by
  rcases lines_sound_or number lines with hall | ⟨before, line, after, e, rfl, hbefore, hspoils⟩
  · rw [loadLines_of_sound _ _ hall, loadLines_of_sound _ _ hall]
    rfl
  · have hlater := hspoils.later further
    rw [Nat.add_right_comm] at hlater
    rw [loadLines_of_spoils _ _ hbefore hspoils, loadLines_of_spoils _ _ hbefore hlater]
    rfl

/-! ## Contents -/

theorem load_eq (env : Environment) (content : String) :
    env.load content = env.loadLines 1 (Text.lines content.toList) := rfl

/-- A line feed behind a text ends its last line, or adds an idle one. -/
theorem loadLines_last (env : Environment) (number : Nat) {last : List Char}
    (h : '\n' ∉ last) : env.loadLines number [Text.withoutReturn last] =
      env.loadLines number (Text.lines last) := by
  rw [Text.lines_of_not_mem h]
  split
  · next hnil =>
    rw [hnil]
    rfl
  · have hpairs : assignments [Text.withoutReturn last] = assignments [last] := by
      simp only [assignments, List.filterMap_cons, ofText_withoutReturn]
    rw [loadLines_cons, loadLines_cons, ofText_withoutReturn, hpairs]

/-- A file behind another one is loaded into what that one made, unless it stopped the loading. -/
theorem load_followed (env : Environment) (content more : String) :
    env.load (content ++ "\n" ++ more) =
      match env.load content with
      | (loaded, none) => ((loaded.load more).1,
          (loaded.load more).2.map (.later (1 + content.toList.count '\n')))
      | (stopped, some e) => (stopped, some e) := by
  obtain ⟨start, last, hcontent, hstart, hlast⟩ := Text.exists_terminated_append content.toList
  have hfirst : Text.lines content.toList = Text.lines start ++ Text.lines last := by
    rw [hcontent, Text.lines_append hstart]
  have hall : Text.lines (content ++ "\n" ++ more).toList =
      Text.lines start ++ [Text.withoutReturn last] ++ Text.lines more.toList := by
    have htext : (content ++ "\n" ++ more).toList =
        start ++ ((last ++ ['\n']) ++ more.toList) := by
      rw [String.toList_append, String.toList_append, hcontent]
      simp
    rw [htext, Text.lines_append hstart, Text.lines_append (Text.isTerminated_concat last),
      Text.lines_line hlast, List.append_assoc]
  have hcount : content.toList.count '\n' = (Text.lines start).length := by
    rw [hcontent, List.count_append, List.count_eq_zero.2 hlast, Text.length_lines hstart,
      Nat.add_zero]
  have hloaded : env.loadLines 1 (Text.lines start ++ [Text.withoutReturn last]) =
      env.load content := by
    rw [load_eq, hfirst, loadLines_append, loadLines_append]
    split
    · exact loadLines_last _ _ hlast
    · rfl
  rw [load_eq, hall, loadLines_append, hloaded, hcount]
  split
  · rw [List.length_append, List.length_singleton, loadLines_later,
      Nat.add_comm (Text.lines start).length]
    rfl
  · rfl

/-- What loading an environment file does. Loaded to the end, every line is sound, and a variable
has the value of the last line that assigns it one, or its old value if none does. Otherwise the
error is that of the first line that is not sound, with its number, and the environment is the
one that the text before that line makes. A second file behind the first one and a line feed is
loaded into what the first one made, with errors that count all lines, unless the first one has
stopped the loading. -/
theorem load_overlay (env : Environment) (content : String) :
    (∀ loaded, env.load content = (loaded, none) →
      (∀ line ∈ Text.lines content.toList, IsSound line) ∧ ∀ key,
        (∀ value, LastAssigns (Text.lines content.toList) key value →
          loaded.get? key = some value) ∧
        ((∀ line ∈ Text.lines content.toList, ∀ value, ¬Assigns line key value) →
          loaded.get? key = env.get? key)) ∧
    (∀ stopped error, env.load content = (stopped, some error) →
      ∃ start rest line others, content = start ++ rest ∧
        Text.lines content.toList = Text.lines start.toList ++ line :: others ∧
        (∀ l ∈ Text.lines start.toList, IsSound l) ∧ ¬IsSound line ∧
        Spoils ((Text.lines start.toList).length + 1) line error ∧
        env.load start = (stopped, none)) ∧
    (∀ more loaded, env.load content = (loaded, none) →
      env.load (content ++ "\n" ++ more) = ((loaded.load more).1,
        (loaded.load more).2.map (.later (1 + content.toList.count '\n')))) ∧
    ∀ more stopped error, env.load content = (stopped, some error) →
      env.load (content ++ "\n" ++ more) = (stopped, some error) := by
  refine ⟨fun loaded h => ?_, fun stopped error h => ?_, fun more loaded h => ?_,
    fun more stopped error h => ?_⟩
  · rcases lines_sound_or 1 (Text.lines content.toList) with
      hall | ⟨before, line, after, e, hlines, hbefore, hspoils⟩
    · rw [load_eq, loadLines_of_sound _ _ hall] at h
      obtain rfl := (Prod.mk.inj h).1
      exact ⟨hall, fun key => ⟨fun value => get?_of_lastAssigns env, get?_of_not_assigns env⟩⟩
    · rw [load_eq, hlines, loadLines_of_spoils _ _ hbefore hspoils] at h
      cases h
  · rcases lines_sound_or 1 (Text.lines content.toList) with
      hall | ⟨before, line, after, e, hlines, hbefore, hspoils⟩
    · rw [load_eq, loadLines_of_sound _ _ hall] at h
      cases h
    · rw [load_eq, hlines, loadLines_of_spoils _ _ hbefore hspoils] at h
      cases h
      obtain ⟨start, rest, hcontent, rfl⟩ := Text.exists_prefix_of_lines hlines
      refine ⟨String.ofList start, String.ofList rest, line, after, ?_⟩
      rw [String.toList_ofList]
      refine ⟨?_, hlines, hbefore, hspoils.not_isSound, Nat.add_comm 1 _ ▸ hspoils, ?_⟩
      · rw [← String.ofList_append, ← hcontent, String.ofList_toList]
      · rw [load_eq, String.toList_ofList, loadLines_of_sound _ _ hbefore]
  · rw [load_followed, h]
  · rw [load_followed, h]

/-- A later line counts, a comment and a blank line do not, and a line without a name stops the
loading, also of what follows. -/
theorem load_overlay_stopped :
    (∃ loaded, load {} "A=1\n# A=2\n\nexport A = '3'" = (loaded, none) ∧
      loaded.get? "A" = some "3") ∧
    ∃ stopped, load {} "A=1\n=2\nA=3" = (stopped, some (.emptyKey 2)) ∧
      load {} "A=1\n" = (stopped, none) ∧
      load {} ("A=1\n=2\nA=3" ++ "\n" ++ "A=4") = (stopped, some (.emptyKey 2)) := by
  constructor
  · have hload : load {} "A=1\n# A=2\n\nexport A = '3'" =
        (⟨[("A", "3"), ("A", "1")]⟩, none) := by decide +kernel
    obtain ⟨-, hvalue⟩ := (load_overlay {} "A=1\n# A=2\n\nexport A = '3'").1 _ hload
    refine ⟨_, hload, (hvalue "A").1 "3" ⟨["A=1".toList, "# A=2".toList, []],
      "export A = '3'".toList, [], by decide +kernel, ?_, nofun⟩⟩
    exact ofText_eq_assignment_iff.1 (by decide +kernel)
  · have hload : load {} "A=1\n=2\nA=3" = (⟨[("A", "1")]⟩, some (.emptyKey 2)) := by
      decide +kernel
    obtain ⟨-, -, -, hstop⟩ := load_overlay {} "A=1\n=2\nA=3"
    exact ⟨_, hload, by decide +kernel, hstop "A=4" _ _ hload⟩

end Environment

end DirectiveQuery
