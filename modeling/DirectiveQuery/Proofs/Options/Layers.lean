import DirectiveQuery.Options.Layers
import DirectiveQuery.Proofs.Environment.Switch
import DirectiveQuery.Proofs.Outcome

/-
  Which layer decides an option, and which failure is told. Each option has sources of its own: a
  flag, a variable below the environment file, and what the options file gives (`HasSources`).
  They are the same whichever way they are found (`HasSources.unique`) and decide one value
  (`Decides.unique`), so an option does not depend on anything else. Resolving fails as the first
  of four checks that fails (`isFirst_bind`, `resolve_eq_error_iff`), and no flag is among what
  these look at.
-/
namespace DirectiveQuery

open Environment (HasValue Says Refuses)
open EnvironmentLine (IsSound Spoils)

/-! ## What an options file gives -/

namespace CompileOptions

/-- What the content of an options file gives, if it is one. -/
def given? (content : String) : Option Given :=
  match readGiven? content.toList with
  | some (given, rest) => if (Json.skipSpace rest).isEmpty then some given else none
  | none => none

theorem ofText?_eq (content : String) : ofText? content = (given? content).map Given.options := by
  rw [ofText?, given?]
  cases readGiven? content.toList with
  | none => rfl
  | some found =>
    dsimp only
    split <;> rfl

end CompileOptions

open CompileOptions (Given given?)

namespace OptionArguments

/-! ## Files -/

section

variable {a : OptionArguments} {read : FileReader} {env loaded : Environment}
  {failure : Failure} {lines : List (List Char)}

/-- The lines of the environment file, if there is one. -/
inductive HasLines (read : FileReader) : (path : Option String) → List (List Char) → Prop
  | unnamed : HasLines read none []
  | named {path content : String} : read path = .ok content →
      HasLines read (some path) (Text.lines content.toList)

/-- The environment file cannot be read, or its first line that is not sound spoils it. -/
inductive EnvironmentFails (read : FileReader) : (path : Option String) → Failure → Prop
  | unreadable {path : String} {error : FileError} : read path = .error error →
      EnvironmentFails read (some path) (.environmentFile path error)
  | spoiled {path : String} {before after : List (List Char)} {line : List Char}
      {error : EnvironmentError} : HasLines read (some path) (before ++ line :: after) →
      (∀ l ∈ before, IsSound l) → Spoils (1 + before.length) line error →
      EnvironmentFails read (some path) (.environment error)

/-- What the options file gives, if there is one. -/
inductive HasGiven (read : FileReader) : (path : Option String) → Given → Prop
  | unnamed : HasGiven read none {}
  | named {path content : String} {given : Given} : read path = .ok content →
      given? content = some given → HasGiven read (some path) given

/-- The options file cannot be read, or does not give options. -/
inductive FileFails (read : FileReader) : (path : Option String) → Failure → Prop
  | unreadable {path : String} {error : FileError} : read path = .error error →
      FileFails read (some path) (.file error)
  | undecodable {path content : String} : read path = .ok content → given? content = none →
      FileFails read (some path) .invalidOptions

theorem hasLines_some_iff {path : String} : HasLines read (some path) lines ↔
    ∃ content, read path = .ok content ∧ lines = Text.lines content.toList := by
  constructor
  · intro h
    cases h with
    | named hread => exact ⟨_, hread, rfl⟩
  · rintro ⟨content, hread, rfl⟩
    exact .named hread

theorem HasLines.unique {path : Option String} {other : List (List Char)}
    (h : HasLines read path lines) (h' : HasLines read path other) : lines = other := by
  cases h with
  | unnamed =>
    cases h'
    rfl
  | named hread =>
    obtain ⟨content, hread', rfl⟩ := hasLines_some_iff.1 h'
    cases hread.symm.trans hread'
    rfl

theorem HasGiven.unique {path : Option String} {given other : Given}
    (h : HasGiven read path given) (h' : HasGiven read path other) : given = other := by
  cases h with
  | unnamed =>
    cases h'
    rfl
  | named hread hgiven =>
    cases h' with
    | named hread' hgiven' =>
      cases hread.symm.trans hread'
      exact Option.some.inj (hgiven.symm.trans hgiven')

theorem environment_of_fails (h : EnvironmentFails read a.environmentFile failure) :
    a.environment read env = .error failure := by
  rw [environment]
  generalize a.environmentFile = path at h
  cases h with
  | unreadable hread =>
    dsimp only
    rw [hread]
  | spoiled hlines hbefore hspoils =>
    obtain ⟨content, hread, hlines⟩ := hasLines_some_iff.1 hlines
    dsimp only
    rw [hread]
    dsimp only
    rw [Environment.load_eq, ← hlines, Environment.loadLines_of_spoils _ _ hbefore hspoils]

/-- The environment file is loaded to its end, or fails. -/
theorem environment_cases (a : OptionArguments) (read : FileReader) (env : Environment) :
    (∃ loaded, (∃ lines, HasLines read a.environmentFile lines ∧
      env.setAll (Environment.assignments lines) = loaded) ∧
      a.environment read env = .ok loaded) ∨
    ∃ failure, EnvironmentFails read a.environmentFile failure := by
  rw [environment]
  cases a.environmentFile with
  | none => exact .inl ⟨env, ⟨[], .unnamed, rfl⟩, rfl⟩
  | some path =>
    dsimp only
    cases hread : read path with
    | error e => exact .inr ⟨_, .unreadable hread⟩
    | ok content =>
      dsimp only
      rcases EnvironmentLine.lines_sound_or 1 (Text.lines content.toList) with
        hall | ⟨before, line, after, e, hlines, hbefore, hspoils⟩
      · refine .inl ⟨_, ⟨_, .named hread, rfl⟩, ?_⟩
        rw [Environment.load_eq, Environment.loadLines_of_sound _ _ hall]
      · have hfound := HasLines.named hread
        rw [hlines] at hfound
        exact .inr ⟨_, .spoiled hfound hbefore hspoils⟩

theorem environment_eq_error_iff :
    a.environment read env = .error failure ↔ EnvironmentFails read a.environmentFile failure :=
  except_eq_error_iff_of (fun _ => environment_of_fails) (environment_cases a read env)

theorem environment_eq_ok (h : a.environment read env = .ok loaded) :
    ∃ lines, HasLines read a.environmentFile lines ∧
      env.setAll (Environment.assignments lines) = loaded :=
  except_values_of_ok (fun _ => environment_of_fails) (environment_cases a read env) h

theorem fileOptions_of_fails (h : FileFails read a.optionsFile failure) :
    a.fileOptions read = .error failure := by
  rw [fileOptions]
  generalize a.optionsFile = path at h
  cases h with
  | unreadable hread =>
    dsimp only
    rw [hread]
  | undecodable hread hnone =>
    dsimp only
    rw [hread]
    dsimp only
    rw [CompileOptions.ofText?_eq, hnone]
    rfl

/-- The options file gives options, or fails. -/
theorem fileOptions_cases (a : OptionArguments) (read : FileReader) :
    (∃ options, (∃ given, HasGiven read a.optionsFile given ∧ given.options = options) ∧
      a.fileOptions read = .ok options) ∨
    ∃ failure, FileFails read a.optionsFile failure := by
  rw [fileOptions]
  cases a.optionsFile with
  | none => exact .inl ⟨{}, ⟨{}, .unnamed, rfl⟩, rfl⟩
  | some path =>
    dsimp only
    cases hread : read path with
    | error e => exact .inr ⟨_, .unreadable hread⟩
    | ok content =>
      dsimp only
      cases hgiven : given? content with
      | none => exact .inr ⟨_, .undecodable hread hgiven⟩
      | some given =>
        refine .inl ⟨_, ⟨given, .named hread hgiven, rfl⟩, ?_⟩
        rw [CompileOptions.ofText?_eq, hgiven]
        rfl

theorem fileOptions_eq_error_iff :
    a.fileOptions read = .error failure ↔ FileFails read a.optionsFile failure :=
  except_eq_error_iff_of (fun _ => fileOptions_of_fails) (fileOptions_cases a read)

theorem fileOptions_eq_ok {options : CompileOptions} (h : a.fileOptions read = .ok options) :
    ∃ given, HasGiven read a.optionsFile given ∧ given.options = options :=
  except_values_of_ok (fun _ => fileOptions_of_fails) (fileOptions_cases a read) h

end

/-! ## Sources -/

end OptionArguments

/-- An option that has layers: its flag, the name of its variable, what an options file gives, and
what it may be. -/
structure LayeredOption (α : Type) where
  flag : OptionArguments → Bool
  name : String
  given : Given → Option α
  strict : α
  loose : α

/-- What may decide an option: its flag, the value of its variable, and what the options file
gives. -/
@[ext]
structure Sources (α : Type) where
  flag : Bool
  value : Option String
  given : Option α

namespace LayeredOption

open OptionArguments (HasLines HasGiven layered)

/-- What becomes of repeated directives. -/
def duplicates : LayeredOption DuplicatePolicy where
  flag := OptionArguments.rejectDuplicates
  name := rejectDuplicatesVariable
  given := Given.duplicates
  strict := .reject
  loose := .overwrite

/-- How counts are read. -/
def integers : LayeredOption IntegerMode where
  flag := OptionArguments.strictIntegers
  name := strictIntegersVariable
  given := Given.integers
  strict := .strict
  loose := .lenient

variable {α : Type} {p : LayeredOption α} {a : OptionArguments} {read : FileReader}
  {env : Environment} {s : Sources α} {choice : α}

/-- These are the sources of the option. Its variable is the only one among them, and they have
nothing of the other option. -/
structure HasSources (p : LayeredOption α) (a : OptionArguments) (read : FileReader)
    (env : Environment) (s : Sources α) : Prop where
  flag : s.flag = p.flag a
  value : ∃ lines, HasLines read a.environmentFile lines ∧ HasValue env lines p.name s.value
  given : ∃ given, HasGiven read a.optionsFile given ∧ s.given = p.given given

/-- What the sources decide. A flag that is given comes first, then what the value of the variable
says, then what the options file gives. -/
inductive Decides (p : LayeredOption α) : Sources α → α → Prop
  | flag {value : Option String} {given : Option α} : Decides p ⟨true, value, given⟩ p.strict
  | on {value : Option String} {given : Option α} : Says value (some true) →
      Decides p ⟨false, value, given⟩ p.strict
  | off {value : Option String} {given : Option α} : Says value (some false) →
      Decides p ⟨false, value, given⟩ p.loose
  | file {value : Option String} {choice : α} : Says value none →
      Decides p ⟨false, value, some choice⟩ choice
  | default {value : Option String} : Says value none → Decides p ⟨false, value, none⟩ p.loose

theorem decides_layered {flag : Bool} {value : Option String} {said : Option Bool}
    (h : Says value said) (given : Option α) : p.Decides ⟨flag, value, given⟩
      (layered flag said p.strict p.loose (given.getD p.loose)) := by
  cases flag with
  | true => exact .flag
  | false =>
    match said, given with
    | some true, _ => exact .on h
    | some false, _ => exact .off h
    | none, some _ => exact .file h
    | none, none => exact .default h

theorem Decides.eq_layered {said : Option Bool} (h : p.Decides s choice)
    (hsaid : Says s.value said) :
    choice = layered s.flag said p.strict p.loose (s.given.getD p.loose) := by
  cases h with
  | flag => rfl
  | on hon =>
    cases hon.unique hsaid
    rfl
  | off hoff =>
    cases hoff.unique hsaid
    rfl
  | file hnone =>
    cases hnone.unique hsaid
    rfl
  | default hnone =>
    cases hnone.unique hsaid
    rfl

theorem Decides.unique {other : α} (h : p.Decides s choice) (h' : p.Decides s other) :
    choice = other := by
  cases h with
  | flag =>
    cases h'
    rfl
  | on hon => exact (h'.eq_layered hon).symm
  | off hoff => exact (h'.eq_layered hoff).symm
  | file hnone => exact (h'.eq_layered hnone).symm
  | default hnone => exact (h'.eq_layered hnone).symm

theorem HasSources.unique {other : Sources α} (h : p.HasSources a read env s)
    (h' : p.HasSources a read env other) : s = other := by
  obtain ⟨lines, hlines, hvalue⟩ := h.value
  obtain ⟨lines', hlines', hvalue'⟩ := h'.value
  obtain ⟨given, hgiven, hgives⟩ := h.given
  obtain ⟨given', hgiven', hgives'⟩ := h'.given
  obtain rfl := hlines.unique hlines'
  obtain rfl := hgiven.unique hgiven'
  ext1
  · exact h.flag.trans h'.flag.symm
  · exact hvalue.get?_eq.symm.trans hvalue'.get?_eq
  · exact hgives.trans hgives'.symm

end LayeredOption

namespace OptionArguments

variable {a : OptionArguments} {read : FileReader} {env loaded : Environment}
  {failure : Failure} {options : CompileOptions}

/-! ## Checks -/

/-- The value of the variable, below the environment file, is refused. -/
def SwitchFails (read : FileReader) (env : Environment) (path : Option String) (key : String)
    (failure : Failure) : Prop :=
  ∃ lines value error, HasLines read path lines ∧ HasValue env lines key value ∧
    Refuses key value error ∧ failure = .environment error

/-- What may fail, in the order in which it is looked at. -/
def checks (read : FileReader) (env : Environment) (environmentFile optionsFile : Option String) :
    List (Failure → Prop) :=
  [EnvironmentFails read environmentFile, FileFails read optionsFile,
    SwitchFails read env environmentFile rejectDuplicatesVariable,
    SwitchFails read env environmentFile strictIntegersVariable]

/-- The failure is one of a check before which no other fails. -/
def IsFirst (checks : List (Failure → Prop)) (failure : Failure) : Prop :=
  ∃ before check after, checks = before ++ check :: after ∧ check failure ∧
    ∀ c ∈ before, ∀ f, ¬c f

theorem isFirst_nil : ¬IsFirst [] failure := by
  rintro ⟨before, check, after, h, -⟩
  exact absurd h (by simp)

theorem isFirst_cons {check : Failure → Prop} {checks : List (Failure → Prop)} :
    IsFirst (check :: checks) failure ↔
      check failure ∨ (∀ f, ¬check f) ∧ IsFirst checks failure := by
  constructor
  · rintro ⟨before, c, after, heq, hfails, hbefore⟩
    cases before with
    | nil =>
      cases heq
      exact .inl hfails
    | cons b bs =>
      cases heq
      obtain ⟨hb, hbs⟩ := List.forall_mem_cons.1 hbefore
      exact .inr ⟨hb, bs, c, after, rfl, hfails, hbs⟩
  · rintro (hfails | ⟨hnot, before, c, after, rfl, hfails, hbefore⟩)
    · exact ⟨[], check, checks, rfl, hfails, nofun⟩
    · exact ⟨check :: before, c, after, rfl, hfails, List.forall_mem_cons.2 ⟨hnot, hbefore⟩⟩

/-- A step that fails as its check does comes before the checks of what follows it. -/
theorem isFirst_bind {α β : Type} {x : Except Failure α} {next : α → Except Failure β}
    {check : Failure → Prop} {checks : List (Failure → Prop)}
    (hcheck : ∀ f, x = .error f ↔ check f)
    (hnext : ∀ v, x = .ok v → (next v = .error failure ↔ IsFirst checks failure)) :
    x >>= next = .error failure ↔ IsFirst (check :: checks) failure := by
  rw [isFirst_cons, ← hcheck, except_bind_eq_error]
  refine or_congr_right ?_
  cases x with
  | error e =>
    refine iff_of_false (fun ⟨_, hok, _⟩ => nomatch hok) fun ⟨hnot, _⟩ => ?_
    exact hnot e ((hcheck e).1 rfl)
  | ok v =>
    have hnot : ∀ f, ¬check f := fun f hf => nomatch (hcheck f).2 hf
    rw [← hnext v rfl]
    simp [hnot]

/-! ## Resolving -/

theorem switch_fails_iff (h : a.environment read env = .ok loaded) (key : String) :
    (loaded.switch key).mapError Failure.environment = .error failure ↔
      SwitchFails read env a.environmentFile key failure := by
  obtain ⟨lines, hlines, rfl⟩ := environment_eq_ok h
  simp only [except_mapError_eq_error, Environment.switch_eq_error_iff]
  constructor
  · rintro ⟨error, hrefuses, rfl⟩
    exact ⟨lines, _, error, hlines, Environment.hasValue_iff.2 rfl, hrefuses, rfl⟩
  · rintro ⟨lines', value, error, hlines', hvalue, hrefuses, rfl⟩
    obtain rfl := hlines.unique hlines'
    exact ⟨error, hvalue.get?_eq ▸ hrefuses, rfl⟩

theorem resolve_eq_error_iff : a.resolve read env = .error failure ↔
    IsFirst (checks read env a.environmentFile a.optionsFile) failure := by
  rw [resolve, checks]
  refine isFirst_bind (fun _ => environment_eq_error_iff) fun loaded henv => ?_
  refine isFirst_bind (fun _ => fileOptions_eq_error_iff) fun file _ => ?_
  refine isFirst_bind (fun _ => switch_fails_iff henv _) fun reject _ => ?_
  refine isFirst_bind (fun _ => switch_fails_iff henv _) fun strict _ => ?_
  exact iff_of_false nofun isFirst_nil

/-- What the layers said, of options that are resolved. -/
theorem resolve_eq_ok (h : a.resolve read env = .ok options) :
    ∃ lines given reject strict, HasLines read a.environmentFile lines ∧
      HasGiven read a.optionsFile given ∧
      Says ((env.setAll (Environment.assignments lines)).get? rejectDuplicatesVariable) reject ∧
      Says ((env.setAll (Environment.assignments lines)).get? strictIntegersVariable) strict ∧
      options.duplicates =
        layered a.rejectDuplicates reject .reject .overwrite (given.duplicates.getD .overwrite) ∧
      options.integers =
        layered a.strictIntegers strict .strict .lenient (given.integers.getD .lenient) := by
  simp only [resolve, except_bind_eq_ok, except_mapError_eq_ok, Environment.switch_eq_ok_iff] at h
  obtain ⟨loaded, henv, file, hfile, reject, hreject, strict, hstrict, hoptions⟩ := h
  obtain ⟨lines, hlines, rfl⟩ := environment_eq_ok henv
  obtain ⟨given, hgiven, rfl⟩ := fileOptions_eq_ok hfile
  cases hoptions
  exact ⟨lines, given, reject, strict, hlines, hgiven, hreject, hstrict, rfl, rfl⟩

theorem exists_hasSources {α : Type} (p : LayeredOption α) {lines : List (List Char)}
    {given : Given} {said : Option Bool} (hlines : HasLines read a.environmentFile lines)
    (hgiven : HasGiven read a.optionsFile given)
    (hsaid : Says ((env.setAll (Environment.assignments lines)).get? p.name) said) :
    ∃ s, p.HasSources a read env s ∧
      p.Decides s (layered (p.flag a) said p.strict p.loose ((p.given given).getD p.loose)) :=
  ⟨⟨p.flag a, _, p.given given⟩,
    ⟨rfl, ⟨lines, hlines, Environment.hasValue_iff.2 rfl⟩, given, hgiven, rfl⟩,
    LayeredOption.decides_layered hsaid _⟩

theorem resolve_decides (h : a.resolve read env = .ok options) :
    (∃ s, LayeredOption.duplicates.HasSources a read env s ∧
      LayeredOption.duplicates.Decides s options.duplicates) ∧
    ∃ s, LayeredOption.integers.HasSources a read env s ∧
      LayeredOption.integers.Decides s options.integers := by
  obtain ⟨lines, given, reject, strict, hlines, hgiven, hreject, hstrict, hduplicates, hintegers⟩ :=
    resolve_eq_ok h
  rw [hduplicates, hintegers]
  exact ⟨exists_hasSources LayeredOption.duplicates hlines hgiven hreject,
    exists_hasSources LayeredOption.integers hlines hgiven hstrict⟩

/-- With its flag an option is the strict one, and nothing else changes. -/
theorem resolve_rejectDuplicates (a : OptionArguments) (read : FileReader) (env : Environment) :
    ({ a with rejectDuplicates := true } : OptionArguments).resolve read env =
      (({ a with rejectDuplicates := false } : OptionArguments).resolve read env).map
        fun options => { options with duplicates := .reject } := by
  simp only [resolve, except_map_bind]
  rfl

theorem resolve_strictIntegers (a : OptionArguments) (read : FileReader) (env : Environment) :
    ({ a with strictIntegers := true } : OptionArguments).resolve read env =
      (({ a with strictIntegers := false } : OptionArguments).resolve read env).map
        fun options => { options with integers := .strict } := by
  simp only [resolve, except_map_bind]
  rfl

end OptionArguments

end DirectiveQuery
