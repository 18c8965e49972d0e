import DirectiveQuery.Command.Run
import DirectiveQuery.Proofs.Compile.Compiler
import DirectiveQuery.Proofs.Files.Writing

/-
  What the three commands have to do with one another. `Yields` says what a compiler gives for
  the query and the options of a command, and the reports of compiling and checking follow from
  it (`compile_of_ok`, `compile_of_error`, `check_of_ok`, `check_of_error`); a query without a
  tree yields the error that its tree gives (`yields_of_tree`). What a run leaves behind follows
  from its report alone: it fails, prints a text or saves one (`run_of_error`, `run_of_printed`,
  `run_of_saved`).
-/
namespace DirectiveQuery

/-! ## What a run leaves behind -/

namespace Outcome

/-- The text is printed, and no file is touched. -/
structure Prints (o : Outcome) (before : Files) (text : String) : Prop where
  exitCode : o.exitCode = 0
  stdout : o.stdout = text ++ "\n"
  files : o.files = before

/-- The file at the path gets the content, and no other file reads differently. A device keeps
nothing: what it gets is shown where it leads. -/
structure Saves (o : Outcome) (before : Files) (path content : String) : Prop where
  exitCode : o.exitCode = 0
  stdout : o.stdout = if Device.at? (Location.ofName path) = some .output then content else ""
  stderr : Device.at? (Location.ofName path) = some .errors → content ∈ o.stderr
  device : (Device.at? (Location.ofName path)).isSome = true → o.files = before
  kept : Device.at? (Location.ofName path) = none → o.files.read path = .ok content
  others : ∀ other, Location.ofName other ≠ Location.ofName path →
    ∀ text, o.files.read other = .ok text ↔ before.read other = .ok text

/-- Nothing is printed, no file is touched, and the lines for the reader end with some that are
told and one about the failure. -/
structure Fails (o : Outcome) (before : Files) (told : List String) (f : Failure) : Prop where
  exitCode : o.exitCode = 1
  stdout : o.stdout = ""
  stderr : told ++ [Report.failureLine f] <:+ o.stderr
  files : o.files = before

/-- The text goes to one place: it is printed, or it is saved if a file is named for it. -/
def Delivers (o : Outcome) (before : Files) : Option String → String → Prop
  | none, text => o.Prints before text
  | some path, text => o.Saves before path text

end Outcome

namespace Command

variable {files : Files} {env : Environment} {rules : List LogRule} {c : Command}
variable {read : FileReader} {source : QuerySource} {arguments : OptionArguments}
  {pretty : Bool} {destination : Option String} {query path text : String} {o : Output}
  {f : Failure} {e : SyntaxError} {options : CompileOptions} {d : Descriptor}

theorem run_of_error (h : (c.report files.read env).result = .error f) :
    (c.run files env rules).Fails files (c.report files.read env).told f := by
  simp only [run, h]
  exact ⟨rfl, rfl, ⟨_, (List.append_assoc ..).symm⟩, rfl⟩

theorem run_of_printed (h : (c.report files.read env).result = .ok (.printed text)) :
    (c.run files env rules).Prints files text := by
  simp only [run, h]
  exact ⟨rfl, rfl, rfl⟩

theorem run_of_saved_error {err : FileError}
    (h : (c.report files.read env).result = .ok (.saved path text))
    (hw : files.write path text = .error err) :
    (c.run files env rules).Fails files (c.report files.read env).told (.file err) := by
  simp only [run, h, hw]
  exact ⟨rfl, rfl, ⟨_, (List.append_assoc ..).symm⟩, rfl⟩

theorem run_of_saved {files' : Files}
    (h : (c.report files.read env).result = .ok (.saved path text))
    (hw : files.write path text = .ok files') : (c.run files env rules).Saves files path text := by
  -- where a device shows what it gets makes no difference to the files
  have hfiles : (c.run files env rules).files = files' := by
    simp only [run, h, hw]
    split <;> rfl
  constructor
  · simp only [run, h, hw]
    split <;> rfl
  · simp only [run, h, hw]
    split <;> simp_all
  · intro hdevice
    simp [run, h, hw, hdevice]
  · rw [hfiles]
    exact Files.write_device hw
  · rw [hfiles]
    exact Files.read_write hw
  · intro other hother text
    rw [hfiles]
    exact Files.read_write_other hw hother text

/-- A run that does not end well fails. -/
theorem run_failed (h : (c.run files env rules).exitCode ≠ 0) :
    ∃ told f, (c.run files env rules).Fails files told f := by
  cases hr : (c.report files.read env).result with
  | error f => exact ⟨_, f, run_of_error hr⟩
  | ok o =>
    cases o with
    | printed text => exact absurd (run_of_printed hr).exitCode h
    | saved path text =>
      cases hw : files.write path text with
      | error err => exact ⟨_, .file err, run_of_saved_error hr hw⟩
      | ok files' => exact absurd (run_of_saved hr hw).exitCode h

/-- A run ends well only if the report has something to put out. -/
theorem exists_output (h : (c.run files env rules).exitCode = 0) :
    ∃ o, (c.report files.read env).result = .ok o := by
  cases hr : (c.report files.read env).result with
  | error f => exact absurd ((run_of_error hr).exitCode.symm.trans h) Nat.one_ne_zero
  | ok o => exact ⟨o, rfl⟩

theorem run_of_output (h : (c.report files.read env).result = .ok (output destination text))
    (hrun : (c.run files env rules).exitCode = 0) :
    (c.run files env rules).Delivers files destination text := by
  cases destination with
  | none => exact run_of_printed h
  | some path =>
    cases hw : files.write path text with
    | error err =>
      exact absurd ((run_of_saved_error h hw).exitCode.symm.trans hrun) Nat.one_ne_zero
    | ok files' => exact run_of_saved h hw

/-! ## What the reports say -/

/-- There are options and a query, and a compiler made for these gives the result when it is
asked for its descriptor. -/
def Yields (read : FileReader) (env : Environment) (source : QuerySource)
    (arguments : OptionArguments) (result : Except CompileError Descriptor) : Prop :=
  ∃ options query, arguments.resolve read env = .ok options ∧ source.load read = .ok query ∧
    (Compiler.ofQuery query >>= fun c => (c.withOptions options).descriptor.result).map Prod.fst =
      result

/-- The two ways to ask a compiler that is made for a query agree. -/
theorem ofQuery_descriptor (options : CompileOptions) (query : String) :
    (Compiler.ofQuery query >>= fun c => (c.withOptions options).descriptor.result).map Prod.fst =
      Descriptor.ofQuery options query := by
  rw [Descriptor.ofQuery, except_map_bind]
  simp only [Compiler.descriptor_result]

/-- A command with options reports on the query under them. -/
theorem Yields.withOptions {result : Except CompileError Descriptor}
    (h : Yields read env source arguments result)
    (act : CompileOptions → List LogLine → String → Report) : ∃ options log query,
      (Compiler.ofQuery query >>= fun c => (c.withOptions options).descriptor.result).map Prod.fst =
        result ∧
      withOptions source arguments read env act = act options log query := by
  obtain ⟨options, query, ho, hq, hresult⟩ := h
  refine ⟨options, [.ofOptions options] ++ source.log, query, hresult, ?_⟩
  simp only [Command.withOptions, onQuery, ho, hq]

/-- Without options or without a query there is nothing to put out. -/
theorem exists_yields {act : CompileOptions → List LogLine → String → Report}
    (h : (withOptions source arguments read env act).result = .ok o) :
    ∃ result, Yields read env source arguments result := by
  unfold withOptions at h
  cases ho : arguments.resolve read env with
  | error f => simp [ho] at h
  | ok options =>
    cases hq : source.load read with
    | error f => simp [ho, onQuery, hq] at h
    | ok query => exact ⟨_, options, query, ho, hq, rfl⟩

/-- The text of a descriptor, in one of the two layouts. -/
def layout (pretty : Bool) (d : Descriptor) : String :=
  if pretty then d.toJson.indented else d.toJson.compact

section Yields

variable {err : CompileError}

theorem compile_of_ok (h : Yields read env source arguments (.ok d)) :
    ((compile source arguments pretty destination).report read env).result =
      .ok (output destination (layout pretty d)) := by
  obtain ⟨options, log, query, hd, h⟩ := h.withOptions _
  rw [ofQuery_descriptor, Descriptor.ofQuery] at hd
  rw [report, h, hd]
  rfl

theorem compile_of_error (h : Yields read env source arguments (.error err)) :
    ((compile source arguments pretty destination).report read env).result =
        .error (.compile err) ∧
      ((compile source arguments pretty destination).report read env).told = [] := by
  obtain ⟨options, log, query, hd, h⟩ := h.withOptions _
  rw [ofQuery_descriptor, Descriptor.ofQuery] at hd
  rw [report, h, hd]
  exact ⟨rfl, rfl⟩

theorem check_of_ok (h : Yields read env source arguments (.ok d)) :
    ((check source arguments).report read env).result = .ok (.printed "OK") := by
  obtain ⟨options, log, query, hd, h⟩ := h.withOptions _
  obtain ⟨_, hd, -⟩ := except_map_eq_ok.1 hd
  rw [report, h, hd]

theorem check_of_error (h : Yields read env source arguments (.error err)) :
    ((check source arguments).report read env).result = .error .checkFailed ∧
      ((check source arguments).report read env).told = [description err] := by
  obtain ⟨options, log, query, hd, h⟩ := h.withOptions _
  rw [report, h, except_map_eq_error.1 hd]
  exact ⟨rfl, rfl⟩

theorem yields_of_compile
    (h : ((compile source arguments pretty destination).report read env).result = .ok o) :
    ∃ d, Yields read env source arguments (.ok d) := by
  obtain ⟨result, hresult⟩ := exists_yields h
  cases result with
  | error err => cases (compile_of_error hresult).1.symm.trans h
  | ok d => exact ⟨d, hresult⟩

theorem yields_of_check (h : ((check source arguments).report read env).result = .ok o) :
    ∃ d, Yields read env source arguments (.ok d) := by
  obtain ⟨result, hresult⟩ := exists_yields h
  cases result with
  | error err => cases (check_of_error hresult).1.symm.trans h
  | ok d => exact ⟨d, hresult⟩

end Yields

/-- What has a descriptor has a tree. -/
theorem tree_of_yields (h : Yields read env source arguments (.ok d)) :
    ∃ text, ((tree source).report read env).result = .ok (.printed text) := by
  obtain ⟨options, query, -, hq, h⟩ := h
  rw [ofQuery_descriptor, Descriptor.ofQuery_eq] at h
  obtain ⟨-, h⟩ := except_ite_error_eq_ok.1 h
  obtain ⟨tree, htree, -⟩ := except_bind_eq_ok.1 h
  have hparse := except_mapError_eq_ok.1 htree
  exact ⟨tree.toJson.indented, by simp only [report, onQuery, hq, hparse]⟩

/-- A query without a tree fails for the same reason when it is compiled, unless it is blank. -/
theorem yields_of_tree (ho : arguments.resolve read env = .ok options)
    (hblank : ∀ query, source.load read = .ok query → Text.isAllBlank query.toList = false)
    (h : ((tree source).report read env).result = .error (.unparsable e)) :
    Yields read env source arguments (.error (.unparsable e)) := by
  cases hq : source.load read with
  | error f =>
    simp only [report, onQuery, hq] at h
    cases source <;> simp_all [QuerySource.load, except_mapError_eq_error]
  | ok query =>
    refine ⟨options, query, ho, hq, ?_⟩
    rw [ofQuery_descriptor, Descriptor.ofQuery_eq, hblank query hq, if_neg Bool.false_ne_true,
      Expression.ofQuery]
    cases hparse : Expression.parse query with
    | error err =>
      simp only [report, onQuery, hq, hparse] at h
      cases h
      rfl
    | ok tree => simp [report, onQuery, hq, hparse] at h

/-! ## The commands side by side -/

/-- A command that prints something for a descriptor, and has nothing else to put out, ends well
exactly if there is one. -/
theorem exitCode_eq_zero_iff {text : Descriptor → String}
    (hok : ∀ d, Yields files.read env source arguments (.ok d) →
      (c.report files.read env).result = .ok (.printed (text d)))
    (hyields : ∀ o, (c.report files.read env).result = .ok o →
      ∃ d, Yields files.read env source arguments (.ok d)) :
    (c.run files env rules).exitCode = 0 ↔ ∃ d, Yields files.read env source arguments (.ok d) := by
  constructor
  · intro h
    obtain ⟨o, ho⟩ := exists_output h
    exact hyields o ho
  · rintro ⟨d, h⟩
    exact (run_of_printed (hok d h)).exitCode

theorem check_exitCode : ((check source arguments).run files env rules).exitCode = 0 ↔
    ∃ d, Yields files.read env source arguments (.ok d) :=
  exitCode_eq_zero_iff (fun _ => check_of_ok) fun _ => yields_of_check

theorem compile_exitCode :
    ((compile source arguments pretty none).run files env rules).exitCode = 0 ↔
      ∃ d, Yields files.read env source arguments (.ok d) :=
  exitCode_eq_zero_iff (fun _ => compile_of_ok) fun _ => yields_of_compile

theorem compile_delivers
    (h : ((compile source arguments pretty destination).run files env rules).exitCode = 0) :
    ∃ d, Yields files.read env source arguments (.ok d) ∧
      ((compile source arguments pretty destination).run files env rules).Delivers files
        destination (layout pretty d) := by
  obtain ⟨o, ho⟩ := exists_output h
  obtain ⟨d, hd⟩ := yields_of_compile ho
  exact ⟨d, hd, run_of_output (compile_of_ok hd) h⟩

theorem fails_alike (hd : Yields files.read env source arguments (.error (.unparsable e)))
    (h : ((tree source).report files.read env).result = .error (.unparsable e)) :
    ((tree source).run files env rules).Fails files [] (.unparsable e) ∧
      ((compile source arguments pretty destination).run files env rules).Fails files []
        (.compile (.unparsable e)) ∧
      ((check source arguments).run files env rules).Fails files [e.formatted] .checkFailed := by
  obtain ⟨hcompile, hcompileTold⟩ := compile_of_error hd
  obtain ⟨hcheck, hcheckTold⟩ := check_of_error hd
  refine ⟨?_, ?_, ?_⟩
  · have htold : ((tree source).report files.read env).told = [] := by
      simp only [report, onQuery]
      cases source.load files.read <;> rfl
    exact htold ▸ run_of_error h
  · exact hcompileTold ▸ run_of_error hcompile
  · exact hcheckTold ▸ run_of_error hcheck

/-- The three commands agree, and fail without a trace. Checking a query ends well exactly if
compiling and printing it does, and exactly if a compiler finds a descriptor for it; then `OK` is
printed, and the query has a tree. If a query that is not blank has no tree, and there are
options, then compiling and checking fail for the same reason, and tell it. Whatever fails prints
nothing and touches no file. What compiles is printed, or saved if a file is named for it, and
then no other file reads differently. -/
theorem run_agree (files : Files) (env : Environment) (source : QuerySource)
    (arguments : OptionArguments) (pretty : Bool) (destination : Option String)
    (rules rules' : List LogRule) :
    (((check source arguments).run files env rules).exitCode = 0 ↔
      ((compile source arguments pretty none).run files env rules').exitCode = 0) ∧
    (((check source arguments).run files env rules).exitCode = 0 ↔
      ∃ d, Yields files.read env source arguments (.ok d)) ∧
    (((check source arguments).run files env rules).exitCode = 0 →
      ((check source arguments).run files env rules).Prints files "OK" ∧
      ((tree source).run files env rules').exitCode = 0) ∧
    (∀ options e, arguments.resolve files.read env = .ok options →
      (∀ query, source.load files.read = .ok query → Text.isAllBlank query.toList = false) →
      ((tree source).report files.read env).result = .error (.unparsable e) →
        Yields files.read env source arguments (.error (.unparsable e)) ∧
        ((tree source).run files env rules).Fails files [] (.unparsable e) ∧
        ((compile source arguments pretty destination).run files env rules).Fails files []
          (.compile (.unparsable e)) ∧
        ((check source arguments).run files env rules).Fails files [e.formatted] .checkFailed) ∧
    (∀ c : Command, (c.run files env rules).exitCode ≠ 0 →
      ∃ told f, (c.run files env rules).Fails files told f) ∧
    (((compile source arguments pretty destination).run files env rules).exitCode = 0 →
      ∃ d, Yields files.read env source arguments (.ok d) ∧
        ((compile source arguments pretty destination).run files env rules).Delivers files
          destination (layout pretty d)) := by
  refine ⟨check_exitCode.trans compile_exitCode.symm, check_exitCode, fun h => ?_,
    fun options e ho hblank h => ?_, fun c => run_failed, compile_delivers⟩
  · obtain ⟨d, hd⟩ := check_exitCode.1 h
    obtain ⟨text, htree⟩ := tree_of_yields hd
    exact ⟨run_of_printed (check_of_ok hd), (run_of_printed htree).exitCode⟩
  · have hd := yields_of_tree ho hblank h
    exact ⟨hd, fails_alike hd h⟩

theorem run_agree_limit :
    ((check (.text "limit(1)") {}).run {} {} []).Prints {} "OK" ∧
    (∃ d, Yields ({} : Files).read {} (.text "limit(1)") {} (.ok d) ∧
      ((compile (.text "limit(1)") {} false (some "a.json")).run {} {} []).Saves {} "a.json"
        (layout false d)) ∧
    ∃ e, ((tree (.text "limit(")).report ({} : Files).read {}).result = .error (.unparsable e) ∧
      ((compile (.text "limit(") {} false (some "a.json")).run {} {} []).Fails {} []
        (.compile (.unparsable e)) ∧
      ((check (.text "limit(") {}).run {} {} []).Fails {} [e.formatted] .checkFailed := by
  obtain ⟨-, -, hprints, -, -, hdelivers⟩ :=
    run_agree {} {} (.text "limit(1)") {} false (some "a.json") [] []
  refine ⟨(hprints (by decide +kernel)).1, hdelivers (by decide +kernel), ?_⟩
  obtain ⟨e, he⟩ : ∃ e, errorOf? (Expression.parse "limit(") = some e :=
    Option.isSome_iff_exists.1 (by decide +kernel)
  have htree : ((tree (.text "limit(")).report ({} : Files).read {}).result =
      .error (.unparsable e) := by
    simp only [report, onQuery, QuerySource.load, errorOf?_eq_some.1 he]
  obtain ⟨-, -, -, hfails, -⟩ := run_agree {} {} (.text "limit(") {} false (some "a.json") [] []
  obtain ⟨-, -, hcompile, hcheck⟩ := hfails {} e rfl (by rintro _ ⟨⟩; decide +kernel) htree
  exact ⟨e, htree, hcompile, hcheck⟩

end Command

end DirectiveQuery
