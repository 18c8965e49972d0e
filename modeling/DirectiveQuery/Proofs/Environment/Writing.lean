import DirectiveQuery.Proofs.Environment.Loading

/-
  Storing variables in environment files. A stored line is an assignment of a value in quotes, or
  a line that assigns nothing; it ends with a line feed, with or without a carriage return before
  that, or with the text. Quotes at both ends keep the value whole: nothing is trimmed off it,
  and only the outer quotes are taken away (`assigns_text`). So each stored line is one line of
  the file, which is read as what was stored (`lines_text`), and loading the file sets the
  stored variables one after another (`load_stored`).
-/
namespace DirectiveQuery

open EnvironmentLine Text

/-- A name that can be stored: it is not empty, has no blanks around it, no equals sign and no
line feed, and starts neither as a comment nor with the word `export`. -/
structure IsStorable (key : String) : Prop where
  nonempty : key ≠ ""
  trimmed : trim key.toList = key.toList
  equals : '=' ∉ key.toList
  feed : '\n' ∉ key.toList
  comment : key.toList.head? ≠ some '#'
  exported : ¬"export ".toList <+: key.toList

/-- A line of an environment file as it is stored. -/
inductive StoredLine where
  /-- A line that assigns nothing. -/
  | idle (text : List Char)
  /-- An assignment, with the word `export` before it or without. -/
  | entry (exported : Bool) (quote : Char) (key : String) (value : String)

namespace StoredLine

/-- The line without its ending. -/
def text : StoredLine → List Char
  | idle text => text
  | entry exported quote key value =>
    (if exported then "export ".toList else []) ++
      (key.toList ++ '=' :: (quote :: (value.toList ++ [quote])))

/-- The variable that is stored in the line. -/
def pair? : StoredLine → Option (String × String)
  | idle _ => none
  | entry _ _ key value => some (key, value)

/-- The line is blank or a comment, or assigns any value without a line feed. -/
def IsProper : StoredLine → Prop
  | idle text => IsIdle text ∧ '\n' ∉ text
  | entry _ quote key value => IsQuote quote ∧ IsStorable key ∧ '\n' ∉ value.toList

end StoredLine

/-- The end of a line, with a carriage return before the line feed or without. -/
inductive LineEnding where
  | feed
  | returnFeed

/-- What stands before the line feed. -/
def LineEnding.start : LineEnding → List Char
  | feed => []
  | returnFeed => ['\r']

/-- The ending itself. -/
def LineEnding.text (e : LineEnding) : List Char := e.start ++ ['\n']

/-- The file with these lines and a last line without an ending. -/
def storedText (lines : List (StoredLine × LineEnding)) (last : StoredLine) : String :=
  String.ofList ((lines.flatMap fun line => line.1.text ++ line.2.text) ++ last.text)

/-- The variables that are stored, in their order. -/
def storedPairs (lines : List (StoredLine × LineEnding)) (last : StoredLine) :
    List (String × String) :=
  (lines.map (·.1) ++ [last]).filterMap StoredLine.pair?

namespace StoredLine

variable {line : StoredLine}

/-! ## One line -/

theorem isAmongBlanks_quoted {first quote : Char} {inside : List Char} (hquote : IsQuote quote)
    (hfirst : isBlank first = false) :
    IsAmongBlanks (first :: (inside ++ [quote])) (first :: (inside ++ [quote])) := by
  refine ⟨[], [], (List.append_nil _).symm, nofun, nofun, ?_, ?_⟩
  · rintro c ⟨⟩
    rw [hfirst]
    exact Bool.false_ne_true
  · intro c hc
    rw [← List.cons_append, List.getLast?_concat] at hc
    cases hc
    rcases hquote with rfl | rfl <;> decide

theorem isBlank_quote {quote : Char} (h : IsQuote quote) : isBlank quote = false := by
  rcases h with rfl | rfl <;> decide

/-- A prefix without the mark ends before the mark. -/
theorem prefix_of_prefix_append {start before after : List Char} {mark : Char}
    (hmark : mark ∉ start) (h : start <+: before ++ mark :: after) : start <+: before := by
  rcases List.prefix_or_prefix_of_prefix h (List.prefix_append before _) with hle | hge
  · exact hle
  · obtain ⟨rest, rfl⟩ := hge
    rw [List.prefix_append_right_inj] at h
    cases rest with
    | nil => exact ⟨[], by simp⟩
    | cons c cs =>
      obtain ⟨_, hcs⟩ := h
      cases hcs
      exact absurd (List.mem_append_right _ List.mem_cons_self) hmark

theorem assigns_text {exported : Bool} {quote : Char} {key value : String}
    (hquote : IsQuote quote) (hkey : IsStorable key) :
    Assigns (entry exported quote key value).text key value := by
  obtain ⟨first, rest, hfirst⟩ : ∃ first rest, key.toList = first :: rest :=
    List.exists_cons_of_ne_nil (by simpa using hkey.nonempty)
  have hblank : isBlank first = false := by
    obtain ⟨-, -, -, -, -, hhead, -⟩ := trim_eq_iff.1 hkey.trimmed
    simpa [hfirst] using hhead
  have hgives : Gives (quote :: (value.toList ++ [quote])) value.toList :=
    .quoted hquote (isAmongBlanks_quoted hquote (isBlank_quote hquote))
  refine ⟨key.toList, _, ?_, hkey.equals, trim_eq_iff.1 hkey.trimmed, hkey.nonempty, hgives⟩
  have hbody : key.toList ++ '=' :: (quote :: (value.toList ++ [quote])) =
      first :: ((rest ++ '=' :: (quote :: value.toList)) ++ [quote]) := by
    rw [hfirst]
    simp
  cases exported with
  | true =>
    have hword : "export ".toList ++ (key.toList ++ '=' :: (quote :: (value.toList ++ [quote]))) =
        'e' :: (("xport ".toList ++ (key.toList ++ '=' :: (quote :: value.toList))) ++ [quote]) := by
      simp
    refine .exported ?_
    show IsAmongBlanks _ ("export ".toList ++ _)
    rw [hword]
    exact isAmongBlanks_quoted hquote (by decide)
  | false =>
    refine .bare ?_ ?_ ?_ ?_
    · show IsAmongBlanks _ (key.toList ++ _)
      rw [hbody]
      exact isAmongBlanks_quoted hquote hblank
    · rw [hbody]
      exact List.cons_ne_nil _ _
    · have hcomment := hkey.comment
      rw [hfirst] at hcomment
      rwa [hbody]
    · exact fun h => hkey.exported (prefix_of_prefix_append (by decide) h)

/-- A proper line is sound, and assigns what is stored in it. -/
theorem IsProper.isSound (h : line.IsProper) : IsSound line.text := by
  cases line with
  | idle text => exact .inl h.1
  | entry exported quote key value => exact .inr ⟨key, value, assigns_text h.1 h.2.1⟩

theorem IsProper.pair?_ofText (h : line.IsProper) :
    (ofText line.text).pair? = line.pair? := by
  cases line with
  | idle text =>
    have hidle : ofText text = .nothing := ofText_of_isIdle h.1
    rw [StoredLine.text, hidle]
    rfl
  | entry exported quote key value =>
    rw [pair?_eq_some_iff.2 (assigns_text h.1 h.2.1)]
    rfl

theorem IsProper.feed_not_mem (h : line.IsProper) : '\n' ∉ line.text := by
  cases line with
  | idle text => exact h.2
  | entry exported quote key value =>
    obtain ⟨hquote, hkey, hvalue⟩ := h
    have hne : '\n' ≠ quote := by
      rintro rfl
      exact absurd (isBlank_quote hquote) (by decide)
    have hexport : '\n' ∉ if exported then "export ".toList else [] := by
      cases exported <;> decide
    simp only [text, List.mem_append, List.mem_cons, List.not_mem_nil, or_false, not_or]
    exact ⟨hexport, hkey.feed, by decide, hne, hvalue, hne⟩

/-- A line with its ending is one line of a file, and is read as the line. -/
theorem IsProper.lines_text (h : line.IsProper) (e : LineEnding) : ∃ shown,
    lines (line.text ++ e.text) = [shown] ∧ ofText shown = ofText line.text := by
  have hfeed := h.feed_not_mem
  cases e with
  | feed => exact ⟨_, lines_line hfeed, ofText_withoutReturn _⟩
  | returnFeed =>
    have hreturn : '\n' ∉ line.text ++ ['\r'] := by simpa using hfeed
    refine ⟨_, ?_, (ofText_withoutReturn (line.text ++ ['\r'])).trans ?_⟩
    · rw [LineEnding.text, ← List.append_assoc]
      exact lines_line hreturn
    · exact ofText_congr (trim_concat (by decide))

end StoredLine

/-! ## Files -/

section

variable {lines : List (StoredLine × LineEnding)} {last : StoredLine}

/-- Lines that are sound and assign these variables. -/
def Assign (ls : List (List Char)) (pairs : List (String × String)) : Prop :=
  (∀ l ∈ ls, IsSound l) ∧ Environment.assignments ls = pairs

theorem Assign.append {ls more : List (List Char)} {pairs others : List (String × String)}
    (h : Assign ls pairs) (hmore : Assign more others) :
    Assign (ls ++ more) (pairs ++ others) :=
  ⟨List.forall_mem_append.2 ⟨h.1, hmore.1⟩, by
    rw [Environment.assignments_append, h.2, hmore.2]⟩

theorem StoredLine.IsProper.assign {line : StoredLine} (h : line.IsProper) {shown : List Char}
    (hshown : ofText shown = ofText line.text) : Assign [shown] line.pair?.toList := by
  have hsound := h.isSound
  rw [isSound_iff 0, ← hshown, ← isSound_iff 0] at hsound
  refine ⟨fun l hl => List.mem_singleton.1 hl ▸ hsound, ?_⟩
  rw [Environment.assignments, List.filterMap_cons, hshown, h.pair?_ofText]
  cases line.pair? <;> rfl

/-- The lines of a stored file are sound, and assign what is stored. -/
theorem assign_storedText (hlines : ∀ line ∈ lines, line.1.IsProper) (hlast : last.IsProper) :
    Assign (Text.lines (storedText lines last).toList) (storedPairs lines last) := by
  rw [storedText, String.toList_ofList]
  induction lines with
  | nil =>
    have hassign := hlast.assign rfl
    have hpairs : storedPairs [] last = last.pair?.toList := by
      rw [storedPairs, List.map_nil, List.nil_append, List.filterMap_cons]
      cases last.pair? <;> rfl
    rw [List.flatMap_nil, List.nil_append, lines_of_not_mem hlast.feed_not_mem, hpairs]
    split
    · next hnil =>
      -- an empty last line is no line of the file, but assigns nothing either
      rw [hnil] at hassign
      rw [← hassign.2]
      exact ⟨nofun, rfl⟩
    · exact hassign
  | cons line lines ih =>
    obtain ⟨hline, hlines⟩ := List.forall_mem_cons.1 hlines
    obtain ⟨shown, hshown, hread⟩ := hline.lines_text line.2
    have hterminated : IsTerminated (line.1.text ++ line.2.text) := by
      rw [LineEnding.text, ← List.append_assoc]
      exact isTerminated_concat _
    have hpairs : storedPairs (line :: lines) last =
        line.1.pair?.toList ++ storedPairs lines last := by
      rw [storedPairs, List.map_cons, List.cons_append, List.filterMap_cons]
      cases line.1.pair? <;> rfl
    rw [List.flatMap_cons, List.append_assoc, lines_append hterminated, hshown, hpairs]
    exact (hline.assign hread).append (ih hlines)

end

/-- Variables that are stored in a file are loaded from it, each with the value that is stored
last; no other variable is touched. -/
theorem Environment.load_stored (env : Environment) {lines : List (StoredLine × LineEnding)}
    {last : StoredLine} (hlines : ∀ line ∈ lines, line.1.IsProper) (hlast : last.IsProper) :
    ∃ loaded, env.load (storedText lines last) = (loaded, none) ∧ ∀ key,
      (∀ before value after, storedPairs lines last = before ++ (key, value) :: after →
        (∀ pair ∈ after, pair.1 ≠ key) → loaded.get? key = some value) ∧
      ((∀ pair ∈ storedPairs lines last, pair.1 ≠ key) → loaded.get? key = env.get? key) := by
  obtain ⟨hsound, hpairs⟩ := assign_storedText hlines hlast
  refine ⟨env.setAll (storedPairs lines last), ?_, fun key => ⟨?_, env.get?_setAll_of_ne⟩⟩
  · rw [load_eq, loadLines_of_sound _ _ hsound, hpairs]
  · intro before value after hsplit hafter
    rw [hsplit]
    exact env.get?_setAll hafter

/-- A comment and a blank line, both endings, and values with quotes, signs and blanks. -/
theorem Environment.load_stored_signs :
    let lines := [(.idle "# A='0'".toList, .returnFeed),
      (.entry true '"' "A" "'=\"# ", .feed), (.idle [], .feed),
      (.entry false '\x27' "B" " b\r", .returnFeed)]
    let last := StoredLine.entry false '"' "A" " '\""
    (∀ line ∈ lines, line.1.IsProper) ∧ last.IsProper ∧
      storedText lines last =
        "# A='0'\r\nexport A=\"'=\"# \"\n\nB=' b\r'\r\nA=\" '\"\"" ∧
      ∃ loaded, load {} (storedText lines last) = (loaded, none) ∧
        loaded.get? "A" = some " '\"" ∧ loaded.get? "B" = some " b\r" := by
  intro lines last
  have hkeys : IsStorable "A" ∧ IsStorable "B" := by
    constructor <;> constructor <;> decide +kernel
  have hproper : ∀ line ∈ lines, line.1.IsProper := by
    refine List.forall_mem_cons.2 ⟨⟨?_, by decide⟩, List.forall_mem_cons.2
      ⟨⟨.inl rfl, hkeys.1, by decide⟩, List.forall_mem_cons.2 ⟨⟨?_, by decide⟩,
        List.forall_mem_cons.2 ⟨⟨.inr rfl, hkeys.2, by decide⟩, nofun⟩⟩⟩⟩
    · exact isIdle_iff.2 (.inr (by decide +kernel))
    · exact isIdle_iff.2 (.inl rfl)
  have hlast : last.IsProper := ⟨.inl rfl, hkeys.1, by decide⟩
  obtain ⟨loaded, hload, hvalues⟩ := load_stored {} hproper hlast
  exact ⟨hproper, hlast, by decide +kernel, loaded, hload,
    (hvalues "A").1 [("A", "'=\"# "), ("B", " b\r")] _ [] rfl nofun,
    (hvalues "B").1 [("A", "'=\"# ")] _ [("A", " '\"")] rfl (by decide)⟩

end DirectiveQuery
