import DirectiveQuery.Proofs.Grammar.Reporting
import DirectiveQuery.Proofs.Grammar.Unambiguous

/-
  What the parsers of the grammar report. Most of what is tried in vain is overridden: the kinds
  of literals and operands by the operand that they are kinds of, and keywords by the operator or
  by what is missing behind it. What is left is traced back: a report of an operand, for
  example, is about the operand itself, about what stands in its brackets, or about its calls.
-/
namespace DirectiveQuery.Grammar

open DirectiveQuery.Parser Token Misses

variable {α β : Type} {p q : Parser α} {c c' : Cursor} {n : Nat} {element : Parser Expression}
  {rule : Rule} {b : Nat}

/-! ## Parsers go onward -/

section Onward

theorem space_onward : Onward space := .scanned _

theorem token_onward (s : String) : Onward (token s) := .scanned _

theorem scannedAs_onward (scan : List Char → Option (α × List Char)) (f : α → β) :
    Onward (do return f (← scanned scan)) :=
  (Onward.scanned scan).bind fun _ => .pure _

theorem tokenFor_onward (s : String) (a : α) : Onward (tokenFor s a) :=
  scannedAs_onward _ fun _ => a

theorem keyword_onward (rule : Rule) (s : String) (a : α) : Onward (keyword rule s a) :=
  (scannedAs_onward _ fun _ => a).named rule

theorem spaced_onward (hp : Onward p) : Onward (spaced p) :=
  (space_onward.bind fun _ => hp).many

theorem mark_onward : Onward mark :=
  (((tokenFor_onward _ _).orElse ((tokenFor_onward _ _).orElse
    ((tokenFor_onward _ _).orElse .fail))).named _).spanned

theorem relationToken_onward : Onward relationToken :=
  ((tokenFor_onward _ _).orElse ((tokenFor_onward _ _).orElse ((tokenFor_onward _ _).orElse
    ((tokenFor_onward _ _).orElse ((keyword_onward _ _ _).orElse
      ((keyword_onward _ _ _).orElse .fail)))))).named _

theorem equalityToken_onward : Onward equalityToken :=
  ((tokenFor_onward _ _).orElse ((tokenFor_onward _ _).orElse .fail)).named _

theorem andToken_onward : Onward andToken := (tokenFor_onward _ _).named _

theorem orToken_onward : Onward orToken := (tokenFor_onward _ _).named _

theorem literal_onward : Onward literal :=
  ((keyword_onward _ _ _).orElse (((scannedAs_onward _ _).named _).orElse
    (((scannedAs_onward _ _).named _).orElse (((scannedAs_onward _ _).named _).orElse
      .fail)))).spanned.bind fun _ => .pure _

theorem identifier_onward : Onward identifier :=
  ((Onward.scanned _).spanned.bind fun _ => .pure _).named _

theorem further_onward (he : Onward element) : Onward (furtherElements element) :=
  spaced_onward ((token_onward _).bind fun _ => space_onward.bind fun _ => he)

theorem elements_onward (he : Onward element) : Onward (elements element) :=
  he.bind fun _ => space_onward.bind fun _ => (further_onward he).bind fun _ =>
    space_onward.bind fun _ => ((token_onward _).withDefault _).bind fun _ => .pure _

theorem bracketed_onward (opening closing : String) (he : Onward element) :
    Onward (bracketed opening closing element) :=
  (token_onward _).bind fun _ => space_onward.bind fun _ =>
    ((elements_onward he).withDefault _).bind fun _ => space_onward.bind fun _ =>
      (token_onward _).bind fun _ => .pure _

theorem sequence_onward (he : Onward element) : Onward (sequence element) :=
  (Onward.here.bind fun _ => he.bind fun _ => space_onward.bind fun _ =>
    (further_onward he).bind fun _ => Onward.here.bind fun _ => .pure _).named _

theorem array_onward (he : Onward element) : Onward (array element) :=
  ((bracketed_onward _ _ he).spanned.bind fun _ => .pure _).named _

theorem group_onward (he : Onward element) : Onward (group element) :=
  ((token_onward _).bind fun _ => space_onward.bind fun _ => (sequence_onward he).bind fun _ =>
    space_onward.bind fun _ => (token_onward _).bind fun _ => .pure _).named _

theorem primary_onward (he : Onward element) : Onward (primary element) :=
  literal_onward.orElse ((array_onward he).orElse
    (identifier_onward.orElse ((group_onward he).orElse .fail)))

theorem arguments_onward (he : Onward element) : Onward (arguments element) :=
  (bracketed_onward _ _ he).spanned.named _

theorem application_onward (he : Onward element) : Onward (application element) :=
  ((primary_onward he).bind fun _ => space_onward.bind fun _ =>
    (spaced_onward (arguments_onward he)).bind fun _ => .pure _).named _

theorem unary_onward (he : Onward element) : Onward (unary element) :=
  ((spaced_onward mark_onward).bind fun _ => space_onward.bind fun _ =>
    (application_onward he).bind fun _ => .pure _).named _

theorem chain_onward (rule : Rule) {operator : Parser Operator} {operand : Parser Expression}
    (ho : Onward operator) (hp : Onward operand) : Onward (chain rule operator operand) :=
  (hp.bind fun _ => space_onward.bind fun _ => (spaced_onward (ho.bind fun _ =>
    space_onward.bind fun _ => hp.bind fun _ => .pure _)).bind fun _ => .pure _).named _

theorem expressionOver_onward (he : Onward element) : Onward (expressionOver element) :=
  (chain_onward _ orToken_onward (chain_onward _ andToken_onward (chain_onward _
    equalityToken_onward (chain_onward _ relationToken_onward (unary_onward he))))).named _

theorem expressionWithin_onward (depth : Nat) : Onward (expressionWithin depth) := by
  induction depth with
  | zero => exact .fail
  | succ depth ih => exact expressionOver_onward ih

end Onward

/-! ## Tokens -/

theorem token_silent (s : String) : Silent (token s) := silent_scanned _

theorem space_silent : Silent space := silent_scanned _

theorem scannedAs_silent (scan : List Char → Option (α × List Char)) (f : α → β) :
    Silent (do return f (← scanned scan)) :=
  (silent_scanned scan).bind fun _ => silent_pure _

theorem tokenFor_silent (s : String) (a : α) : Silent (tokenFor s a) :=
  scannedAs_silent _ fun _ => a

theorem marks_silent :
    Silent (firstOf [tokenFor "!" Mark.not, tokenFor "+" Mark.plus, tokenFor "-" Mark.minus]) :=
  (tokenFor_silent _ _).orElse ((tokenFor_silent _ _).orElse ((tokenFor_silent _ _).orElse
    silent_fail))

theorem reports_mark (h : Reports mark c rule b) : rule = .mark ∧ b = c.byte :=
  (reports_named_of_silent marks_silent (reports_spanned h)).2

theorem equalityToken_blames : Blames .equalityToken equalityToken :=
  ((tokenFor_silent _ _).orElse ((tokenFor_silent _ _).orElse silent_fail)).blames

theorem andToken_blames : Blames .andToken andToken := (tokenFor_silent _ _).blames

theorem orToken_blames : Blames .orToken orToken := (tokenFor_silent _ _).blames

/-- Of the words `nin` and `in` either both are tried in vain, or one of them is found. -/
theorem relationToken_blames : Blames .relationToken relationToken := by
  refine Local.blames ?_ fun c hf => ?_
  · exact (tokenFor_silent _ _).isLocal.orElse ((tokenFor_silent _ _).isLocal.orElse
      ((tokenFor_silent _ _).isLocal.orElse ((tokenFor_silent _ _).isLocal.orElse
        ((scannedAs_silent _ _).named_isLocal.orElse
          ((scannedAs_silent _ _).named_isLocal.orElse silent_fail.isLocal)))))
  · exact crowded_orElse_silent (tokenFor_silent _ _) (crowded_orElse_silent (tokenFor_silent _ _)
      (crowded_orElse_silent (tokenFor_silent _ _) (crowded_orElse_silent (tokenFor_silent _ _)
        (crowded_orElse (scannedAs_silent _ _) (scannedAs_silent _ _) .fail)))) hf

/-- Spaces blame nothing. -/
theorem reports_item (h : Reports (do space; p) c rule b) : Reports p (skip c) rule b := by
  obtain ⟨_, _, hspace, h⟩ := space_silent.reports_bind h
  obtain rfl := runs_space.1 hspace
  exact h

theorem reports_behind_token {s : String} (h : Reports (do token s; space; p) c rule b) :
    ∃ d, Runs (token s) c () d ∧ Reports p (skip d) rule b := by
  obtain ⟨_, d, hd, h⟩ := (token_silent s).reports_bind h
  exact ⟨d, hd, reports_item h⟩

theorem from_item (h : (p (skip c)).misses.From b) : ((do space; p : Parser α) c).misses.From b :=
  from_bind_of_runs (runs_space (u := ()).2 rfl) h

/-! ## Operands -/

theorem literal_local : Local literal :=
  ((scannedAs_silent _ _).named_isLocal.orElse ((scannedAs_silent _ _).named_isLocal.orElse
    ((scannedAs_silent _ _).named_isLocal.orElse ((scannedAs_silent _ _).named_isLocal.orElse
      silent_fail.isLocal)))).spanned.bind fun _ => silent_pure _

theorem identifier_local : Local identifier := by
  have hname : Silent (spanned (scanned Lexeme.identifier?)) :=
    silent_here.bind fun _ => (silent_scanned _).bind fun _ => silent_here.bind fun _ =>
      silent_pure _
  exact (hname.bind fun _ => silent_pure _).named_isLocal

/-- A literal that fails leaves several kinds of literals tried in vain. -/
theorem literal_crowded (hf : Fails literal c) : (literal c).misses.Crowded c := by
  have hkinds : Fails (firstOf
      [keyword .nullWord "null" Literal.null,
        named .booleanWord do return Literal.boolean (← scanned Lexeme.boolean?),
        named .number do return Literal.number (← scanned Lexeme.number?),
        named .string do return Literal.string (← scanned Lexeme.string?)]) c := by
    refine fails_iff.2 fun value c' hr => fails_iff.1 hf (.literal value (c.spanTo c')) c' ?_
    exact runs_bind.2 ⟨_, _, runs_spanned.2 ⟨hr, rfl⟩, runs_pure.2 ⟨rfl, rfl⟩⟩
  have hspanned : Fails (spanned _) c :=
    fails_iff.2 fun ⟨_, _⟩ _ hr => fails_iff.1 hkinds _ _ (runs_spanned.1 hr).1
  rw [literal, misses_bind_of_fails hspanned, misses_spanned_of_fails hkinds]
  exact crowded_orElse (scannedAs_silent _ _) (scannedAs_silent _ _)
    (((scannedAs_onward _ _).named _).orElse (((scannedAs_onward _ _).named _).orElse .fail)) hkinds

theorem primary_crowded (he : Onward element) (hf : Fails (primary element) c) :
    (primary element c).misses.Crowded c := by
  obtain ⟨hliteral, -⟩ := fails_orElse.1 hf
  have hrest := (array_onward he).orElse (identifier_onward.orElse ((group_onward he).orElse .fail))
  show (orElse _ _ c).misses.Crowded c
  rw [misses_orElse_of_fails hliteral]
  exact crowded_merge (literal_crowded hliteral) (hrest.notBefore c)

theorem reports_bracketed {opening closing : String}
    (h : Reports (bracketed opening closing element) c rule b) :
    ∃ d, Runs (token opening) c () d ∧ Reports (elements element) (skip d) rule b := by
  obtain ⟨d, hopen, h⟩ := reports_behind_token h
  refine ⟨d, hopen, reports_withDefault (reports_bind_silent (fun es => ?_) h)⟩
  exact space_silent.bind fun _ => (token_silent _).bind fun _ => silent_pure _

theorem reports_group (h : Reports (group element) c rule b) (hb : c.byte < b) :
    ∃ d, Runs (token "(") c () d ∧ Reports (sequence element) (skip d) rule b := by
  obtain ⟨-, -, rfl⟩ | h := reports_named h
  · exact absurd hb (Nat.lt_irrefl _)
  obtain ⟨d, hopen, h⟩ := reports_behind_token h
  refine ⟨d, hopen, reports_bind_silent (fun es => ?_) h⟩
  exact space_silent.bind fun _ => (token_silent _).bind fun _ => silent_pure _

theorem reports_array (h : Reports (array element) c rule b) (hb : c.byte < b) :
    ∃ d, Runs (token "[") c () d ∧ Reports (elements element) (skip d) rule b := by
  obtain ⟨-, -, rfl⟩ | h := reports_named h
  · exact absurd hb (Nat.lt_irrefl _)
  exact reports_bracketed (reports_spanned (reports_bind_silent (fun _ => silent_pure _) h))

/-- What an operand blames further on stands in its brackets. -/
theorem reports_primary (h : Reports (primary element) c rule b) (hb : c.byte < b) :
    (∃ d, Runs (token "[") c () d ∧ Reports (elements element) (skip d) rule b) ∨
      ∃ d, Runs (token "(") c () d ∧ Reports (sequence element) (skip d) rule b := by
  have hlocal : ∀ {p : Parser Expression}, Local p → ¬ Reports p c rule b :=
    fun hp h => absurd (hp _ _ _ h) (Nat.ne_of_gt hb)
  obtain h | ⟨-, h⟩ := reports_orElse h
  · exact absurd h (hlocal literal_local)
  obtain h | ⟨-, h⟩ := reports_orElse h
  · exact .inl (reports_array h hb)
  obtain h | ⟨-, h⟩ := reports_orElse h
  · exact absurd h (hlocal identifier_local)
  obtain h | ⟨-, h⟩ := reports_orElse h
  · exact .inr (reports_group h hb)
  · exact absurd h silent_fail.not_reports

/-! ## Lists -/

theorem space_total : Total space := fun c => ⟨(), skip c, runs_space.2 rfl⟩

theorem reports_spaced (h : Reports (spaced p) c rule b) :
    ∃ as c', Repeats (do space; p) c as c' ∧ Reports p (skip c') rule b := by
  obtain ⟨as, c', has, h⟩ := reports_many h
  exact ⟨as, c', has, reports_item h⟩

theorem reports_further (h : Reports (furtherElements element) c rule b) :
    ∃ es c' d, Repeats (do space; token ","; space; element) c es c' ∧
      Runs (token ",") (skip c') () d ∧ Reports element (skip d) rule b := by
  obtain ⟨es, c', hes, h⟩ := reports_spaced h
  obtain ⟨d, hcomma, h⟩ := reports_behind_token h
  exact ⟨es, c', d, hes, hcomma, h⟩

/-- What parsers of a list blame, they blame for its first element or for a further one. -/
theorem reports_list {f : Expression → List Expression → Parser α}
    (hf : ∀ first others, Silent (f first others))
    (h : Reports (do
      let first ← element
      space
      let others ← furtherElements element
      f first others) c rule b) :
    Reports element c rule b ∨ ∃ first d, Runs element c first d ∧
      Reports (furtherElements element) (skip d) rule b := by
  refine (reports_bind h).imp id fun ⟨first, d, hfirst, h⟩ => ⟨first, d, hfirst, ?_⟩
  exact reports_bind_silent (hf first) (reports_item h)

theorem reports_elements (h : Reports (elements element) c rule b) :
    Reports element c rule b ∨ ∃ first d, Runs element c first d ∧
      Reports (furtherElements element) (skip d) rule b :=
  reports_list (fun _ _ => space_silent.bind fun _ =>
    ((token_silent _).orElse (silent_pure _)).bind fun _ => silent_pure _) h

/-- A sequence that fails has nothing to add to what its first element tells. -/
theorem reports_sequence (hs : Fails element c → (element c).misses.Settled c)
    (h : Reports (sequence element) c rule b) :
    Reports element c rule b ∨ ∃ first d, Runs element c first d ∧
      Reports (furtherElements element) (skip d) rule b := by
  have hbody := reports_named_of_settled (fun hf => ?settled) h
  case settled =>
    have hfirst := fails_of_fails_bind (fun _ => space_total.bind fun _ =>
      (total_many _).bind fun _ => total_here.bind fun _ => total_pure _) (fails_here_bind hf)
    rw [misses_here_bind, misses_bind_of_fails hfirst]
    exact hs hfirst
  obtain ⟨_, _, hhere, hbody⟩ := silent_here.reports_bind hbody
  obtain ⟨rfl, rfl⟩ := runs_here.1 hhere
  exact reports_list (fun _ _ => silent_here.bind fun _ => silent_pure _) hbody

/-! ## Expressions press on

In a text below a bound an expression always blames something; so, of what stands before it,
nothing is told. -/

/-- In texts below the bound the parser blames something, where it starts or further on. -/
def Presses (bound : Nat) (p : Parser α) : Prop :=
  ∀ c, c.ahead.length < bound → (p c).misses.From c.byte

theorem byte_skip_le (c : Cursor) : c.byte ≤ (skip c).byte := Cursor.byte_advance_le _ c

theorem length_skip_le (c : Cursor) : (skip c).ahead.length ≤ c.ahead.length :=
  space_onward.strides.length_le (runs_space (u := ()).2 rfl)

theorem length_skip_lt_of_token {s : String} (hs : s.toList ≠ []) (h : Runs (token s) c () c') :
    (skip c').ahead.length < c.ahead.length := by
  have hle := length_skip_le c'
  have hpos := List.length_pos_iff.2 hs
  rw [ahead_of_token h, List.length_append]
  omega

/-- With a token read, a parser has come further. -/
theorem byte_lt_of_reads {a : α} {t : Token} {ts : List Token} (hp : Strides p)
    (h : Runs p c a c') (hr : Reads c.ahead (t :: ts) c'.ahead) : c.byte < c'.byte := by
  obtain ⟨n, hn, rfl⟩ := hp c a c' h
  cases n with
  | zero =>
    have hle := hr.length_le
    simp only [Cursor.advance, List.length_cons] at hle
    omega
  | succ n =>
    have hne : c.ahead ≠ [] := List.length_pos_iff.1 (by omega)
    exact Nat.lt_of_lt_of_le (Cursor.byte_next_lt hne) (Cursor.byte_advance_le n c.next)

theorem spaced_presses (hp : Presses n p) : Presses n (spaced p) := by
  intro c hc
  have hitem := hp (skip c) (Nat.lt_of_le_of_lt (length_skip_le c) hc)
  exact from_many (from_item (hitem.mono (byte_skip_le c)))

theorem bracketed_presses {opening closing : String} (hne : opening.toList ≠ [])
    (hp : Presses n element) (hc : c.ahead.length < n + 1) {es : List Expression}
    (hr : Runs (bracketed opening closing element) c es c') :
    (bracketed opening closing element c).misses.From c.byte := by
  obtain ⟨_, d, hopen, -⟩ := runs_bind.1 hr
  have hshort := length_skip_lt_of_token hne hopen
  have helements : (elements element (skip d)).misses.From (skip d).byte :=
    from_bind (hp (skip d) (by omega))
  have hle : c.byte ≤ (skip d).byte :=
    Nat.le_trans ((token_onward _).strides.byte_le hopen) (byte_skip_le d)
  rw [bracketed]
  exact from_bind_of_runs hopen (from_item (from_bind (from_withDefault (helements.mono hle))))

theorem arguments_presses (he : Onward element) (hp : Presses n element) :
    Presses (n + 1) (arguments element) := fun c hc =>
  from_named (bracketed_onward _ _ he).spanned fun ⟨es, s⟩ c' hr =>
    from_spanned (bracketed_presses (by decide) hp hc (runs_spanned.1 hr).1)

theorem calls_press (he : Onward element) (hp : Presses n element) (hc : c.ahead.length < n + 1) :
    (spaced (arguments element) (skip c)).misses.From (skip c).byte :=
  spaced_presses (arguments_presses he hp) (skip c) (Nat.lt_of_le_of_lt (length_skip_le c) hc)

theorem application_presses (he : Onward element) (hp : Presses n element) :
    Presses (n + 1) (application element) := by
  refine fun c hc => from_named ((primary_onward he).bind fun _ => space_onward.bind fun _ =>
    (spaced_onward (arguments_onward he)).bind fun _ => .pure _) fun e c' hr => ?_
  obtain ⟨head, d, hhead, -⟩ := runs_bind.1 hr
  have hle := (primary_onward he).strides.byte_le hhead
  have hshort := (primary_onward he).strides.length_le hhead
  have hcalls := calls_press he hp (Nat.lt_of_le_of_lt hshort hc)
  have hfrom := hcalls.mono (Nat.le_trans hle (byte_skip_le d))
  exact from_bind_of_runs hhead (from_item (from_bind hfrom))

theorem unary_presses (he : Onward element) (hp : Presses n element) :
    Presses (n + 1) (unary element) := by
  refine fun c hc => from_named ((spaced_onward mark_onward).bind fun _ => space_onward.bind
    fun _ => (application_onward he).bind fun _ => .pure _) fun e c' hr => ?_
  obtain ⟨ms, d, hms, -⟩ := runs_bind.1 hr
  have hle := (spaced_onward mark_onward).strides.byte_le hms
  have hshort := (spaced_onward mark_onward).strides.length_le hms
  have happlication := application_presses he hp (skip d)
    (Nat.lt_of_le_of_lt (Nat.le_trans (length_skip_le d) hshort) hc)
  have hfrom := happlication.mono (Nat.le_trans hle (byte_skip_le d))
  exact from_bind_of_runs hms (from_item (from_bind hfrom))

theorem chain_presses (rule : Rule) {operator : Parser Operator} {operand : Parser Expression}
    (ho : Onward operator) (hop : Onward operand) (hp : Presses n operand) :
    Presses n (chain rule operator operand) := fun c hc =>
  from_named (hop.bind fun _ => space_onward.bind fun _ => (spaced_onward (ho.bind fun _ =>
    space_onward.bind fun _ => hop.bind fun _ => .pure _)).bind fun _ => .pure _)
    fun _ _ _ => from_bind (hp c hc)

/-! ## What operands and expressions blame -/

theorem spaced_total (p : Parser α) : Total (spaced p) := total_many _

/-- An operand blames itself where it starts, or what stands in its brackets, or its calls. The
kinds of operands are told nowhere: if none of them is found several were tried in vain, and if
one is found a call is tried behind it. -/
theorem reports_application (he : ReadsExpressions n element) (ho : Onward element)
    (hp : Presses n element) (hc : c.ahead.length < n + 1)
    (h : Reports (application element) c rule b) :
    (rule = .application ∧ b = c.byte) ∨ (Reports (primary element) c rule b ∧ c.byte < b) ∨
      ∃ head d, Runs (primary element) c head d ∧
        Reports (spaced (arguments element)) (skip d) rule b := by
  have hbody := reports_named_of_crowded (fun hf => ?crowded) h
  case crowded =>
    have hprimary := fails_of_fails_bind (fun _ => space_total.bind fun _ =>
      (spaced_total _).bind fun _ => total_pure _) hf
    rw [misses_bind_of_fails hprimary]
    exact primary_crowded ho hprimary
  obtain ⟨-, hrule, hb⟩ | ⟨hbody, hlt⟩ := hbody
  · exact .inl ⟨hrule, hb⟩
  right
  obtain hf | ⟨head, d, hhead⟩ := fails_or_runs (primary element) c
  · have hprimary : Reports (primary element) c rule b := by
      rwa [Reports, misses_bind_of_fails hf] at hbody
    refine .inl ⟨hprimary, hlt (fails_iff.2 fun _ _ hr => ?_)⟩
    obtain ⟨_, _, hr, -⟩ := runs_bind.1 hr
    exact fails_iff.1 hf _ _ hr
  · -- what is told of the operand itself is no further than the call behind it
    obtain ⟨ts, hts, hphrase⟩ := (primary_parses he).sound hhead
    obtain ⟨t, us, rfl, -⟩ := hphrase.first
    have hlt := byte_lt_of_reads (primary_onward ho).strides hhead hts
    have hshort := (primary_onward ho).strides.length_le hhead
    have hcalls := calls_press ho hp (Nat.lt_of_le_of_lt hshort hc)
    have hle : (skip d).byte ≤ b :=
      Names.le hbody (from_bind_of_runs hhead (from_item (from_bind hcalls)))
    obtain h | ⟨head, d, hhead, h⟩ := reports_bind hbody
    · exact .inl ⟨h, Nat.lt_of_lt_of_le hlt (Nat.le_trans (byte_skip_le d) hle)⟩
    · exact .inr ⟨head, d, hhead, reports_bind_silent (fun _ => silent_pure _) (reports_item h)⟩

theorem reports_arguments (h : Reports (arguments element) c rule b) :
    (rule = .arguments ∧ b = c.byte) ∨
      ∃ d, Runs (token "(") c () d ∧ Reports (elements element) (skip d) rule b :=
  (reports_named h).imp (fun h => h.2) fun h => reports_bracketed (reports_spanned h)

/-- Before an equals sign an operand blames itself alone. -/
theorem reports_application_equals (he : ReadsExpressions n element) (ho : Onward element)
    (hp : Presses n element) (hc : c.ahead.length < n + 1) {r : List Char}
    (hequals : c.ahead = '=' :: r) (h : Reports (application element) c rule b) :
    rule = .application ∧ b = c.byte := by
  have htoken : ∀ {s : String} {d : Cursor}, s.toList.head? ∈ [some '[', some '('] →
      ¬ Runs (token s) c () d := by
    intro s d hs hr
    have hahead := ahead_of_token hr
    rw [hequals] at hahead
    cases hcs : s.toList with
    | nil => simp [hcs] at hs
    | cons ch cs =>
      rw [hcs] at hahead hs
      obtain rfl := (List.cons.inj hahead).1
      simp at hs
  obtain h | ⟨h, hlt⟩ | ⟨head, d, hhead, -⟩ := reports_application he ho hp hc h
  · exact h
  · obtain ⟨d, hopen, -⟩ | ⟨d, hopen, -⟩ := reports_primary h hlt
    · exact absurd hopen (htoken (by decide))
    · exact absurd hopen (htoken (by decide))
  · obtain ⟨ts, hts, hphrase⟩ := (primary_parses he).sound hhead
    obtain ⟨t, us, rfl, ht⟩ := hphrase.first
    obtain ⟨_, hn, -⟩ := Reads.cons_iff.1 hts
    rw [hequals] at hn
    obtain rfl := next_equals hn
    cases ht

/-- With marks read, an operand blames a further mark or what stands behind the marks. -/
theorem reports_unary (h : Reports (unary element) c rule b) :
    (rule = .unary ∧ b = c.byte) ∨ ∃ ms d, Repeats (do space; mark) c ms d ∧
      (rule = .mark ∧ b = (skip d).byte ∨ Reports (application element) (skip d) rule b) := by
  refine (reports_named h).imp (fun h => h.2) fun h => ?_
  obtain h | ⟨ms, d, hms, h⟩ := reports_bind h
  · obtain ⟨ms, d, hms, h⟩ := reports_spaced h
    exact ⟨ms, d, hms, .inl (reports_mark h)⟩
  · have happlication := reports_bind_silent (fun _ => silent_pure _) (reports_item h)
    exact ⟨ms, d, repeats_of_many hms, .inr happlication⟩

/-- An operator blames its rule, or the operand behind it is blamed. -/
theorem reports_joint {other : Rule} {operator : Parser Operator} {operand : Parser Expression}
    (hb : Blames other operator)
    (hlt : ∀ o d, Runs operator c o d → c.byte < d.byte)
    (hp : ∀ o d, Runs operator c o d → (operand (skip d)).misses.From (skip d).byte)
    (h : Reports (do
      let o ← operator
      space
      let right ← operand
      return (o, right)) c rule b) :
    (rule = other ∧ b = c.byte) ∨
      ∃ o d, Runs operator c o d ∧ Reports operand (skip d) rule b := by
  obtain hop | ⟨o, d, ho, h⟩ := reports_bind h
  · obtain hf | ⟨o, d, ho⟩ := fails_or_runs operator c
    · exact .inl ⟨hb.of_fails c rule b hf hop, hb.isLocal c rule b hop⟩
    · have hle : (skip d).byte ≤ b :=
        Names.le h (from_bind_of_runs ho (from_item (from_bind (hp o d ho))))
      have hbyte := hb.isLocal c rule b hop
      have := hlt o d ho
      have := byte_skip_le d
      omega
  · exact .inr ⟨o, d, ho, reports_bind_silent (fun _ => silent_pure _) (reports_item h)⟩

/-- Operands with operators between them blame the first operand, an operator, or an operand
behind an operator. -/
theorem reports_chain {operator : Parser Operator} {operand : Parser Expression}
    (hs : Fails operand c → (operand c).misses.Settled c) {other : Rule}
    (h : Reports (chain other operator operand) c rule b) :
    Reports operand c rule b ∨ ∃ first d joints c', Runs operand c first d ∧
      Repeats (do space; do
        let o ← operator
        space
        let right ← operand
        return (o, right)) (skip d) joints c' ∧ Reports (do
        let o ← operator
        space
        let right ← operand
        return (o, right)) (skip c') rule b := by
  have hbody := reports_named_of_settled (fun hf => ?settled) h
  case settled =>
    have hfirst := fails_of_fails_bind (fun _ => space_total.bind fun _ =>
      (spaced_total _).bind fun _ => total_pure _) hf
    rw [misses_bind_of_fails hfirst]
    exact hs hfirst
  refine (reports_bind hbody).imp id fun ⟨first, d, hfirst, h⟩ => ?_
  have hspaced := reports_bind_silent (fun _ => silent_pure _) (reports_item h)
  obtain ⟨joints, c', hjoints, h⟩ := reports_spaced hspaced
  exact ⟨first, d, joints, c', hfirst, hjoints, h⟩

end DirectiveQuery.Grammar
