import DirectiveQuery.Proofs.Compile.Compiler
import DirectiveQuery.Proofs.Binary64.Whole
import DirectiveQuery.Proofs.Compile.Count
import DirectiveQuery.Proofs.Compile.Positions
import DirectiveQuery.Proofs.Filter.Duality
import DirectiveQuery.Proofs.Grammar.Cutting
import DirectiveQuery.Proofs.Grammar.Unambiguous
import DirectiveQuery.Proofs.Printing.Word

/-
  Natural numbers in queries. A numeral stands for the number of the format that is nearest to it,
  and what a query asks for is what that number gives back: a count is the number that its
  shortest decimal is, and a value is the whole number that it is. Below 2^53 both are the number
  that was written, and from there on they need not be. In quotes a count never becomes such a
  number, and every count of 64 bits is kept.
-/
namespace DirectiveQuery

open Grammar Token

/-! ## Texts of one call -/

/-- The call of a directive with one argument, as it is written. -/
def Directive.callText (d : Directive) (argument : List Char) : String :=
  String.ofList (d.name.toList ++ '(' :: (argument ++ [')']))

theorem Directive.reads_callText {argument : List Char} {ts : List Token}
    (h : Reads argument ts []) (d : Directive) : Reads (d.callText argument).toList
      (.identifier d.name :: .openParen :: (ts ++ [.closeParen])) [] := by
  have hclose : Reads [')'] [.closeParen] [] :=
    Spelling.reads (.fixed (show (")", .closeParen) ∈ fixed by decide))
  have hinside : Reads (argument ++ [')']) (ts ++ [.closeParen]) [] :=
    h.continued (by decide) hclose
  have hopen : Reads ('(' :: (argument ++ [')'])) (.openParen :: (ts ++ [.closeParen])) [] :=
    reads_symbol (s := "(") (by decide) (by decide) (by decide) hinside
  rw [callText, String.toList_ofList]
  exact (Word.name d).spelling.reads.continued (by decide) hopen

theorem Directive.derives_callText {argument : List Char} {ts : List Token} {e : Expression}
    (hr : Reads argument ts []) (hp : Phrase .disjunction ts e) (d : Directive) :
    Derives (d.callText argument) (.call (.identifier d.name .nowhere) [e] .nowhere) := by
  have hcallee : Phrase .application [.identifier d.name] (.identifier d.name .nowhere) :=
    (Phrase.identifier d.name).loosen (by decide)
  have hcall := Phrase.call hcallee (.listing (.one hp))
  exact ⟨_, d.reads_callText hr, .single (.one (hcall.loosen (by decide)))⟩

theorem Directive.isAllBlank_callText (d : Directive) (argument : List Char) :
    Text.isAllBlank (d.callText argument).toList = false := by
  obtain ⟨ch, hch, hblank⟩ : ∃ ch ∈ d.name.toList, Text.isBlank ch = false := by
    cases d <;> exact ⟨_, List.mem_cons_self, by decide⟩
  rw [callText, String.toList_ofList]
  exact List.all_eq_false.2 ⟨ch, List.mem_append_left _ hch, by rw [hblank]; decide⟩

/-- Such a text is compiled as the directive says, but for the position in an error. -/
theorem Descriptor.ofQuery_callText {argument : List Char} {ts : List Token} {e : Expression}
    (hr : Reads argument ts []) (hp : Phrase .disjunction ts e) (d : Directive)
    (options : CompileOptions) :
    (ofQuery options (d.callText argument)).mapError (CompileError.relocate fun _ => 0) =
      Invocation.descriptor options.integers ⟨d, [e], 0⟩ := by
  obtain ⟨tree, htree, hbare⟩ := Expression.exists_parse_iff.2 (d.derives_callText hr hp)
  have hrelocated : Relocated (fun _ => 0) tree tree.bare :=
    relocated_mapSpans (fun _ => rfl) tree
  have h := ofExpression_relocated options hrelocated
  rw [hbare, ofExpression_call] at h
  rw [ofQuery_eq, d.isAllBlank_callText, if_neg Bool.false_ne_true, Expression.ofQuery, htree]
  exact h.symm

/-! ## Digits, in quotes and without -/

section

variable {ds : List Char}

/-- Digits in single quotes. -/
def quotedDigits (ds : List Char) : List Char := '\x27' :: (ds ++ ['\x27'])

theorem isBody_of_isDigit {quote : Char} (hq : isQuote quote) (hds : ∀ c ∈ ds, c.isDigit) :
    IsBody quote ds ∧ Lexeme.unescape ds = ds := by
  have hquote : quote.isDigit = false := by
    simp only [isQuote, Bool.or_eq_true, decide_eq_true_eq] at hq
    rcases hq with rfl | rfl <;> decide
  have hback : '\\'.isDigit = false := by decide
  induction ds with
  | nil => exact ⟨.nil, rfl⟩
  | cons c cs ih =>
    obtain ⟨hc, hcs⟩ := List.forall_mem_cons.1 hds
    obtain ⟨hbody, hplain⟩ := ih hcs
    have hne : c ≠ '\\' := by
      rintro rfl
      rw [hc] at hback
      cases hback
    refine ⟨.plain ?_ hne hbody, by rw [Lexeme.unescape_plain hne, hplain]⟩
    rintro rfl
    rw [hc] at hquote
    cases hquote

theorem spelling_quotedDigits (hds : ∀ c ∈ ds, c.isDigit) :
    Spelling (quotedDigits ds) (.literal (.string (String.ofList ds))) := by
  obtain ⟨hbody, hplain⟩ := @isBody_of_isDigit ds '\x27' (by decide) hds
  have h := @Spelling.string '\x27' ds (by decide) hbody
  rwa [hplain] at h

end

/-! ## Counts -/

/-- The descriptor with a count for one directive. -/
def Descriptor.counted : Directive → Nat → Descriptor
  | .limit, n => { limit := some n }
  | .offset, n => { offset := some n }
  | _, _ => empty

theorem Invocation.descriptor_count {d : Directive} (hd : d = .limit ∨ d = .offset)
    (mode : IntegerMode) (es : Arguments) (n : Nat) : descriptor mode ⟨d, es, n⟩ =
      (es.count d mode).map (Descriptor.counted d) := by
  rcases hd with rfl | rfl <;> rfl

/-- A literal as the only argument of such a directive: what is read from its text. -/
theorem Descriptor.ofQuery_count {argument text : List Char} {value : Literal}
    (hs : Spelling argument (.literal value))
    (htext : (Expression.literal value .nowhere).countText? = some text) {d : Directive}
    (hd : d = .limit ∨ d = .offset) (options : CompileOptions) :
    (∀ n, readCount? options.integers text = some n →
      ofQuery options (d.callText argument) = .ok (counted d n)) ∧
    (readCount? options.integers text = none →
      ∃ n, ofQuery options (d.callText argument) = .error (.invalidIntegerArgument d n)) := by
  have hphrase : Phrase .disjunction [.literal value] (.literal value .nowhere) :=
    (Phrase.literal value).loosen (by decide)
  have h := ofQuery_callText hs.reads hphrase d options
  rw [Invocation.descriptor_count hd] at h
  constructor
  · intro n hn
    rw [Arguments.count_eq_ok.2 ⟨_, text, rfl, htext, hn⟩] at h
    exact except_mapError_eq_ok.1 h
  · intro hnone
    have hcount : Arguments.count d options.integers [.literal value .nowhere] =
        .error (.invalidIntegerArgument d 0) := by
      simp only [Arguments.count, htext, Option.bind_some, hnone]
      rfl
    rw [hcount] at h
    obtain ⟨err, herr, hrelocate⟩ := except_mapError_eq_error.1 h
    cases err with
    | invalidIntegerArgument x n =>
      cases hrelocate
      exact ⟨n, herr⟩
    | _ => cases hrelocate

/-! ## Values -/

/-- The descriptor of one comparison of a field with a value. -/
def Descriptor.comparing (field : String) (v : Value) : Descriptor where
  filter := some (.leaf ⟨field, .equal, .scalar v⟩)
  filterFields := some [field]

/-- A comparison of a field for equality, as it is written. -/
def comparisonText (field : String) (argument : List Char) : List Char :=
  field.toList ++ ' ' :: ("==".toList ++ ' ' :: argument)

/-- A value behind a field and an equals sign, with its phrase. -/
theorem Descriptor.ofQuery_comparing {field : String} {argument : List Char} {ts : List Token}
    {e : Expression} {v : Value} (hf : Spelling field.toList (.identifier field))
    (hr : Reads argument ts []) (hp : Phrase .unary ts e) (he : ∀ es s, e ≠ .array es s)
    (hv : Value.ofExpression? e = some v) (options : CompileOptions) :
    ofQuery options (Directive.filter.callText (comparisonText field argument)) =
      .ok (comparing field v) := by
  have hreads : Reads (comparisonText field argument)
      ([.identifier field] ++ .operator (.comparison .equal) :: ts) [] :=
    (Word.mk _ _ hf).reads_before_space
      ((Word.symbol "==" (.operator (.comparison .equal)) (by decide)).reads_before_space hr)
  have hfield : Phrase .equality [.identifier field] (.identifier field .nowhere) :=
    (Phrase.identifier field).loosen (by decide)
  have hequal := Phrase.joined (.comparison .equal) rfl hfield (hp.loosen (by decide))
  have h := ofQuery_callText hreads (hequal.loosen (by decide)) .filter options
  have hoperand : e.operand .equal = .ok (.scalar v) :=
    (Expression.operand_eq_ok_of_scalar he).2 ⟨rfl, v, hv, rfl⟩
  have hfilter : Arguments.filter [.binary (.identifier field .nowhere) .equal e .nowhere] =
      .ok (.leaf ⟨field, .equal, .scalar v⟩) := by
    rw [Arguments.filter_singleton, Expression.condition_binary, if_neg Bool.false_ne_true,
      Expression.comparison]
    dsimp only [Expression.fieldName?]
    rw [hoperand]
    rfl
  rw [Invocation.descriptor_filter] at h
  exact except_mapError_eq_ok.1 (h.trans (except_map_eq_ok.2 ⟨_, hfilter, rfl⟩))

/-! ## Natural numbers -/

section

variable {ds : List Char} {x : Magnitude} {v : Nat}

theorem spelling_of_ofDecimal? (hne : ds ≠ []) (hds : ∀ c ∈ ds, c.isDigit)
    (hx : Magnitude.ofDecimal? (Text.numberOfDigits 10 ds) 0 = some x) :
    Spelling ds (.literal (.number (.finite false x))) := by
  have h := spelling_of_isDigits hne hds
  rwa [Binary64.ofDecimal, hx] at h

/-- A count without quotes is the number that the shortest decimal is, if that has 64 bits. -/
theorem Descriptor.ofQuery_bareCount (hne : ds ≠ []) (hds : ∀ c ∈ ds, c.isDigit)
    (hlt : Text.numberOfDigits 10 ds < 2 ^ 64)
    (hx : Magnitude.ofDecimal? (Text.numberOfDigits 10 ds) 0 = some x) {d : Directive}
    (hd : d = .limit ∨ d = .offset) (options : CompileOptions) :
    (x.written < 2 ^ 64 → ofQuery options (d.callText ds) = .ok (counted d x.written)) ∧
    (2 ^ 64 ≤ x.written →
      ∃ n, ofQuery options (d.callText ds) = .error (.invalidIntegerArgument d n)) := by
  obtain ⟨v, hv⟩ := Magnitude.exists_toNat?_of_ofDecimal? hx
  obtain ⟨htne, htds, htvalue⟩ := Binary64.text_count hv (Magnitude.written_lt hlt hx)
  have hread := readCount?_of_isDigit options.integers htne htds
  rw [htvalue] at hread
  obtain ⟨hkept, hrefused⟩ :=
    ofQuery_count (spelling_of_ofDecimal? hne hds hx) rfl hd options
  refine ⟨fun h => hkept _ ?_, fun h => hrefused ?_⟩
  · rw [hread, if_pos h]
  · rw [hread, if_neg (Nat.not_lt.2 h)]

/-- A count in quotes is the number that its digits denote. -/
theorem Descriptor.ofQuery_quotedCount (hne : ds ≠ []) (hds : ∀ c ∈ ds, c.isDigit)
    (hlt : Text.numberOfDigits 10 ds < 2 ^ 64) {d : Directive} (hd : d = .limit ∨ d = .offset)
    (options : CompileOptions) : ofQuery options (d.callText (quotedDigits ds)) =
      .ok (counted d (Text.numberOfDigits 10 ds)) := by
  refine (ofQuery_count (spelling_quotedDigits hds) rfl hd options).1 _ ?_
  rw [String.toList_ofList, readCount?_of_isDigit _ hne hds, if_pos hlt]

theorem Value.ofNumber_whole (hv : x.toNat? = some v) :
    (v < 2 ^ 63 → ofNumber (.finite false x) = integer v) ∧
    (2 ^ 63 ≤ v → ofNumber (.finite false x) = float (.finite false x)) ∧
    (v ≤ 2 ^ 63 → ofNumber (.finite true x) = integer (-v)) := by
  have hplus : (Binary64.finite false x).toInt? = some (v : Int) := by
    rw [Binary64.toInt?, hv]
    rfl
  have hminus : (Binary64.finite true x).toInt? = some (-v : Int) := by
    rw [Binary64.toInt?, hv]
    rfl
  unfold ofNumber
  rw [hplus, hminus]
  exact ⟨fun h => if_pos (isWord_iff.2 (by omega)),
    fun h => if_neg fun hword => by have := isWord_iff.1 hword; omega,
    fun h => if_pos (isWord_iff.2 (by omega))⟩

/-- The digits of a natural number, and a minus sign before them, as a value. -/
theorem Descriptor.ofQuery_natural_comparing {field : String}
    (hf : Spelling field.toList (.identifier field)) (hne : ds ≠ []) (hds : ∀ c ∈ ds, c.isDigit)
    (hx : Magnitude.ofDecimal? (Text.numberOfDigits 10 ds) 0 = some x)
    (options : CompileOptions) :
    ofQuery options (Directive.filter.callText (comparisonText field ds)) =
        .ok (comparing field (.ofNumber (.finite false x))) ∧
      ofQuery options (Directive.filter.callText (comparisonText field ('-' :: ds))) =
        .ok (comparing field (.ofNumber (.finite true x))) := by
  have hs := spelling_of_ofDecimal? hne hds hx
  have hp := Phrase.literal (.number (.finite false x))
  have hminus : Reads ('-' :: ds) [.mark .minus, .literal (.number (.finite false x))] [] :=
    reads_symbol (s := "-") (by decide) (by decide) (by decide) hs.reads
  exact ⟨ofQuery_comparing hf hs.reads (hp.loosen (by decide)) nofun rfl options,
    ofQuery_comparing hf hminus (.marked .minus (hp.loosen (by decide))) nofun rfl options⟩

end

/-- What becomes of a natural number in a query, whatever zeros are written before it. It is read
as the nearest magnitude, which is a whole number, and whose shortest decimal need not be that
number. Without quotes a count is that decimal, or is refused; in quotes it is what is written.
A value is the number of the magnitude, as an integer if that is a number of 64 bits with a sign.
Below 2^53 all of these are the number that is written; from there on a value is that number
exactly if it has 53 binary digits at most, behind which only zeros stand. -/
theorem Descriptor.ofQuery_natural {ds : List Char} (hne : ds ≠ []) (hds : ∀ c ∈ ds, c.isDigit)
    {n : Nat} (hn : Text.numberOfDigits 10 ds = n) (hlt : n < 2 ^ 64) :
    ∃ x v, Magnitude.ofDecimal? n 0 = some x ∧ x.toNat? = some v ∧
      Magnitude.ofDecimal? x.written 0 = some x ∧ (n < 2 ^ 53 → x.written = n ∧ v = n) ∧
      (v = n ↔ ∃ m e, m < 2 ^ 53 ∧ n = m * 2 ^ e) ∧
      (∀ options d, d = .limit ∨ d = .offset →
        ofQuery options (d.callText (quotedDigits ds)) = .ok (counted d n) ∧
        (x.written < 2 ^ 64 → ofQuery options (d.callText ds) = .ok (counted d x.written)) ∧
        (2 ^ 64 ≤ x.written →
          ∃ i, ofQuery options (d.callText ds) = .error (.invalidIntegerArgument d i))) ∧
      (n < 2 ^ 63 → ∀ options field, Spelling field.toList (.identifier field) →
        (v < 2 ^ 63 → ofQuery options (Directive.filter.callText (comparisonText field ds)) =
          .ok (comparing field (.integer v))) ∧
        (2 ^ 63 ≤ v → ofQuery options (Directive.filter.callText (comparisonText field ds)) =
          .ok (comparing field (.float (.finite false x)))) ∧
        ofQuery options (Directive.filter.callText (comparisonText field ('-' :: ds))) =
          .ok (comparing field (.integer (-v)))) := by
  subst hn
  have hsmall : Text.numberOfDigits 10 ds < Magnitude.overflow := by
    refine Nat.lt_of_lt_of_le hlt (Nat.le_trans ?_ Magnitude.two_pow_le_overflow)
    exact Nat.pow_le_pow_right (by decide) (by decide)
  obtain ⟨x, hx⟩ : ∃ x, Magnitude.ofDecimal? (Text.numberOfDigits 10 ds) 0 = some x := by
    rw [← Option.isSome_iff_exists, ← Option.ne_none_iff_isSome, Ne,
      Magnitude.ofDecimal?_eq_none_iff, zpow_zero, mul_one, not_le]
    exact_mod_cast hsmall
  obtain ⟨v, hv⟩ := Magnitude.exists_toNat?_of_ofDecimal? hx
  refine ⟨x, v, hx, hv, Magnitude.ofDecimal?_written hv, fun h => ?_, ?_, fun options d hd =>
    ⟨ofQuery_quotedCount hne hds hlt hd options, ofQuery_bareCount hne hds hlt hx hd options⟩,
    fun hword options field hf => ?_⟩
  · obtain ⟨y, hy, hexact⟩ := Magnitude.ofDecimal?_exact (Nat.le_of_lt h)
    obtain rfl := Option.some.inj (hx.symm.trans hy)
    obtain rfl := Option.some.inj (hv.symm.trans hexact)
    exact ⟨Magnitude.written_eq hv h, rfl⟩
  · rw [← Magnitude.toNat?_eq_self_iff hlt hx, hv, Option.some.injEq]
  · obtain ⟨hplain, hminus⟩ := ofQuery_natural_comparing hf hne hds hx options
    obtain ⟨hinteger, hfloat, hnegative⟩ := Value.ofNumber_whole hv
    rw [hplain, hminus]
    exact ⟨fun h => by rw [hinteger h], fun h => by rw [hfloat h],
      by rw [hnegative (Magnitude.toNat?_le_two_pow hx hv hword)]⟩

theorem Descriptor.ofQuery_natural_ten : (∀ c ∈ ['1', '0'], c.isDigit) ∧
    Text.numberOfDigits 10 ['1', '0'] = 10 ∧ 10 < 2 ^ 53 ∧
    ∀ options, ofQuery options "limit(10)" = .ok { limit := some 10 } ∧
      ofQuery options "limit('10')" = .ok { limit := some 10 } ∧
      ofQuery options "where(f == 10)" = .ok (comparing "f" (.integer 10)) ∧
      ofQuery options "where(f == -10)" = .ok (comparing "f" (.integer (-10))) := by
  have hds : ∀ c ∈ ['1', '0'], c.isDigit := List.all_eq_true.1 (by decide)
  have hn : Text.numberOfDigits 10 ['1', '0'] = 10 := by decide
  refine ⟨hds, hn, by decide, fun options => ?_⟩
  obtain ⟨x, v, -, -, -, hexact, -, hcount, hvalue⟩ := ofQuery_natural (by decide) hds hn (by decide)
  obtain ⟨hwritten, rfl⟩ := hexact (by decide)
  obtain ⟨hquoted, hbare, -⟩ := hcount options .limit (.inl rfl)
  have hf : Spelling "f".toList (.identifier "f") :=
    @Spelling.identifier 'f' [] (by decide) (by simp) (by decide)
  obtain ⟨hplain, -, hminus⟩ := hvalue (by decide) options "f" hf
  rw [hwritten] at hbare
  exact ⟨hbare (by decide), hquoted, hplain (by decide), hminus⟩

/-- The first natural number that is altered, where it is no text in quotes. -/
theorem Descriptor.ofQuery_alters_natural :
    (ofQuery {} "limit(9007199254740993)").toOption.map limit = some (some 9007199254740992) ∧
      (ofQuery {} "limit('9007199254740993')").toOption.map limit =
        some (some 9007199254740993) ∧
      ((ofQuery {} "where(f == 9007199254740993)").toOption.bind filter).map Filter.leaves =
        some [⟨"f", .equal, .scalar (.integer 9007199254740992)⟩] := by
  decide +kernel

end DirectiveQuery
