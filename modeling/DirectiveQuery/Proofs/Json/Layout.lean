import DirectiveQuery.Proofs.Json.Number
import DirectiveQuery.Proofs.Json.String

/-
  Reading JSON back. A value reads back from its text in every layout, whatever follows it, if
  its integers are of the range that the reader keeps exact (`readsBack`): by induction on the
  value, where the elements of an array and the members of an object are read one by one.
-/
namespace DirectiveQuery.Json

/-! ## Heads -/

theorem skipSpace_append {blanks rest : List Char} (hb : IsBlank blanks) :
    skipSpace (blanks ++ rest) = skipSpace rest := List.dropWhile_append_of_pos hb

theorem skipSpace_cons {c : Char} (hc : isSpace c = false) (rest : List Char) :
    skipSpace (c :: rest) = c :: rest := List.dropWhile_cons_of_neg (by rw [hc]; decide)

/-- The first character of a value is no blank and closes no bracket. -/
def StartsValue (text : List Char) : Prop :=
  ∃ c cs, text = c :: cs ∧ isSpace c = false ∧ c ≠ ']'

/-- A number starts with a minus sign or a digit. -/
def isNumberHead (c : Char) : Bool := c = '-' || c.isDigit

theorem ne_of_isNumberHead {c d : Char} (hc : isNumberHead c = true)
    (hd : isNumberHead d = false) : c ≠ d := by
  rintro rfl
  rw [hc] at hd
  cases hd

theorem isSpace_of_isNumberHead {c : Char} (hc : isNumberHead c = true) : isSpace c = false := by
  simp only [isSpace, ne_of_isNumberHead hc (d := ' ') rfl, ne_of_isNumberHead hc (d := '\t') rfl,
    ne_of_isNumberHead hc (d := '\n') rfl, ne_of_isNumberHead hc (d := '\r') rfl, decide_false,
    Bool.or_self]

/-- The text starts as a number does. -/
def StartsNumber (text : List Char) : Prop := ∃ c cs, text = c :: cs ∧ isNumberHead c = true

theorem StartsNumber.append {text : List Char} (h : StartsNumber text) (rest : List Char) :
    StartsNumber (text ++ rest) := by
  obtain ⟨c, cs, rfl, hc⟩ := h
  exact ⟨c, cs ++ rest, rfl, hc⟩

theorem StartsNumber.startsValue {text : List Char} (h : StartsNumber text) :
    StartsValue text := by
  obtain ⟨c, cs, rfl, hc⟩ := h
  exact ⟨c, cs, rfl, isSpace_of_isNumberHead hc, ne_of_isNumberHead hc rfl⟩

theorem startsNumber_minusSign (negative : Bool) {ds : List Char} (hd : IsWhole ds) :
    StartsNumber (Text.minusSign negative ++ ds) := by
  cases negative with
  | true => exact ⟨'-', ds, rfl, rfl⟩
  | false =>
    obtain ⟨c, cs, rfl⟩ := List.exists_cons_of_ne_nil hd.ne_nil
    have hc : c.isDigit := hd.digits c List.mem_cons_self
    exact ⟨c, cs, rfl, by rw [isNumberHead, hc, Bool.or_true]⟩

theorem startsNumber_decimalText : ∀ n : Int, StartsNumber (Text.decimalText n)
  | .ofNat n => startsNumber_minusSign false (isWhole_decimalDigits n)
  | .negSucc n => startsNumber_minusSign true (isWhole_decimalDigits (n + 1))

theorem startsNumber_numberText (negative : Bool) (x : Magnitude) :
    StartsNumber (numberText negative x) := by
  obtain ⟨_, htext, _, hw, -, -, -⟩ := exists_spells_numberText negative x
  rw [htext, ← List.append_assoc]
  exact (startsNumber_minusSign negative hw).append _

theorem readValue?_number (strict : Bool) (fuel : Nat) {text : List Char} (h : StartsNumber text) :
    readValue? strict (fuel + 1) text = readNumber? strict text := by
  obtain ⟨c, cs, rfl, hc⟩ := h
  have hn : c ≠ 'n' := ne_of_isNumberHead hc rfl
  have ht : c ≠ 't' := ne_of_isNumberHead hc rfl
  have hf : c ≠ 'f' := ne_of_isNumberHead hc rfl
  have hquote : c ≠ '"' := ne_of_isNumberHead hc rfl
  have hbracket : c ≠ '[' := ne_of_isNumberHead hc rfl
  have hbrace : c ≠ '\x7b' := ne_of_isNumberHead hc rfl
  rw [readValue?, skipSpace_cons (isSpace_of_isNumberHead hc)]
  split
  · next heq => exact absurd (List.cons.inj heq).1 hn
  · next heq => exact absurd (List.cons.inj heq).1 ht
  · next heq => exact absurd (List.cons.inj heq).1 hf
  · next heq => exact absurd (List.cons.inj heq).1 hquote
  · next heq => exact absurd (List.cons.inj heq).1 hbracket
  · next heq => exact absurd (List.cons.inj heq).1 hbrace
  · rfl

/-! ## Reading back -/

/-- All integers in a value are of the range that the reader keeps exact. -/
inductive Exact : Json → Prop where
  | null : Exact null
  | boolean (b : Bool) : Exact (boolean b)
  | integer {n : Int} (h : isExact n) : Exact (integer n)
  | number (negative : Bool) (x : Magnitude) : Exact (number negative x)
  | string (s : String) : Exact (string s)
  | array {es : List Json} (h : ∀ e ∈ es, Exact e) : Exact (array es)
  | object {ms : List (String × Json)} (h : ∀ m ∈ ms, Exact m.2) : Exact (object ms)

variable (layout : Layout) (strict : Bool)

theorem startsValue_text (depth : Nat) (v : Json) : StartsValue (layout.text depth v) := by
  cases v with
  | null => exact ⟨_, _, rfl, rfl, by decide⟩
  | boolean b => cases b <;> exact ⟨_, _, rfl, rfl, by decide⟩
  | integer n => exact (startsNumber_decimalText n).startsValue
  | number negative x => exact (startsNumber_numberText negative x).startsValue
  | string s => exact ⟨_, _, rfl, rfl, by decide⟩
  | array es => cases es <;> exact ⟨_, _, rfl, rfl, by decide⟩
  | object ms => cases ms <;> exact ⟨_, _, rfl, rfl, by decide⟩

/-- A blank ends a number. -/
theorem noNumber_cons_of_isSpace {b : Char} (hb : isSpace b = true) (rest : List Char) :
    NoNumber (b :: rest) := by
  intro d hd
  obtain rfl := Option.some.inj hd
  simp only [isSpace, Bool.or_eq_true, decide_eq_true_eq] at hb
  rcases hb with ((rfl | rfl) | rfl) | rfl <;> decide

theorem noNumber_of_isBlank {blanks : List Char} (hb : IsBlank blanks) : NoNumber blanks := by
  cases blanks with
  | nil => exact nofun
  | cons b blanks => exact noNumber_cons_of_isSpace (hb b List.mem_cons_self) blanks

/-- A closing bracket or a comma, blanks before it included, ends a number. -/
theorem noNumber_blanks {blanks rest : List Char} {c : Char} (hb : IsBlank blanks)
    (hc : c = ',' ∨ c = ']' ∨ c = '\x7d') : NoNumber (blanks ++ c :: rest) := by
  cases blanks with
  | nil =>
    intro d hd
    obtain rfl := Option.some.inj hd
    rcases hc with rfl | rfl | rfl <;> decide
  | cons b blanks => exact noNumber_cons_of_isSpace (hb b List.mem_cons_self) _

theorem noNumber_elements (depth : Nat) (es : List Json) (rest : List Char) :
    NoNumber (layout.elements depth es ++ rest) := by
  cases es with
  | nil =>
    rw [Layout.elements, List.append_assoc]
    exact noNumber_blanks (layout.gap_blank depth) (.inr (.inl rfl))
  | cons e es => exact noNumber_blanks isBlank_nil (.inl rfl)

theorem noNumber_members (depth : Nat) (ms : List (String × Json)) (rest : List Char) :
    NoNumber (layout.members depth ms ++ rest) := by
  cases ms with
  | nil =>
    rw [Layout.members, List.append_assoc]
    exact noNumber_blanks (layout.gap_blank depth) (.inr (.inr rfl))
  | cons m ms => exact noNumber_blanks isBlank_nil (.inl rfl)

/-- The value reads back from its text at every nesting depth, whatever follows it. Twice the
length of the text bounds the recursion. -/
def ReadsBack (v : Json) : Prop :=
  ∀ (depth fuel : Nat) (rest : List Char), 2 * (layout.text depth v).length ≤ fuel →
    NoNumber rest → readValue? strict fuel (layout.text depth v ++ rest) = some (v, rest)

variable {layout strict}

theorem readValue?_blanks {fuel : Nat} {blanks text : List Char} (hb : IsBlank blanks) :
    readValue? strict fuel (blanks ++ text) = readValue? strict fuel text := by
  cases fuel with
  | zero => rfl
  | succ fuel => rw [readValue?, readValue?, skipSpace_append hb]

theorem skipSpace_closing {depth : Nat} {c : Char} (hc : isSpace c = false) (rest : List Char) :
    skipSpace (layout.gap depth ++ [c] ++ rest) = c :: rest := by
  rw [List.append_assoc, skipSpace_append (layout.gap_blank depth)]
  exact skipSpace_cons hc rest

theorem skipSpace_stringText (k : String) (rest : List Char) :
    skipSpace (stringText k ++ rest) = '"' :: (k.toList.flatMap escaped ++ '"' :: rest) := by
  rw [stringText, List.append_assoc]
  exact skipSpace_cons rfl _

/-- The elements of an array read back one by one. -/
theorem readElements?_elements {depth : Nat} (rest : List Char) {e : Json} {es : List Json}
    (he : ReadsBack layout strict e) (hes : ∀ e ∈ es, ReadsBack layout strict e) {fuel : Nat}
    (hf : 2 * ((layout.text (depth + 1) e).length + (layout.elements depth es).length) < fuel) :
    readElements? strict fuel (layout.gap (depth + 1) ++ (layout.text (depth + 1) e ++
      (layout.elements depth es ++ rest))) = some (e :: es, rest) := by
  induction es generalizing e fuel with
  | nil =>
    obtain ⟨fuel, rfl⟩ : ∃ k, fuel = k + 1 := ⟨fuel - 1, by omega⟩
    rw [readElements?, readValue?_blanks (layout.gap_blank _),
      he _ _ _ (by omega) (noNumber_elements layout depth [] rest)]
    simp only [Option.bind_eq_bind, Option.bind_some, Layout.elements,
      skipSpace_closing (c := ']') rfl, Option.pure_def]
  | cons next es ih =>
    obtain ⟨fuel, rfl⟩ : ∃ k, fuel = k + 1 := ⟨fuel - 1, by omega⟩
    obtain ⟨hnext, hes⟩ := List.forall_mem_cons.1 hes
    rw [readElements?, readValue?_blanks (layout.gap_blank _),
      he _ _ _ (by omega) (noNumber_elements layout depth (next :: es) rest)]
    simp only [Layout.elements, List.length_cons, List.length_append] at hf
    have hmore : 2 * ((layout.text (depth + 1) next).length +
        (layout.elements depth es).length) < fuel := by omega
    simp only [Option.bind_eq_bind, Option.bind_some, Layout.elements, List.cons_append,
      skipSpace_cons (c := ',') rfl, List.append_assoc, ih hnext hes hmore, Option.pure_def]

/-- The members of an object read back one by one. -/
theorem readMembers?_members {depth : Nat} (rest : List Char) (k : String) {v : Json}
    {ms : List (String × Json)} (hv : ReadsBack layout strict v)
    (hms : ∀ m ∈ ms, ReadsBack layout strict m.2) {fuel : Nat}
    (hf : 2 * ((layout.text (depth + 1) v).length + (layout.members depth ms).length) < fuel) :
    readMembers? strict fuel (layout.gap (depth + 1) ++ (stringText k ++ ':' :: (layout.colon ++
      (layout.text (depth + 1) v ++ (layout.members depth ms ++ rest))))) =
        some ((k, v) :: ms, rest) := by
  induction ms generalizing k v fuel with
  | nil =>
    obtain ⟨fuel, rfl⟩ : ∃ k, fuel = k + 1 := ⟨fuel - 1, by omega⟩
    have hvalue := hv (depth + 1) fuel (layout.members depth [] ++ rest) (by omega)
      (noNumber_members layout depth [] rest)
    rw [readMembers?, skipSpace_append (layout.gap_blank _), skipSpace_stringText]
    simp only [readString?_flatMap, Option.bind_eq_bind, Option.bind_some,
      skipSpace_cons (c := ':') rfl, readValue?_blanks layout.colon_blank, hvalue]
    simp only [Layout.members, skipSpace_closing (c := '\x7d') rfl, Option.pure_def]
  | cons next ms ih =>
    obtain ⟨fuel, rfl⟩ : ∃ k, fuel = k + 1 := ⟨fuel - 1, by omega⟩
    obtain ⟨hnext, hms⟩ := List.forall_mem_cons.1 hms
    have hvalue := hv (depth + 1) fuel (layout.members depth (next :: ms) ++ rest) (by omega)
      (noNumber_members layout depth (next :: ms) rest)
    rw [readMembers?, skipSpace_append (layout.gap_blank _), skipSpace_stringText]
    simp only [readString?_flatMap, Option.bind_eq_bind, Option.bind_some,
      skipSpace_cons (c := ':') rfl, readValue?_blanks layout.colon_blank, hvalue]
    simp only [Layout.members, List.length_cons, List.length_append] at hf
    have hmore : 2 * ((layout.text (depth + 1) next.2).length +
        (layout.members depth ms).length) < fuel := by omega
    simp only [Layout.members, List.cons_append, skipSpace_cons (c := ',') rfl, List.append_assoc,
      ih next.1 hnext hms hmore, Option.bind_some, Option.pure_def]

/-- Every text has a character, so there is a step to take. -/
theorem readsBack_of_step {v : Json} (h : ∀ (depth fuel : Nat) (rest : List Char),
    2 * (layout.text depth v).length ≤ fuel + 1 → NoNumber rest →
      readValue? strict (fuel + 1) (layout.text depth v ++ rest) = some (v, rest)) :
    ReadsBack layout strict v := by
  intro depth fuel rest hf hr
  obtain ⟨c, cs, htext, -⟩ := startsValue_text layout depth v
  have hlength : (layout.text depth v).length = cs.length + 1 := by rw [htext, List.length_cons]
  obtain ⟨fuel, rfl⟩ : ∃ k, fuel = k + 1 := ⟨fuel - 1, by omega⟩
  exact h depth fuel rest hf hr

theorem readsBack_array {es : List Json} (h : ∀ e ∈ es, ReadsBack layout strict e) :
    ReadsBack layout strict (array es) := by
  refine readsBack_of_step fun depth fuel rest hf hr => ?_
  cases es with
  | nil => rfl
  | cons e es =>
    obtain ⟨he, hes⟩ := List.forall_mem_cons.1 h
    simp only [Layout.text, List.length_cons, List.length_append] at hf
    have hfuel : 2 * ((layout.text (depth + 1) e).length +
        (layout.elements depth es).length) < fuel := by omega
    have helements := readElements?_elements rest he hes hfuel
    -- The reader looks for a closing bracket first; no value starts with one.
    obtain ⟨c, cs, htext, hspace, hclosing⟩ := startsValue_text layout (depth + 1) e
    have hskip : skipSpace (layout.gap (depth + 1) ++ (layout.text (depth + 1) e ++
        (layout.elements depth es ++ rest))) = c :: (cs ++ (layout.elements depth es ++ rest)) := by
      rw [skipSpace_append (layout.gap_blank _), htext]
      exact skipSpace_cons hspace _
    simp only [Layout.text, List.cons_append, List.append_assoc, readValue?,
      skipSpace_cons (c := '[') rfl, hskip, helements, Option.map_some]
    split
    · next heq => exact absurd (List.cons.inj heq).1 hclosing
    · rfl

theorem readsBack_object {ms : List (String × Json)} (h : ∀ m ∈ ms, ReadsBack layout strict m.2) :
    ReadsBack layout strict (object ms) := by
  refine readsBack_of_step fun depth fuel rest hf hr => ?_
  cases ms with
  | nil => rfl
  | cons m ms =>
    obtain ⟨hm, hms⟩ := List.forall_mem_cons.1 h
    simp only [Layout.text, List.length_cons, List.length_append] at hf
    have hfuel : 2 * ((layout.text (depth + 1) m.2).length +
        (layout.members depth ms).length) < fuel := by omega
    have hmembers := readMembers?_members rest m.1 hm hms hfuel
    simp only [Layout.text, List.cons_append, List.append_assoc, readValue?,
      skipSpace_cons (c := '\x7b') rfl, hmembers, Option.map_some]
    rw [skipSpace_append (layout.gap_blank _), skipSpace_stringText]
    rfl

/-- Every value with exact integers reads back. -/
theorem readsBack {v : Json} (h : Exact v) : ReadsBack layout strict v := by
  induction h with
  | null => exact readsBack_of_step fun _ _ _ _ _ => rfl
  | boolean b => cases b <;> exact readsBack_of_step fun _ _ _ _ _ => rfl
  | integer h =>
    refine readsBack_of_step fun depth fuel rest hf hr => ?_
    rw [Layout.text, readValue?_number _ _ ((startsNumber_decimalText _).append rest)]
    exact readNumber?_decimalText strict h hr
  | number negative x =>
    refine readsBack_of_step fun depth fuel rest hf hr => ?_
    rw [Layout.text, readValue?_number _ _ ((startsNumber_numberText negative x).append rest)]
    exact readNumber?_numberText strict negative x hr
  | string s =>
    refine readsBack_of_step fun depth fuel rest hf hr => ?_
    simp only [Layout.text, readValue?, skipSpace_stringText, readString?_flatMap,
      Option.map_some]
  | array _ ih => exact readsBack_array ih
  | object _ ih => exact readsBack_object ih

/-- A value with exact integers is what its text is read as, in every layout, with any blanks
behind it. -/
theorem ofText?_text_append {v : Json} (h : Exact v) (depth : Nat) {blanks : List Char}
    (hb : IsBlank blanks) : ofText? (String.ofList (layout.text depth v ++ blanks)) = some v := by
  have hback : ReadsBack layout true v := readsBack h
  have hfuel : 2 * (layout.text depth v).length ≤ fuelFor (layout.text depth v ++ blanks) := by
    rw [fuelFor, List.length_append]
    omega
  have hskip : skipSpace (blanks ++ []) = [] := skipSpace_append hb
  rw [List.append_nil] at hskip
  rw [ofText?, String.toList_ofList, readPrefix?,
    hback depth _ blanks hfuel (noNumber_of_isBlank hb)]
  dsimp only
  rw [hskip]
  rfl

theorem ofText?_text {v : Json} (h : Exact v) (depth : Nat) :
    ofText? (String.ofList (layout.text depth v)) = some v := by
  have hread : ofText? (String.ofList (layout.text depth v ++ [])) = some v :=
    ofText?_text_append h depth isBlank_nil
  rwa [List.append_nil] at hread

theorem ofText?_compact {v : Json} (h : Exact v) : ofText? v.compact = some v := by
  rw [compact]
  exact ofText?_text h 0

theorem ofText?_indented {v : Json} (h : Exact v) : ofText? v.indented = some v := by
  rw [indented]
  exact ofText?_text h 0

/-- A line feed behind the text does no harm. -/
theorem ofText?_indented_line {v : Json} (h : Exact v) :
    ofText? (v.indented ++ "\n") = some v := by
  have hb : IsBlank ['\n'] := List.forall_mem_singleton.2 rfl
  rw [indented, ← ofText?_text_append h 0 hb, String.ofList_append]

end DirectiveQuery.Json
