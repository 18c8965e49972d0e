import DirectiveQuery.Json.Reading

/-
  Strings in JSON texts. What stands for a character is read as that character, so a string
  reads back from its text. None of the escapes written is half of a surrogate pair.
-/
namespace DirectiveQuery.Json

/-- The ways in which a string writes a character. -/
inductive Writes (c : Char) : List Char → Prop where
  | short {mark : Char} (h : shortEscape? mark = some c) : Writes c ['\\', mark]
  | control (h : c.toNat < 32) :
      Writes c ['\\', 'u', '0', '0', (c.toNat / 16).digitChar, (c.toNat % 16).digitChar]
  | plain (hquote : c ≠ '"') (hslash : c ≠ '\\') (h : ¬ c.toNat < 32) : Writes c [c]

theorem writes_escaped (c : Char) : Writes c (escaped c) := by
  unfold escaped
  iterate 7
    split
    · next h =>
      subst h
      exact .short rfl
  split
  · next h => exact .control h
  · next hquote hslash _ _ _ _ _ h => exact .plain hquote hslash h

/-- The four digits of a control character denote it. -/
theorem hexNumber?_control : ∀ n < 32,
    Text.hexNumber? ['0', '0', (n / 16).digitChar, (n % 16).digitChar] = some n := by decide

theorem ne_of_shortEscape? {mark c : Char} (h : shortEscape? mark = some c) : mark ≠ 'u' := by
  rintro rfl
  cases h

theorem stringBody?_append {c : Char} {written : List Char} (h : Writes c written)
    (rest : List Char) :
    stringBody? (written ++ rest) =
      (stringBody? rest).map fun (body, after) => (written ++ body, after) := by
  cases h with
  | @short mark h =>
    have hmark := ne_of_shortEscape? h
    simp [stringBody?, h, hmark]
  | control h => simp [stringBody?, hexNumber?_control c.toNat h]
  | plain hquote hslash h => simp [stringBody?, hslash, h]

theorem decodeBody?_append {c : Char} {written : List Char} (h : Writes c written)
    (rest : List Char) :
    decodeBody? none (written ++ rest) = (decodeBody? none rest).map (c :: ·) := by
  cases h with
  | @short mark h =>
    have hmark := ne_of_shortEscape? h
    simp [decodeBody?, h, hmark]
  | control h =>
    have hhigh : ¬ 0xD800 ≤ c.toNat := by omega
    have hlow : ¬ 0xDC00 ≤ c.toNat := by omega
    simp [decodeBody?, hexNumber?_control c.toNat h, hhigh, hlow, Char.ofNat_toNat]
  | plain hquote hslash h => simp [decodeBody?, hslash]

theorem stringBody?_flatMap (cs rest : List Char) :
    stringBody? (cs.flatMap escaped ++ '"' :: rest) = some (cs.flatMap escaped, rest) := by
  induction cs with
  | nil => rfl
  | cons c cs ih =>
    rw [List.flatMap_cons, List.append_assoc, stringBody?_append (writes_escaped c), ih]
    rfl

theorem decodeBody?_flatMap (cs : List Char) : decodeBody? none (cs.flatMap escaped) = some cs := by
  induction cs with
  | nil => rfl
  | cons c cs ih =>
    rw [List.flatMap_cons, decodeBody?_append (writes_escaped c), ih]
    rfl

/-- A string reads back from its text after the opening quote, whatever follows it. -/
theorem readString?_flatMap (strict : Bool) (text : String) (rest : List Char) :
    readString? strict (text.toList.flatMap escaped ++ '"' :: rest) = some (text, rest) := by
  unfold readString?
  simp only [stringBody?_flatMap, Option.bind_eq_bind, Option.bind_some, decodeBody?_flatMap,
    String.ofList_toList, Option.pure_def]

end DirectiveQuery.Json
