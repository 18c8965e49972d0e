/-
  Digits, decimal and hexadecimal. Hexadecimal digits are read in both cases and written in the
  lower one; no number is written with leading zeros.
-/
namespace DirectiveQuery.Text

/-- The value of a hexadecimal digit. -/
def hexValue? (c : Char) : Option Nat :=
  if c.isDigit then some (c.toNat - 48)
  else if 'a' ≤ c && c ≤ 'f' then some (c.toNat - 87)
  else if 'A' ≤ c && c ≤ 'F' then some (c.toNat - 55)
  else none

/-- The number that a run of digits denotes. -/
def numberOfDigits (base : Nat) (digits : List Char) : Nat :=
  digits.foldl (fun n c => base * n + (hexValue? c).getD 0) 0

/-- The number that hexadecimal digits denote, if they are nothing else. -/
def hexNumber? (digits : List Char) : Option Nat :=
  if digits.all fun c => (hexValue? c).isSome then some (numberOfDigits 16 digits) else none

/-- The hexadecimal digits of a number. -/
def hexDigits (n : Nat) : List Char := Nat.toDigits 16 n

/-- The decimal digits of a number. -/
def decimalDigits (n : Nat) : List Char := Nat.toDigits 10 n

/-- The decimal text of an integer. -/
def decimalText : Int → List Char
  | .ofNat n => decimalDigits n
  | .negSucc n => '-' :: decimalDigits (n + 1)

/-- The sign at the head of a text, negative or not, and what follows it. -/
def splitSign : List Char → Bool × List Char
  | '-' :: rest => (true, rest)
  | '+' :: rest => (false, rest)
  | text => (false, text)

/-- A minus sign where it is due. -/
def minusSign (negative : Bool) : List Char := if negative then ['-'] else []

theorem hexValue?_lt {c : Char} {n : Nat} (h : hexValue? c = some n) : n < 16 := by
  have h9 : '9'.toNat = 57 := rfl
  have hf : 'f'.toNat = 102 := rfl
  have hF : 'F'.toNat = 70 := rfl
  simp only [hexValue?, Bool.and_eq_true, decide_eq_true_eq] at h
  split at h
  · next hd =>
    obtain ⟨_, hle⟩ := Char.isDigit_iff_toNat.1 hd
    injection h with h
    omega
  · split at h
    · next ha =>
      have hle : c.toNat ≤ 'f'.toNat := UInt32.le_iff_toNat_le.1 (Char.le_def.1 ha.2)
      injection h with h
      omega
    · split at h
      · next hA =>
        have hle : c.toNat ≤ 'F'.toNat := UInt32.le_iff_toNat_le.1 (Char.le_def.1 hA.2)
        injection h with h
        omega
      · simp at h

end DirectiveQuery.Text
