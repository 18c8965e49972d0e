import DirectiveQuery.Text.Digits
import DirectiveQuery.Text.Printed

/-
  Quoted texts, as diagnostics show them: double quotes around the text, a backslash before
  each double quote and backslash, short escapes for line feed, carriage return, tab and the
  null character, and the code point in braces for every other character that would not show.
-/
namespace DirectiveQuery.Text

/-- What stands for one character between the quotes. -/
def quotedChar (c : Char) : List Char :=
  if c = '"' then ['\\', '"']
  else if c = '\\' then ['\\', '\\']
  else if c = '\n' then ['\\', 'n']
  else if c = '\r' then ['\\', 'r']
  else if c = '\t' then ['\\', 't']
  else if c.toNat = 0 then ['\\', '0']
  else if isShown c then [c]
  else ['\\', 'u', '\x7b'] ++ hexDigits c.toNat ++ ['\x7d']

/-- The text in double quotes, with escapes. -/
def quoted (text : String) : String :=
  String.ofList ('"' :: text.toList.flatMap quotedChar ++ ['"'])

/-- A list of texts, each quoted, in brackets. -/
def quotedList (texts : List String) : String :=
  "[" ++ String.intercalate ", " (texts.map quoted) ++ "]"

end DirectiveQuery.Text
