import DirectiveQuery.Binary64.Reading
import DirectiveQuery.Command.Log
import DirectiveQuery.Pattern.Reading
import DirectiveQuery.Text.Blank
import DirectiveQuery.Text.Line
import DirectiveQuery.Text.Position

/-
  Log rules: which log lines are shown. A rule gives the number of levels shown, for the places
  whose names start in a given way and for the lines that have a given field; of the rules that
  apply to a line the most specific one decides. A setting is a list of rules with commas
  between them, of the form

    place[span{field=value}]=level

  where each part may be missing. Rules for spans or for the values of fields are understood,
  but no line is shown or hidden by them, since all lines stand outside of spans.
-/
namespace DirectiveQuery

/-- A number of levels shown, the most severe ones, and the lines that it is for. -/
structure LogRule where
  /-- The places whose names start in this way. -/
  place : String := ""
  /-- The field that the lines have; any line where there is none. -/
  field : Option String := none
  shown : Nat
deriving DecidableEq, Repr

namespace LogRule

/-- The variable with the log rules. -/
def settingName : String := "RUST_LOG"

/-! ## Reading -/

/-- The number of levels that a word asks for: a number up to that of all levels, the name of
the last level, or `off`. -/
def shownOfWord? (word : String) : Option Nat :=
  let digits := match word.toList with
    | '+' :: rest => rest
    | cs => cs
  let upper := String.ofList (word.toList.map Char.toUpper)
  if !digits.isEmpty && digits.all Char.isDigit then
    let n := Text.numberOfDigits 10 digits
    if n ≤ Level.trace.rank then some n else none
  else if upper = "OFF" then some 0
  else (Level.all.find? fun l => l.name == upper).map Level.rank

/-- A rule may start with the character. -/
def isStart (c : Char) : Bool :=
  Text.isAlphanumeric c || c = '-' || c = ':' || c = '_' || c = '['

/-- The number of levels shown by the end of a rule: `rest` is that end, without the blanks
around the rule, and `start` the byte where it starts. -/
def shownByEnd? (text : List Char) (start : Nat) (rest : List Char) : Option Nat :=
  match rest with
  | [] => some Level.trace.rank
  | '=' :: _ => do
    let word ← Text.between? (start + 1) (Text.byteLength text) text
    if word.isEmpty then return Level.trace.rank else shownOfWord? (String.ofList word)
  | _ => none

/-- A field can have the value: it is a number, or a pattern for texts that can be used. -/
def isValue (text : List Char) : Bool :=
  (Pattern.ofText? text).any Pattern.isUsable || (Binary64.ofText? text).isSome

/-- Reads the field of a rule: its name and whether a value is asked for. -/
def field? (text : List Char) : Option (String × Bool) :=
  match Text.splitAll '=' text with
  | [name] => if name.isEmpty then none else some (String.ofList name, false)
  | name :: value :: _ => if isValue value then some (String.ofList name, true) else none
  | [] => none

/-- Reads a rule from its opening bracket on. The bracket is at the byte `start`, and `inside`
follows it up to the blanks at the end. The answer has no rules where no line is concerned. -/
def ofBrackets? (text : List Char) (place : String) (start : Nat) (inside : List Char) :
    Option (List LogRule) := do
  let (span, rest) := inside.span fun c => c != ']' && c != '\x7b'
  let spanStop := start + 1 + Text.byteLength span
  let span ← Text.between? (start + 1) spanStop text
  match rest with
  | ']' :: rest =>
    let _ ← shownByEnd? text (spanStop + 1) rest
    return []
  | '\x7b' :: inside =>
    let (field, rest) := inside.span fun c => c != '\x7d'
    let fieldStop := spanStop + 1 + Text.byteLength field
    let (name, hasValue) ← field? (← Text.between? (spanStop + 1) fieldStop text)
    match rest with
    | '\x7d' :: ']' :: rest =>
      let shown ← shownByEnd? text (fieldStop + 2) rest
      return if span.isEmpty && !hasValue then [⟨place, some name, shown⟩] else []
    | _ => none
  | _ => none

/-- Reads a rule. Its parts are told apart without the blanks around it, and then cut from the
text with the blanks at the places counted so; hence a blank in front is part of what comes
first and shifts what comes later, and a blank at the end is part of what comes last. A single
word is a level for all places, or else a place of which all lines are shown. -/
def ofText? (text : List Char) : Option (List LogRule) := do
  let bare := Text.trim text
  let (head, rest) := bare.span fun c => c != '=' && c != '['
  let stop := Text.byteLength head
  if !(bare.head?.any isStart) then none
  else
    match rest with
    | [] =>
      let word := String.ofList text
      match shownOfWord? word with
      | some shown => return [{ shown := shown }]
      | none => return [⟨word, none, Level.trace.rank⟩]
    | c :: inside =>
      let place := String.ofList (← Text.between? 0 stop text)
      if c = '[' then ofBrackets? text place stop inside
      else return [⟨place, none, ← shownByEnd? text stop rest⟩]

/-- The rules that a text with commas gives; a text without any shows errors only. -/
def ofList? (text : String) : Option (List LogRule) :=
  match (Text.splitAll ',' text.toList).filter fun part => !part.isEmpty with
  | [] => some [{ shown := Level.error.rank }]
  | parts => (parts.mapM ofText?).map List.flatten

/-- The rules for a command: those of the environment, or warnings and errors where it has
none or none that can be read; and up to debugging where the command is verbose. -/
def forCommand (verbose : Bool) (setting : Option String) : List LogRule :=
  if verbose then [{ shown := Level.debug.rank }]
  else (setting.bind ofList?).getD [{ shown := Level.warn.rank }]

/-! ## Deciding -/

/-- The rule is for lines such as this one. -/
def applies (r : LogRule) (l : LogLine) : Bool :=
  r.place.toList.isPrefixOf l.place.toList && r.field.all l.fieldNames.contains

/-- The rule comes before another for the same line: its place says more, or as much and it asks
for a field, of two fields for the one that is later in the alphabet. -/
def isAtLeast (r other : LogRule) : Bool :=
  if r.place.length = other.place.length then
    match r.field, other.field with
    | _, none => true
    | none, some _ => false
    | some a, some b => b ≤ a
  else other.place.length < r.place.length

/-- The rule that decides about a line, the most specific one; of two that say the same about
it, the last one. -/
def deciding? (rules : List LogRule) (l : LogLine) : Option LogRule :=
  (rules.filter (applies · l)).foldl
    (fun best r =>
      match best with
      | none => some r
      | some b => if r.isAtLeast b then some r else some b)
    none

/-- The line is shown. -/
def shows (rules : List LogRule) (l : LogLine) : Bool :=
  match deciding? rules l with
  | some r => l.level.rank ≤ r.shown
  | none => false

end LogRule

end DirectiveQuery
