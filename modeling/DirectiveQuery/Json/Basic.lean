import DirectiveQuery.Binary64.Format

/-
  JSON values and their texts. Objects keep their members in order, and integers are told apart
  from numbers with a fraction or an exponent, which are finite by their type. Layouts differ in
  the blanks between the tokens only: the compact one has none, the indented one puts every
  element and member on a line of its own.
-/
namespace DirectiveQuery

/-- A JSON value. -/
inductive Json where
  | null
  | boolean (value : Bool)
  | integer (value : Int)
  | number (negative : Bool) (magnitude : Magnitude)
  | string (value : String)
  | array (elements : List Json)
  | object (members : List (String × Json))
deriving Repr

namespace Json

/-- A number as JSON; what is not finite becomes null. -/
def ofBinary64 : Binary64 → Json
  | .finite negative x => number negative x
  | _ => null

/-- A list of texts. -/
def strings (texts : List String) : Json := array (texts.map string)

/-- What stands for one character in a JSON string. Only the quote, the backslash and the
controls below U+0020 are escaped. -/
def escaped (c : Char) : List Char :=
  if c = '"' then ['\\', '"']
  else if c = '\\' then ['\\', '\\']
  else if c = '\n' then ['\\', 'n']
  else if c = '\r' then ['\\', 'r']
  else if c = '\t' then ['\\', 't']
  else if c = '\x08' then ['\\', 'b']
  else if c = '\x0c' then ['\\', 'f']
  else if c.toNat < 32 then
    ['\\', 'u', '0', '0', (c.toNat / 16).digitChar, (c.toNat % 16).digitChar]
  else [c]

/-- A text as a JSON string. -/
def stringText (text : String) : List Char := '"' :: text.toList.flatMap escaped ++ ['"']

/-- A finite number, with a fraction or an exponent. -/
def numberText (negative : Bool) (x : Magnitude) : List Char :=
  (Binary64.finite negative x).text .json

/-! ## Layouts -/

/-- The blanks of JSON. -/
def isSpace (c : Char) : Bool := c = ' ' || c = '\t' || c = '\n' || c = '\r'

/-- The text consists of blanks. -/
def IsBlank (text : List Char) : Prop := ∀ c ∈ text, isSpace c = true

theorem isBlank_nil : IsBlank [] := List.forall_mem_nil _

/-- A line break and the indentation of a nesting depth, two spaces for each level. -/
def newline (depth : Nat) : List Char := '\n' :: List.replicate (2 * depth) ' '

/-- The blanks that a layout puts before an element, a member or a closing bracket at a nesting
depth, and behind a colon. -/
structure Layout where
  gap : Nat → List Char
  colon : List Char
  gap_blank : ∀ depth, IsBlank (gap depth)
  colon_blank : IsBlank colon

namespace Layout

/-- No blanks at all. -/
def compact : Layout where
  gap _ := []
  colon := []
  gap_blank _ := isBlank_nil
  colon_blank := isBlank_nil

/-- Each element and member on a line of its own. -/
def indented : Layout where
  gap := newline
  colon := [' ']
  gap_blank depth := by
    intro c hc
    rcases List.mem_cons.1 hc with rfl | hc
    · decide
    · obtain rfl := List.eq_of_mem_replicate hc
      decide
  colon_blank := by
    intro c hc
    obtain rfl := List.mem_singleton.1 hc
    decide

mutual

/-- A value at a nesting depth in a layout. -/
def text (layout : Layout) (depth : Nat) : Json → List Char
  | null => "null".toList
  | boolean true => "true".toList
  | boolean false => "false".toList
  | integer n => Text.decimalText n
  | number negative x => numberText negative x
  | string s => stringText s
  | array [] => ['[', ']']
  | array (e :: es) =>
    '[' :: (layout.gap (depth + 1) ++ (text layout (depth + 1) e ++ elements layout depth es))
  | object [] => ['\x7b', '\x7d']
  | object ((k, v) :: ms) =>
    '\x7b' :: (layout.gap (depth + 1) ++ (stringText k ++ ':' :: (layout.colon ++
      (text layout (depth + 1) v ++ members layout depth ms))))

/-- The elements after the first of an array at a nesting depth, and its closing bracket. -/
def elements (layout : Layout) (depth : Nat) : List Json → List Char
  | [] => layout.gap depth ++ [']']
  | e :: es =>
    ',' :: (layout.gap (depth + 1) ++ (text layout (depth + 1) e ++ elements layout depth es))

/-- The members after the first of an object at a nesting depth, and its closing brace. -/
def members (layout : Layout) (depth : Nat) : List (String × Json) → List Char
  | [] => layout.gap depth ++ ['\x7d']
  | (k, v) :: ms =>
    ',' :: (layout.gap (depth + 1) ++ (stringText k ++ ':' :: (layout.colon ++
      (text layout (depth + 1) v ++ members layout depth ms))))

end

end Layout

/-- The text of a value on one line. -/
def compact (value : Json) : String := String.ofList (Layout.compact.text 0 value)

/-- The text of a value over several lines. -/
def indented (value : Json) : String := String.ofList (Layout.indented.text 0 value)

/-! ## Access -/

/-- The value of the last member with a key. -/
def field? (key : String) (members : List (String × Json)) : Option Json :=
  (members.reverse.find? fun member => member.1 == key).map (·.2)

/-- The key and the last value of an object that has one key only. -/
def singleMember? : Json → Option (String × Json)
  | object ((key, first) :: others) =>
    if others.all fun member => member.1 == key then
      some (key, (others.getLast?.map (·.2)).getD first)
    else none
  | _ => none

/-- The values of the members with the given keys, if all are there. Other members do not
matter. -/
def fields? (keys : List String) : Json → Option (List Json)
  | object members => keys.mapM fun key => field? key members
  | _ => none

/-- The values of a record: an object with the given keys, or an array of as many elements. -/
def record? (keys : List String) : Json → Option (List Json)
  | array elements => if elements.length = keys.length then some elements else none
  | value => fields? keys value

mutual

/-- How deep arrays and objects are nested. -/
def depth : Json → Nat
  | array elements => depthOfElements elements + 1
  | object members => depthOfMembers members + 1
  | _ => 0

/-- The greatest depth among some values. -/
def depthOfElements : List Json → Nat
  | [] => 0
  | e :: es => max (depth e) (depthOfElements es)

/-- The greatest depth among the values of some members. -/
def depthOfMembers : List (String × Json) → Nat
  | [] => 0
  | (_, v) :: ms => max (depth v) (depthOfMembers ms)

end

end Json

end DirectiveQuery
