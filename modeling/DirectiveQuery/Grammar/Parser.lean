import DirectiveQuery.Grammar.Cursor
import DirectiveQuery.Grammar.Rule

/-
  Parsers with ordered choice that report their furthest failures. A parser answers at a cursor
  with a value and the cursor behind it, or with nothing; in both cases it tells which rules
  were tried in vain at the furthest place where any was. Reports of parsers that run one after
  the other are merged: the further place wins, and at the same place the rules are listed
  together. A named rule that fails where it starts stands for the several rules tried in it.
  A parser that succeeds also tells which rules matched on the way and where; of a part that
  was given up, no match is left.
-/
namespace DirectiveQuery

/-- The rules that failed at the furthest place where any failed. -/
inductive Misses where
  | nothing
  | tried (place : Cursor) (rules : List Rule)
deriving DecidableEq, Repr

namespace Misses

/-- The report of two runs, the first one's rules before the second one's. -/
def merge : Misses → Misses → Misses
  | nothing, b => b
  | a, nothing => a
  | .tried p rs, .tried q ss =>
    if p.byte < q.byte then .tried q ss
    else if q.byte < p.byte then .tried p rs
    else .tried p (rs ++ ss)

/-- The report of a named rule that fails at `c`, from the report of its body. What failed
further on is kept, and so is the only rule that failed at `c` itself; otherwise the rule takes
the place of its body. -/
def nameAt (c : Cursor) (rule : Rule) : Misses → Misses
  | nothing => .tried c [rule]
  | .tried p rs => if c.byte < p.byte || rs.length = 1 then .tried p rs else .tried c [rule]

@[simp] theorem merge_nothing (a : Misses) : a.merge nothing = a := by cases a <;> rfl

@[simp] theorem nothing_merge (a : Misses) : nothing.merge a = a := by cases a <;> rfl

theorem merge_assoc (a b c : Misses) : (a.merge b).merge c = a.merge (b.merge c) := by
  cases a with
  | nothing => simp
  | tried p rs =>
    cases b with
    | nothing => simp
    | tried q ss =>
      cases c with
      | nothing => simp
      | tried r ts => grind [merge]

end Misses

/-- A rule that matched the text between two cursors. -/
structure Match where
  rule : Rule
  start : Cursor
  stop : Cursor
deriving DecidableEq, Repr

/-- What a parser answers. -/
structure Reply (α : Type) where
  /-- The value and the cursor behind it, unless the parser failed. -/
  result : Option (α × Cursor)
  /-- The furthest failures on the way, of a parser that succeeds too. -/
  misses : Misses
  /-- The rules that matched, each before the ones inside it, if the parser succeeded. -/
  matched : List Match

/-- A parser of values of type `α`. -/
def Parser (α : Type) : Type := Cursor → Reply α

namespace Parser

/-- Succeeds without moving. -/
def pure {α : Type} (a : α) : Parser α := fun c => ⟨some (a, c), .nothing, []⟩

/-- Runs a parser and then, behind it, the parser that its value asks for. -/
def bind {α β : Type} (p : Parser α) (f : α → Parser β) : Parser β := fun c =>
  match p c with
  | ⟨none, m, _⟩ => ⟨none, m, []⟩
  | ⟨some (a, c'), m, ms⟩ =>
    let r := f a c'
    ⟨r.result, m.merge r.misses, ms ++ r.matched⟩

instance : Monad Parser where
  pure := Parser.pure
  bind := Parser.bind

/-- Fails, and blames no rule. -/
def fail {α : Type} : Parser α := fun _ => ⟨none, .nothing, []⟩

/-- The current cursor. -/
def here : Parser Cursor := fun c => ⟨some (c, c), .nothing, []⟩

/-- The first of two parsers that succeeds at the cursor. -/
def orElse {α : Type} (p q : Parser α) : Parser α := fun c =>
  match p c with
  | ⟨some x, m, ms⟩ => ⟨some x, m, ms⟩
  | ⟨none, m, _⟩ =>
    let r := q c
    ⟨r.result, m.merge r.misses, r.matched⟩

/-- The first parser of a list that succeeds at the cursor. -/
def firstOf {α : Type} : List (Parser α) → Parser α
  | [] => fail
  | p :: ps => orElse p (firstOf ps)

/-- The value of a parser, or `default` without moving where the parser fails. -/
def withDefault {α : Type} (default : α) (p : Parser α) : Parser α := orElse p (pure default)

/-- A parser run again and again until it fails, at most once for each character of `bound`. -/
def repeatWithin {α : Type} (p : Parser α) : (bound : List Char) → Cursor → Reply (List α)
  | [], c => ⟨some ([], c), .nothing, []⟩
  | _ :: bound, c =>
    match p c with
    | ⟨none, m, _⟩ => ⟨some ([], c), m, []⟩
    | ⟨some (a, c'), m, ms⟩ =>
      let r := repeatWithin p bound c'
      ⟨r.result.map fun (as, c'') => (a :: as, c''), m.merge r.misses, ms ++ r.matched⟩

/-- A parser run again and again until it fails. A parser that moves whenever it succeeds cannot
succeed more often than there are characters ahead, and it fails the time after. -/
def many {α : Type} (p : Parser α) : Parser (List α) := fun c =>
  repeatWithin p ('.' :: c.ahead) c

/-- A parser whose match, or failure, is reported under the name of a rule. -/
def named {α : Type} (rule : Rule) (p : Parser α) : Parser α := fun c =>
  match p c with
  | ⟨some (a, c'), m, ms⟩ => ⟨some (a, c'), m, ⟨rule, c, c'⟩ :: ms⟩
  | ⟨none, m, _⟩ => ⟨none, m.nameAt c rule, []⟩

/-- The value of a parser with the span that it covers. -/
def spanned {α : Type} (p : Parser α) : Parser (α × Span) := do
  let start ← here
  let a ← p
  let stop ← here
  return (a, start.spanTo stop)

/-- Moves over the characters of a token. `scan` finds it at the head of the text ahead. -/
def scanned {α : Type} (scan : List Char → Option (α × List Char)) : Parser α := fun c =>
  match scan c.ahead with
  | some (a, lexeme) => ⟨some (a, c.advance lexeme.length), .nothing, []⟩
  | none => ⟨none, .nothing, []⟩

/-- The end of the text. -/
def endOfText : Parser Unit := fun c =>
  if c.ahead.isEmpty then ⟨some ((), c), .nothing, []⟩ else ⟨none, .nothing, []⟩

/-! ## Results

What a parser finds does not depend on the failures that it reports. -/

@[simp] theorem result_pure {α : Type} (a : α) (c : Cursor) :
    ((Pure.pure a : Parser α) c).result = some (a, c) := rfl

theorem result_bind {α β : Type} (p : Parser α) (f : α → Parser β) (c : Cursor) :
    ((p >>= f) c).result = (p c).result.bind fun x => (f x.1 x.2).result := by
  show (Parser.bind p f c).result = _
  unfold Parser.bind
  split <;> simp_all

theorem result_orElse {α : Type} (p q : Parser α) (c : Cursor) :
    (orElse p q c).result = (p c).result.or (q c).result := by
  unfold orElse
  split <;> simp_all

@[simp] theorem result_named {α : Type} (rule : Rule) (p : Parser α) (c : Cursor) :
    (named rule p c).result = (p c).result := by
  unfold named
  split <;> simp_all

theorem result_repeatWithin_cons {α : Type} (p : Parser α) (b : Char) (bound : List Char)
    (c : Cursor) :
    (repeatWithin p (b :: bound) c).result =
      match (p c).result with
      | none => some ([], c)
      | some (a, c') => (repeatWithin p bound c').result.map fun (as, c'') => (a :: as, c'') := by
  rw [repeatWithin]
  split <;> simp_all

theorem result_scanned {α : Type} (scan : List Char → Option (α × List Char)) (c : Cursor) :
    (scanned scan c).result =
      (scan c.ahead).map fun (a, lexeme) => (a, c.advance lexeme.length) := by
  unfold scanned
  split <;> simp_all

end Parser

end DirectiveQuery
