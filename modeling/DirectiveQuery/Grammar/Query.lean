import DirectiveQuery.Expression.Basic
import DirectiveQuery.Grammar.Lexeme
import DirectiveQuery.Grammar.Parser

/-
  The grammar of queries. From the loosest to the tightest: a comma list, `||`, `&&`, equality,
  order and membership, marks before an operand, calls, and then literals, arrays, identifiers
  and groups in parentheses. Operators of one level associate to the left. Each level is a
  parser over the parser of the expressions inside brackets, and the knot is tied at the end by
  the depth of brackets, which no text can exceed by its length.
-/
namespace DirectiveQuery.Grammar

open DirectiveQuery.Parser

/-! ## Tokens -/

/-- The spaces at the cursor, of which there may be none. -/
def space : Parser Unit := scanned Lexeme.space?

/-- The given characters. -/
def token (text : String) : Parser Unit := scanned (Lexeme.exactly? text.toList)

/-- A token with a meaning. -/
def tokenFor {α : Type} (text : String) (meaning : α) : Parser α := do
  token text
  return meaning

/-- A keyword with a meaning. -/
def keyword {α : Type} (rule : Rule) (text : String) (meaning : α) : Parser α :=
  named rule do
    scanned (Lexeme.keyword? text)
    return meaning

/-- What a parser finds after any spaces, again and again. -/
def spaced {α : Type} (p : Parser α) : Parser (List α) :=
  many do
    space
    p

/-! ## Lists in brackets -/

/-- The elements after the first of a comma list. -/
def furtherElements (element : Parser Expression) : Parser (List Expression) :=
  spaced do
    token ","
    space
    element

/-- A comma list without brackets; a comma may follow its last element. -/
def elements (element : Parser Expression) : Parser (List Expression) := do
  let first ← element
  space
  let others ← furtherElements element
  space
  withDefault () (token ",")
  return first :: others

/-- A comma list in brackets, which may be empty. -/
def bracketed (opening closing : String) (element : Parser Expression) :
    Parser (List Expression) := do
  token opening
  space
  let es ← withDefault [] (elements element)
  space
  token closing
  return es

/-- A comma list that is a single element, or a sequence of several. A sequence reaches to the
space behind it. -/
def sequence (element : Parser Expression) : Parser Expression :=
  named .sequence do
    let start ← here
    let first ← element
    space
    let others ← furtherElements element
    let stop ← here
    return if others.isEmpty then first else .sequence (first :: others) (start.spanTo stop)

/-! ## Operands -/

/-- A literal. -/
def literal : Parser Expression := do
  let (value, s) ← spanned (firstOf
    [keyword .nullWord "null" Literal.null,
      named .booleanWord do return Literal.boolean (← scanned Lexeme.boolean?),
      named .number do return Literal.number (← scanned Lexeme.number?),
      named .string do return Literal.string (← scanned Lexeme.string?)])
  return .literal value s

/-- An array. -/
def array (element : Parser Expression) : Parser Expression :=
  named .array do
    let (es, s) ← spanned (bracketed "[" "]" element)
    return .array es s

/-- An identifier. -/
def identifier : Parser Expression :=
  named .identifier do
    let (name, s) ← spanned (scanned Lexeme.identifier?)
    return .identifier name s

/-- A comma list in parentheses. The parentheses leave no trace. -/
def group (element : Parser Expression) : Parser Expression :=
  named .group do
    token "("
    space
    let e ← sequence element
    space
    token ")"
    return e

/-- A literal, an array, an identifier or a group. -/
def primary (element : Parser Expression) : Parser Expression :=
  firstOf [literal, array element, identifier, group element]

/-- The arguments of a call. -/
def arguments (element : Parser Expression) : Parser (List Expression × Span) :=
  named .arguments (spanned (bracketed "(" ")" element))

/-- An operand with any number of calls on it. -/
def application (element : Parser Expression) : Parser Expression :=
  named .application do
    let head ← primary element
    space
    let calls ← spaced (arguments element)
    return calls.foldl (fun callee (es, s) => .call callee es (callee.span.through s)) head

/-- A mark before an operand. -/
def mark : Parser (Mark × Span) :=
  spanned (named .mark
    (firstOf [tokenFor "!" Mark.not, tokenFor "+" Mark.plus, tokenFor "-" Mark.minus]))

/-- An operand with any number of marks before it. The mark next to the operand binds first. -/
def unary (element : Parser Expression) : Parser Expression :=
  named .unary do
    let marks ← spaced mark
    space
    let operand ← application element
    return marks.foldr (fun (m, s) e => .unary m e (s.through e.span)) operand

/-! ## Operators -/

/-- The node of an operator between two operands. -/
def joined (left : Expression) (operator : Operator) (right : Expression) : Expression :=
  let s := left.span.through right.span
  match operator with
  | .comparison c => .binary left c right s
  | .connective c => .logical left c right s

/-- Operands with operators between them. -/
def chain (rule : Rule) (operator : Parser Operator) (operand : Parser Expression) :
    Parser Expression :=
  named rule do
    let first ← operand
    space
    let others ← spaced do
      let o ← operator
      space
      let right ← operand
      return (o, right)
    return others.foldl (fun left (o, right) => joined left o right) first

/-- A comparison by order or membership. -/
def relationToken : Parser Operator :=
  named .relationToken (firstOf
    [tokenFor ">=" (.comparison .greaterOrEqual), tokenFor "<=" (.comparison .lessOrEqual),
      tokenFor ">" (.comparison .greater), tokenFor "<" (.comparison .less),
      keyword .nonMemberWord "nin" (.comparison .nonMember),
      keyword .memberWord "in" (.comparison .member)])

/-- A comparison by equality. -/
def equalityToken : Parser Operator :=
  named .equalityToken (firstOf
    [tokenFor "==" (.comparison .equal), tokenFor "!=" (.comparison .notEqual)])

/-- The sign of a conjunction. -/
def andToken : Parser Operator := named .andToken (tokenFor "&&" (.connective .and))

/-- The sign of a disjunction. -/
def orToken : Parser Operator := named .orToken (tokenFor "||" (.connective .or))

/-! ## Expressions and programs -/

/-- An expression whose brackets hold what `element` reads. -/
def expressionOver (element : Parser Expression) : Parser Expression :=
  named .expression
    (chain .disjunction orToken
      (chain .conjunction andToken
        (chain .equality equalityToken
          (chain .relation relationToken (unary element)))))

/-- An expression with brackets nested less deep than the first argument. -/
def expressionWithin : (depth : Nat) → Parser Expression
  | 0 => fail
  | depth + 1 => fun c => expressionOver (expressionWithin depth) c

/-- A whole query. Every nesting takes a bracket, so the depth is less than one more than the
length of the text. -/
def program : Parser Expression := fun c =>
  (named .program do
    space
    let e ← sequence (expressionWithin (c.ahead.length + 1))
    space
    named .endOfText endOfText
    return e) c

end DirectiveQuery.Grammar
