import DirectiveQuery.Proofs.Printing.Word
import DirectiveQuery.Proofs.Grammar.Derivation

/-
  Clauses, words that are known to be a phrase. Each way to build one from others follows a rule
  of the grammar, so that a printer that is made of them writes a text with a known tree, and
  nothing about its grammar is left to be shown.
-/
namespace DirectiveQuery

open Grammar

namespace Word

def comma : Word := symbol "," .comma (by decide)

def openParen : Word := symbol "(" .openParen (by decide)

def closeParen : Word := symbol ")" .closeParen (by decide)

def openBracket : Word := symbol "[" .openBracket (by decide)

def closeBracket : Word := symbol "]" .closeBracket (by decide)

def null : Word := symbol "null" (.literal .null) (by decide)

def boolean (b : Bool) : Word :=
  symbol (if b then "true" else "false") (.literal (.boolean b)) (by cases b <;> decide)

def mark (m : Mark) : Word := symbol m.token (.mark m) (by cases m <;> decide)

def operator (o : Operator) : Word :=
  symbol o.token (.operator o) (by rcases o with o | o <;> cases o <;> decide)

end Word

/-- Words that are a phrase of the level, with the tree of the phrase. -/
structure Clause (l : Level) where
  words : List Word
  tree : Expression
  phrase : Phrase l (words.map Word.token) tree

namespace Clause

variable {l : Level}

/-- The same words at a looser level. -/
def loosen (c : Clause l) (m : Level) (h : m.rank ≤ l.rank) : Clause m where
  words := c.words
  tree := c.tree
  phrase := c.phrase.loosen h

/-- A literal. -/
def literal (w : Word) (value : Literal) (h : w.token = .literal value) : Clause .primary where
  words := [w]
  tree := .literal value .nowhere
  phrase := by
    rw [List.map_cons, h]
    exact .literal value

/-- A mark before an operand. -/
def marked (m : Mark) (c : Clause .unary) : Clause .unary where
  words := .mark m :: c.words
  tree := .unary m c.tree .nowhere
  phrase := .marked m c.phrase

/-- An operator between two operands. -/
def joined (o : Operator) (left : Clause (operatorLevel o))
    (right : Clause (operatorLevel o).tighter) : Clause (operatorLevel o) where
  words := left.words ++ .operator o :: right.words
  tree := node left.tree o right.tree
  phrase := by
    rw [List.map_append, List.map_cons]
    exact .joined o rfl left.phrase right.phrase

/-- An expression in parentheses. -/
def group (c : Clause .disjunction) : Clause .primary where
  words := .openParen :: (c.words ++ [.closeParen])
  tree := c.tree
  phrase := by
    rw [List.map_cons, List.map_append]
    exact .group (.single (.one c.phrase))

/-! ## Lists -/

/-- Clauses with commas between them. -/
def listed : List (Clause .disjunction) → List Word
  | [] => []
  | c :: cs => c.words ++ cs.flatMap fun d => .comma :: d.words

theorem further_listed (cs : List (Clause .disjunction)) :
    Repeated Further ((cs.flatMap fun d => .comma :: d.words).map Word.token)
      (cs.map Clause.tree) := by
  induction cs with
  | nil => exact .nil
  | cons c cs ih =>
    rw [List.flatMap_cons, List.map_append, List.map_cons, List.map_cons]
    exact .cons ⟨_, rfl, c.phrase⟩ ih

theorem listing_listed (c : Clause .disjunction) (cs : List (Clause .disjunction)) :
    Listing ((listed (c :: cs)).map Word.token) ((c :: cs).map Clause.tree) := by
  rw [listed, List.map_append]
  exact (Listing.one c.phrase).append (further_listed cs)

theorem elements_listed (cs : List (Clause .disjunction)) :
    Elements ((listed cs).map Word.token) (cs.map Clause.tree) := by
  cases cs with
  | nil => exact .none
  | cons c cs => exact .listing (listing_listed c cs)

/-- An array. -/
def array (cs : List (Clause .disjunction)) : Clause .primary where
  words := .openBracket :: (listed cs ++ [.closeBracket])
  tree := .array (cs.map Clause.tree) .nowhere
  phrase := by
    rw [List.map_cons, List.map_append]
    exact .array (elements_listed cs)

/-- A call of a directive. -/
def call (d : Directive) (cs : List (Clause .disjunction)) : Clause .application where
  words := .name d :: .openParen :: (listed cs ++ [.closeParen])
  tree := .call (.identifier d.name .nowhere) (cs.map Clause.tree) .nowhere
  phrase := by
    rw [List.map_cons, List.map_cons, List.map_append]
    exact .call (.tighter (by decide) (.identifier d.name)) (elements_listed cs)

/-! ## Whole queries -/

/-- The tree of a comma list. -/
def seriesTree : List (Clause .disjunction) → Expression
  | [c] => c.tree
  | cs => .sequence (cs.map Clause.tree) .nowhere

/-- The text of a comma list. -/
def text (cs : List (Clause .disjunction)) : String := String.ofList (Word.spaced (listed cs))

theorem derives_text {cs : List (Clause .disjunction)} (h : cs ≠ []) :
    Derives (text cs) (seriesTree cs) := by
  refine ⟨(listed cs).map Word.token, ?_, ?_⟩
  · rw [text, String.toList_ofList]
    exact Word.reads_spaced _
  · match cs with
    | [] => exact absurd rfl h
    | [c] => exact .single (listing_listed c [])
    | c :: d :: cs => exact .several (listing_listed c (d :: cs)) (by simp)

end Clause

end DirectiveQuery
