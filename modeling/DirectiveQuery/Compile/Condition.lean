import DirectiveQuery.Compile.Arguments

/-
  Conditions as filters. The arguments of `where` are compiled into leaves and combinations;
  a negation leaves no node behind but inverts every operator below it, so what matters at a
  node is whether the number of negations around it is odd. Several arguments are joined by
  `and`, and the result is brought to normal form. The fields are collected on the way, each when
  a comparison of it is compiled for the first time.
-/
namespace DirectiveQuery

/-- Compiling conditions, while the fields that they compare are collected. -/
abbrev Collecting := StateT (List String) (Except CompileError)

/-- Some fields and one more, unless it is among them. -/
def addField (fields : List String) (field : String) : List String :=
  if fields.contains field then fields else fields ++ [field]

/-- Collects a field. -/
def collect (field : String) : Collecting Unit := modify fun fields => addField fields field

namespace Expression

/-- The operand of a comparison: an array for membership, a scalar for the others. -/
def operand (operator : Comparison) : Expression → Except CompileError Operand
  | array elements s =>
    if operator.isMembership then
      (readEach Value.ofExpression? .invalidArrayElement 0 elements).map Operand.list
    else .error (.typeMismatch .scalar s.start)
  | e =>
    if operator.isMembership then .error (.typeMismatch .array e.offset)
    else
      match Value.ofExpression? e with
      | some v => .ok (.scalar v)
      | none => .error (.typeMismatch .value e.offset)

/-- A comparison of the field that `left` names with the operand that `right` gives. -/
def comparison (left : Expression) (operator : Comparison) (right : Expression) :
    Except CompileError Leaf :=
  match left.fieldName? with
  | none => .error (.invalidComparisonField left.offset)
  | some field => (right.operand operator).map fun operand => ⟨field, operator, operand⟩

/-- The filter of a condition that an odd (`inverted`) or even number of negations encloses. The
token of an operator decides what stands for it there. -/
def compileCondition (inverted : Bool) : Expression → Collecting Filter
  | unary .not e _ => compileCondition (!inverted) e
  | unary mark _ s => throw (.unknownOperator mark.token s.start)
  | binary left operator right s =>
    match Operator.resolve? operator.token inverted with
    | some (.comparison resolved) => do
      let l ← comparison left resolved right
      collect l.field
      return .leaf l
    | _ => throw (.unknownOperator operator.token s.start)
  | logical left operator right s =>
    match Operator.resolve? operator.token inverted with
    | some (.connective resolved) => do
      let f ← compileCondition inverted left
      let g ← compileCondition inverted right
      return .combined resolved [f, g]
    | _ => throw (.unknownOperator operator.token s.start)
  | e => throw (.unknownExpression e.offset)

end Expression

/-- The filter of several conditions that all have to hold; a single one stands for itself. -/
def Filter.conjunction : List Filter → Filter
  | [f] => f
  | fs => .combined .and fs

/-- What the arguments of `where` give: a filter in normal form, and the fields that were collected
on the way to it. -/
structure CompiledFilter where
  filter : Filter
  fields : List String

namespace Arguments

/-- The filters of conditions that no negation encloses. -/
def compileConditions : Arguments → Collecting (List Filter)
  | [] => return []
  | e :: es => do
    let f ← e.compileCondition false
    let fs ← compileConditions es
    return f :: fs

/-- Compiles the arguments of `where`, of which there has to be one. -/
def compileFilter (arguments : Arguments) : Except CompileError CompiledFilter :=
  if arguments.isEmpty then .error (.arityMismatch .filter 0)
  else (arguments.compileConditions.run []).map fun (fs, fields) =>
    ⟨(Filter.conjunction fs).normalize, fields⟩

end Arguments

end DirectiveQuery
