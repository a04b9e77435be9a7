import DynLisp.Parser.Basic

/-!
# The forms of the language

    expression  ::= number | boolean | conditional | definition | name | call
    number      ::= "-"? digits | "(" arithmetic-operator number number ")"
    boolean     ::= "true" | "false" | "(" boolean-operator boolean boolean ")"
                  | "(" "!" boolean ")" | "(" comparison number number ")"
    conditional ::= "(" "cond" case+ ")"
    case        ::= "(" boolean expression ")"
    definition  ::= "(" "define" "(" name name* ")" expression ")"
    call        ::= "(" name expression* ")"

Where a number or a boolean is needed, a name, a call or a conditional may stand as well, since
what kind of value they have is known only when they are evaluated.

No definition here is recursive.  A form reads the expressions inside it with `operand`, a reader
of expressions for each `Position`, and `Parser.step` reads one expression in a position with the
help of `operand`.  Which form stands next is settled by the next two tokens, before any of them
is taken.
-/

namespace DynLisp

/-- What kinds of expression may stand in a place. -/
inductive Position where
  /-- Any expression. -/
  | any
  /-- An expression that may have a value of a kind. -/
  | only (kind : ValueKind)
  deriving DecidableEq, Repr, Inhabited

namespace Parser

/-! ## Literals and names -/

/-- The number of some digits, which must not be too many. -/
def convert (digits : List Char) : Parser Nat :=
  match Decimal.convert digits with
  | .ok size => return size
  | .error count => throw (.oversized count)

/-- A literal number without its sign.  A negative one is blamed from `start` on, where its sign
stands, if that is given.  Its digits are converted before its range is looked at. -/
def numberLiteral (negative : Bool) (start : Option Nat) : Parser Expr := do
  let t ← expect .number "number"
  let size ← convert t.text.toList
  let value : Int := if negative then -size else size
  if inRange value then
    return .number value
  else
    let literal := if negative then "-" ++ t.text else t.text
    match start with
    | none => blame (.literalOutOfRange literal) t
    | some start => throw (.grammar ⟨.literalOutOfRange literal, .upTo start t⟩)

/-- A minus sign and the literal after it.  A sign that no number follows is blamed on the token
that stands in the number's place, or on itself if there is none. -/
def negativeLiteral : Parser Expr := do
  let minus ← next
  match ← peek 0 with
  | none => blame (.signWithoutNumber minus.text) minus
  | some t =>
    if t.kind = .number then
      numberLiteral true (some minus.offset)
    else
      blame (.signWithoutNumber minus.text) t

/-- A literal boolean. -/
def booleanLiteral : Parser Expr := do
  let t ← expect .boolean "boolean"
  return .boolean (t.text == "true")

/-- A name that stands for a variable. -/
def variableName : Parser Expr := do
  let t ← expect .identifier "identifier"
  return .var t.text

/-- The rest of a list of parameters, up to the closing delimiter, which is left.  `seen` are the
parameters before it. -/
def parameters (function : String) (seen : List String) : List Token → Result (List String)
  | [] => .error (.grammar ⟨.endOfInputFor "parameter name", .endOfInput⟩) []
  | t :: ts =>
    if t.kind = .closing then
      .ok seen (t :: ts)
    else if t.kind = .identifier then
      if t.text ∈ seen then
        .error (.grammar ⟨.duplicateParameter t.text function, .token t⟩) ts
      else
        parameters function (seen ++ [t.text]) ts
    else
      .error (.grammar ⟨.unexpected t.text "parameter name", .token t⟩) (t :: ts)

/-! ## Forms -/

/-- Whether the next expression is one whose kind of value only its evaluation tells. -/
def isDynamic : Parser Bool := do
  match ← peekKind 0 with
  | some .identifier => return true
  | some .opening =>
    let after ← peekKind 1
    return after = some .identifier || after = some .cond
  | _ => return false

/-- Stops because of what stands after the next token, an opening delimiter. -/
def blameFormStart : Parser Expr := do
  match ← peek 1 with
  | none => blameEnd .endOfInput
  | some t =>
    if t.kind.isReserved then
      blame (.unsupported t.text) t
    else
      blame (.cannotStartForm t.text) t

/-- Stops because the next expression has not the kind of value that is needed. -/
def blameMisfit (kind : ValueKind) : Parser Expr := do
  match ← peek 0 with
  | none => blameEnd (.endOfInputForValue kind)
  | some t =>
    match t.kind, ← peek 1 with
    | .opening, some after => blame (.misfit kind after.text) after
    | _, _ => blame (.misfit kind t.text) t

section Forms

variable (operand : Position → Parser Expr)

/-- An operator and two operands of a kind. -/
def binary {α : Type} (ofKind? : TokenKind → Option α) (family : String) (kind : ValueKind)
    (build : α → Expr → Expr → Expr) : Parser Expr := do
  discard expectOpening
  let op ← operator ofKind? family
  let left ← operand (.only kind)
  let right ← operand (.only kind)
  discard expectClosing
  return build op left right

/-- An arithmetic form. -/
def arith : Parser Expr :=
  binary operand ArithOp.ofKind? "arithmetic operator" .number .arith

/-- A boolean form of two operands. -/
def logic : Parser Expr :=
  binary operand LogicOp.ofKind? "boolean operator" .boolean .logic

/-- A comparison. -/
def compare : Parser Expr :=
  binary operand CompareOp.ofKind? "comparison operator" .number .compare

/-- A boolean form of one operand. -/
def unary : Parser Expr := do
  discard expectOpening
  let op ← operator UnaryOp.ofKind? "unary boolean operator"
  let value ← operand (.only .boolean)
  discard expectClosing
  return .unary op value

/-- A case: its condition and its result. -/
def caseOf : Parser (Expr × Expr) := do
  discard (expect .opening "'(' to start a cond case")
  let condition ← operand (.only .boolean)
  let result ← operand .any
  discard (expect .closing "')' to end a cond case")
  return (condition, result)

/-- A conditional.  It is blamed at its keyword if it has no cases. -/
def conditional : Parser Expr := do
  discard expectOpening
  let keyword ← expect .cond "cond"
  if (← peekKind 0) = some .closing then
    blame (.emptyCond keyword.text) keyword
  let cases ← untilClosing (caseOf operand)
  discard expectClosing
  return .cond cases

/-- A definition. -/
def definition : Parser Expr := do
  discard expectOpening
  discard (expect .define "define")
  discard (expect .opening "'(' before function name")
  let name ← expect .identifier "function name"
  let params ← parameters name.text []
  discard expectClosing
  let body ← operand .any
  discard (expect .closing "')' after function body")
  return .define name.text params body

/-- A call. -/
def call : Parser Expr := do
  discard expectOpening
  let name ← expect .identifier "function name"
  let args ← untilClosing (operand .any)
  discard expectClosing
  return .call name.text args

/-- An expression whose kind of value only its evaluation tells. -/
def dynamic : Parser Expr := do
  if (← peekKind 0) = some .identifier then
    variableName
  else if (← peekKind 1) = some .cond then
    conditional operand
  else
    call operand

/-! ## Expressions -/

/-- An expression where a number is needed. -/
def numberExpr : Parser Expr := do
  match ← peekKind 0 with
  | some .number => numberLiteral false none
  | some .minus => negativeLiteral
  | kind =>
    if ← isDynamic then
      dynamic operand
    else if kind = some .opening ∧ ((← peekKind 1).bind ArithOp.ofKind?).isSome then
      arith operand
    else
      blameMisfit .number

/-- An expression where a boolean is needed. -/
def booleanExpr : Parser Expr := do
  match ← peekKind 0 with
  | some .boolean => booleanLiteral
  | kind =>
    if ← isDynamic then
      dynamic operand
    else if kind = some .opening then
      let after ← peekKind 1
      if (after.bind LogicOp.ofKind?).isSome then
        logic operand
      else if (after.bind UnaryOp.ofKind?).isSome then
        unary operand
      else if (after.bind CompareOp.ofKind?).isSome then
        compare operand
      else
        blameMisfit .boolean
    else
      blameMisfit .boolean

/-- A form, where any expression may stand. -/
def anyForm : Parser Expr := do
  match ← peekKind 1 with
  | none => blameFormStart
  | some after =>
    if after = .cond then
      conditional operand
    else if (ArithOp.ofKind? after).isSome then
      arith operand
    else if (LogicOp.ofKind? after).isSome || (UnaryOp.ofKind? after).isSome ||
        (CompareOp.ofKind? after).isSome then
      booleanExpr operand
    else if after = .define then
      definition operand
    else if after = .identifier then
      call operand
    else
      blameFormStart

/-- Any expression. -/
def anyExpr : Parser Expr := do
  match ← peek 0 with
  | none => blameEnd .endOfInput
  | some t =>
    match t.kind with
    | .number | .minus => numberExpr operand
    | .boolean => booleanLiteral
    | .identifier => variableName
    | .opening => anyForm operand
    | kind =>
      if kind.isReserved then
        blame (.unsupported t.text) t
      else
        blame (.cannotStart t.text) t

/-- An expression in a position, where `operand` reads the expressions inside it. -/
def step : Position → Parser Expr
  | .any => anyExpr operand
  | .only .number => numberExpr operand
  | .only .boolean => booleanExpr operand

end Forms

end Parser

end DynLisp
