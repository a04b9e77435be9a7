import DynLisp.Environment
import DynLisp.Machine

/-!
# Evaluation

The value of an expression in an environment.  Operands are evaluated from the left, and each of
them, with its kind, is settled before the next is looked at; `&` and `|` evaluate both of theirs.
A conditional evaluates the conditions of its cases in order up to the first that is true, and then
the result of that case.  A call evaluates its arguments, finds the function, compares the number
of arguments with that of parameters, and evaluates the body with the parameters bound.

## Nested calls

Programs may call themselves forever.  `evaluate` therefore takes the number of calls that may be
active at the same time, and fails when one more is made.  It is defined in two steps.
`evaluateWith` evaluates an expression when it is told what a call does; it descends into the parts
of the expression.  `evaluate` ties the knot: what a call does is to evaluate the body of the
function with one call less.  How many bindings of a call stay when calls are nested too deeply is
told by the `Machine`, for the number of calls that are left.
-/

namespace DynLisp

/-- The number that a value is.  Anything else is the wrong kind of operand for `parent`. -/
def expectNumber (parent : Expr) : Value → Action Int
  | .number n => return n
  | v => throw (Fault.wrongKind .number v parent).failure

/-- The boolean that a value is.  Anything else is the wrong kind of operand for `parent`. -/
def expectBoolean (parent : Expr) : Value → Action Bool
  | .boolean b => return b
  | v => throw (Fault.wrongKind .boolean v parent).failure

section

variable (call : String → List Value → Action Value)

mutual

/-- The value of an expression, where `call` gives the values of calls. -/
def evaluateWith : Expr → Action Value
  | .number n => return .number n
  | .boolean b => return .boolean b
  | e@(.arith op l r) => do
    let a ← expectNumber e (← evaluateWith l)
    let b ← expectNumber e (← evaluateWith r)
    match op.apply a b with
    | .ok n => return .number n
    | .error fault => throw (Fault.arithmetic fault).failure
  | e@(.logic op l r) => do
    let a ← expectBoolean e (← evaluateWith l)
    let b ← expectBoolean e (← evaluateWith r)
    return .boolean (op.apply a b)
  | e@(.unary op operand) => do
    let a ← expectBoolean e (← evaluateWith operand)
    return .boolean (op.apply a)
  | e@(.compare op l r) => do
    let a ← expectNumber e (← evaluateWith l)
    let b ← expectNumber e (← evaluateWith r)
    return .boolean (op.apply a b)
  | e@(.cond cases) => do
    match ← evaluateCases cases with
    | some v => return v
    | none => throw (Fault.noMatchingCase e).failure
  | .var x => Environment.lookup x
  | .call f args => do
    call f (← evaluateAll args)
  | .define f _ _ => throw (Fault.definitionEvaluated f).failure
  | e@(.case _ _) => throw (Fault.notEvaluable e).failure

/-- The values of a list of expressions. -/
def evaluateAll : List Expr → Action (List Value)
  | [] => return []
  | e :: es => do
    let v ← evaluateWith e
    let vs ← evaluateAll es
    return v :: vs

/-- The value of the result of the first case whose condition is true, if there is such a case. -/
def evaluateCases : List (Expr × Expr) → Action (Option Value)
  | [] => return none
  | (condition, result) :: cases => do
    if ← expectBoolean (.case condition result) (← evaluateWith condition) then
      return some (← evaluateWith result)
    else
      evaluateCases cases

end

end

/-- The definition of the function that is called with some arguments, which must be as many as
its parameters. -/
def resolveCall (f : String) (args : List Value) : Action Definition := do
  let definition ← Environment.function f
  if args.length ≠ definition.params.length then
    throw (Fault.wrongArity f definition.params.length args.length).failure
  Environment.note (.calling f (definition.params.zip args))
  return definition

/-- The value of a call, where `body` gives the value of the function's body and `kept` bindings
stay when calls are nested too deeply. -/
def callWith (kept : Nat) (body : Expr → Action Value) (f : String) (args : List Value) :
    Action Value := do
  let definition ← resolveCall f args
  Environment.binding kept (definition.params.zip args) (body definition.body)

/-- The value of an expression, with at most `limit` calls active at the same time. -/
def evaluate [Machine] : Nat → Expr → Action Value
  | 0, e => evaluateWith (callWith (Machine.kept 0) fun _ => throw .depthExceeded) e
  | limit + 1, e => evaluateWith (callWith (Machine.kept (limit + 1)) (evaluate limit)) e

end DynLisp
