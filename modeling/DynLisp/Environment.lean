import DynLisp.Environment.Bindings
import DynLisp.Failure
import DynLisp.Notice

/-!
# Environments

What an evaluation can see and change: the bindings of the variables and the functions.  Scoping is
dynamic, so there is one environment, and a call binds its parameters in the environment of its
caller for as long as it lasts.

An `Action` changes an environment and ends in a result or a failure.  Both come with the
environment as it then is: what a computation did before it failed is not undone.  Bindings are
undone all the same, since `Environment.binding` takes back on every way out what it bound.  Only
where calls are nested too deeply there may be no room for that, and some of them stay.

Functions are kept in the order of their definitions, and no function is defined twice.
-/

namespace DynLisp

/-- What a function does: the names that its arguments are bound to and the expression that is
then evaluated. -/
structure Definition where
  params : List String
  body : Expr
  deriving DecidableEq, Repr, Inhabited

/-- Bindings, functions in the order of their definitions, and the notices given so far, the most
recent first. -/
structure Environment where
  bindings : Bindings
  functions : List (String × Definition)
  notices : List Notice
  deriving DecidableEq, Repr, Inhabited

/-- A computation in an environment. -/
abbrev Action := EStateM Failure Environment

namespace Environment

/-- The environment in which nothing is bound or defined. -/
def empty : Environment := ⟨.empty, [], []⟩

/-- An environment with some functions, in which nothing is bound. -/
def ofFunctions (functions : List (String × Definition)) : Environment := ⟨.empty, functions, []⟩

/-- Gives a notice. -/
def note (notice : Notice) : Action Unit :=
  modify fun env => { env with notices := notice :: env.notices }

/-! ## Functions -/

/-- The definition of a function. -/
def function (name : String) : Action Definition := do
  match (← get).functions.lookup name with
  | some definition => return definition
  | none => throw (Fault.undefinedFunction name).failure

/-- Adds the function that a tree defines. -/
def define : Expr → Action Unit
  | .define name params body => do
    if ((← get).functions.lookup name).isSome then
      throw (Fault.alreadyDefined name).failure
    modify fun env => { env with functions := env.functions ++ [(name, ⟨params, body⟩)] }
    note (.defined name params)
  | e => throw (Fault.definitionExpected e).failure

/-! ## Variables -/

/-- The value that a variable stands for. -/
def lookup (x : String) : Action Value := do
  match (← get).bindings.lookup? x with
  | some v => return v
  | none => throw (Fault.unboundVariable x).failure

/-- Binds a variable to a value. -/
def push (x : String) (v : Value) : Action Unit :=
  modify fun env => { env with bindings := env.bindings.push x v }

/-- Takes the value that a variable stands for from its stack. -/
def pop (x : String) : Action Value := do
  let (v, bindings) := (← get).bindings.pop x
  modify fun env => { env with bindings }
  match v with
  | some v => return v
  | none => throw .emptyStack

/-- Binds variables to values, in order. -/
def pushAll : List (String × Value) → Action Unit
  | [] => return
  | (x, v) :: pairs => do
    push x v
    pushAll pairs

/-- Takes a value from the stack of each variable, in order, up to the first that has none. -/
def popAll : List String → Action Unit
  | [] => return
  | x :: xs => do
    discard (pop x)
    popAll xs

/-- A computation, and after it another one on every way out, which is told the failure that the
first one ended in, if it failed.  If the second one fails, its failure is what remains. -/
def andFinally {α : Type} (body : Action α) (finish : Option Failure → Action Unit) : Action α :=
  fun env =>
    match body env with
    | .ok a env =>
      match finish none env with
      | .ok _ env => .ok a env
      | .error failure env => .error failure env
    | .error failure env =>
      match finish (some failure) env with
      | .ok _ env => .error failure env
      | .error failure env => .error failure env

/-- The names that are taken back on the way out of a block that has bound some names, in which
`kept` of them stay where calls are nested too deeply. -/
def released (kept : Nat) (names : List String) : Option Failure → List String
  | some .depthExceeded => names.drop kept
  | _ => names

/-- A computation during which variables are bound to values.  On the way out the bindings are
taken back in reverse order, except that the first `kept` of them stay where calls are nested too
deeply. -/
def binding {α : Type} (kept : Nat) (pairs : List (String × Value)) (body : Action α) :
    Action α := do
  pushAll pairs
  andFinally body fun failure => popAll (released kept (pairs.map Prod.fst) failure).reverse

/-! ## Inspection -/

/-- An environment with its variables and the names of its functions.  Each stack is written from
the bottom to the top. -/
def inspect (env : Environment) : String :=
  let listed := env.bindings.entries.map fun entry =>
    Quoted.write entry.1 ++ ": " ++ Listing.bracketed (entry.2.reverse.map Value.inspect)
  Listing.record "Environment"
    [("variables", "\x7b" ++ Listing.commas listed ++ "\x7d"),
      ("functions", Listing.bracketed (env.functions.map fun f => Quoted.write f.1))]

end Environment

end DynLisp
