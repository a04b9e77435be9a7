import DynLisp.Environment
import Mathlib.Logic.Function.Basic

/-!
# The meaning of expressions

What an expression evaluates to, by rules that change nothing.  They need to know the functions and
what each name stands for, the `Scope`; a call hands on the scope of its caller, overridden at the
parameters, so that scoping is dynamic.

The rules fix the order of evaluation, and with it which of several faults is the one that is met.
Operands come from the left, and an operand is evaluated and its kind is checked before the next
one is looked at (`EvaluatesOperand`, `EvaluatesAll`).  `&` and `|` look at both of theirs.  Nothing
is evaluated after the first case whose condition is true (`EvaluatesCases`).  A call evaluates all
its arguments, then needs the function, then as many arguments as there are parameters, and then
evaluates the body (`EvaluatesCall`).

`Evaluates functions limit scope e r` says that `e` ends in `r` with at most `limit` calls active
at the same time.  The number is an upper bound and enters no result (`Evaluates.mono`); without a
bound that is large enough there is no result.
-/

namespace DynLisp

/-- What names stand for. -/
abbrev Scope := String → Option Value

/-- A scope in which some names stand for other values.  Of two values for a name the later
counts. -/
def Scope.override (scope : Scope) : List (String × Value) → Scope
  | [] => scope
  | (x, v) :: pairs => Scope.override (Function.update scope x (some v)) pairs

/-- What is wrong with a value where an operand of some kind is needed. -/
def ValueKind.misfit? (wanted : ValueKind) (parent : Expr) (v : Value) : Option Fault :=
  if v.kind = wanted then none else some (.wrongKind wanted v parent)

theorem ValueKind.misfit?_eq_some_iff {wanted : ValueKind} {parent : Expr} {v : Value}
    {fault : Fault} :
    wanted.misfit? parent v = some fault ↔
      v.kind ≠ wanted ∧ .wrongKind wanted v parent = fault := by
  rw [misfit?, ite_eq_iff]
  simp

variable (functions : List (String × Definition))

mutual

/-- An expression ends in a value or a fault. -/
inductive Evaluates : Nat → Scope → Expr → Except Fault Value → Prop
  | number {limit : Nat} {scope : Scope} {n : Int} :
      Evaluates limit scope (.number n) (.ok (.number n))
  | boolean {limit : Nat} {scope : Scope} {b : Bool} :
      Evaluates limit scope (.boolean b) (.ok (.boolean b))
  | var {limit : Nat} {scope : Scope} {x : String} {v : Value} :
      scope x = some v → Evaluates limit scope (.var x) (.ok v)
  | unbound {limit : Nat} {scope : Scope} {x : String} :
      scope x = none → Evaluates limit scope (.var x) (.error (.unboundVariable x))
  | arith {limit : Nat} {scope : Scope} {op : ArithOp} {l r : Expr} {a b n : Int} :
      EvaluatesAll limit scope (ValueKind.number.misfit? (.arith op l r)) [l, r]
        (.ok [.number a, .number b]) → op.apply a b = .ok n →
      Evaluates limit scope (.arith op l r) (.ok (.number n))
  | arithRefused {limit : Nat} {scope : Scope} {op : ArithOp} {l r : Expr} {a b : Int}
      {fault : ArithmeticFault} :
      EvaluatesAll limit scope (ValueKind.number.misfit? (.arith op l r)) [l, r]
        (.ok [.number a, .number b]) → op.apply a b = .error fault →
      Evaluates limit scope (.arith op l r) (.error (.arithmetic fault))
  | arithFault {limit : Nat} {scope : Scope} {op : ArithOp} {l r : Expr} {fault : Fault} :
      EvaluatesAll limit scope (ValueKind.number.misfit? (.arith op l r)) [l, r] (.error fault) →
      Evaluates limit scope (.arith op l r) (.error fault)
  | logic {limit : Nat} {scope : Scope} {op : LogicOp} {l r : Expr} {a b : Bool} :
      EvaluatesAll limit scope (ValueKind.boolean.misfit? (.logic op l r)) [l, r]
        (.ok [.boolean a, .boolean b]) →
      Evaluates limit scope (.logic op l r) (.ok (.boolean (op.apply a b)))
  | logicFault {limit : Nat} {scope : Scope} {op : LogicOp} {l r : Expr} {fault : Fault} :
      EvaluatesAll limit scope (ValueKind.boolean.misfit? (.logic op l r)) [l, r] (.error fault) →
      Evaluates limit scope (.logic op l r) (.error fault)
  | unary {limit : Nat} {scope : Scope} {op : UnaryOp} {e : Expr} {a : Bool} :
      EvaluatesOperand limit scope (ValueKind.boolean.misfit? (.unary op e)) e
        (.ok (.boolean a)) →
      Evaluates limit scope (.unary op e) (.ok (.boolean (op.apply a)))
  | unaryFault {limit : Nat} {scope : Scope} {op : UnaryOp} {e : Expr} {fault : Fault} :
      EvaluatesOperand limit scope (ValueKind.boolean.misfit? (.unary op e)) e (.error fault) →
      Evaluates limit scope (.unary op e) (.error fault)
  | compare {limit : Nat} {scope : Scope} {op : CompareOp} {l r : Expr} {a b : Int} :
      EvaluatesAll limit scope (ValueKind.number.misfit? (.compare op l r)) [l, r]
        (.ok [.number a, .number b]) →
      Evaluates limit scope (.compare op l r) (.ok (.boolean (op.apply a b)))
  | compareFault {limit : Nat} {scope : Scope} {op : CompareOp} {l r : Expr} {fault : Fault} :
      EvaluatesAll limit scope (ValueKind.number.misfit? (.compare op l r)) [l, r]
        (.error fault) →
      Evaluates limit scope (.compare op l r) (.error fault)
  | cond {limit : Nat} {scope : Scope} {cases : List (Expr × Expr)} {r : Except Fault Value} :
      EvaluatesCases limit scope cases (some r) → Evaluates limit scope (.cond cases) r
  | noMatchingCase {limit : Nat} {scope : Scope} {cases : List (Expr × Expr)} :
      EvaluatesCases limit scope cases none →
      Evaluates limit scope (.cond cases) (.error (.noMatchingCase (.cond cases)))
  | argumentFault {limit : Nat} {scope : Scope} {f : String} {args : List Expr} {fault : Fault} :
      EvaluatesAll limit scope (fun _ => none) args (.error fault) →
      Evaluates limit scope (.call f args) (.error fault)
  | call {limit : Nat} {scope : Scope} {f : String} {args : List Expr} {vs : List Value}
      {r : Except Fault Value} :
      EvaluatesAll limit scope (fun _ => none) args (.ok vs) →
      EvaluatesCall limit scope f vs r → Evaluates limit scope (.call f args) r
  | define {limit : Nat} {scope : Scope} {f : String} {params : List String} {body : Expr} :
      Evaluates limit scope (.define f params body) (.error (.definitionEvaluated f))
  | case {limit : Nat} {scope : Scope} {condition result : Expr} :
      Evaluates limit scope (.case condition result)
        (.error (.notEvaluable (.case condition result)))

/-- An operand ends in a value with which nothing is wrong, or in a fault. -/
inductive EvaluatesOperand :
    Nat → Scope → (Value → Option Fault) → Expr → Except Fault Value → Prop
  | value {limit : Nat} {scope : Scope} {misfit? : Value → Option Fault} {e : Expr} {v : Value} :
      Evaluates limit scope e (.ok v) → misfit? v = none →
      EvaluatesOperand limit scope misfit? e (.ok v)
  | misfit {limit : Nat} {scope : Scope} {misfit? : Value → Option Fault} {e : Expr} {v : Value}
      {fault : Fault} :
      Evaluates limit scope e (.ok v) → misfit? v = some fault →
      EvaluatesOperand limit scope misfit? e (.error fault)
  | fault {limit : Nat} {scope : Scope} {misfit? : Value → Option Fault} {e : Expr}
      {fault : Fault} :
      Evaluates limit scope e (.error fault) →
      EvaluatesOperand limit scope misfit? e (.error fault)

/-- Operands end in their values, or in the first fault. -/
inductive EvaluatesAll :
    Nat → Scope → (Value → Option Fault) → List Expr → Except Fault (List Value) → Prop
  | nil {limit : Nat} {scope : Scope} {misfit? : Value → Option Fault} :
      EvaluatesAll limit scope misfit? [] (.ok [])
  | cons {limit : Nat} {scope : Scope} {misfit? : Value → Option Fault} {e : Expr}
      {es : List Expr} {v : Value} {vs : List Value} :
      EvaluatesOperand limit scope misfit? e (.ok v) →
      EvaluatesAll limit scope misfit? es (.ok vs) →
      EvaluatesAll limit scope misfit? (e :: es) (.ok (v :: vs))
  | first {limit : Nat} {scope : Scope} {misfit? : Value → Option Fault} {e : Expr}
      {es : List Expr} {fault : Fault} :
      EvaluatesOperand limit scope misfit? e (.error fault) →
      EvaluatesAll limit scope misfit? (e :: es) (.error fault)
  | later {limit : Nat} {scope : Scope} {misfit? : Value → Option Fault} {e : Expr}
      {es : List Expr} {v : Value} {fault : Fault} :
      EvaluatesOperand limit scope misfit? e (.ok v) →
      EvaluatesAll limit scope misfit? es (.error fault) →
      EvaluatesAll limit scope misfit? (e :: es) (.error fault)

/-- Cases end in what the first case with a true condition ends in, in the fault of a condition
before it, or in nothing if all conditions are false. -/
inductive EvaluatesCases :
    Nat → Scope → List (Expr × Expr) → Option (Except Fault Value) → Prop
  | nil {limit : Nat} {scope : Scope} : EvaluatesCases limit scope [] none
  | fault {limit : Nat} {scope : Scope} {condition result : Expr} {cases : List (Expr × Expr)}
      {fault : Fault} :
      EvaluatesOperand limit scope (ValueKind.boolean.misfit? (.case condition result)) condition
        (.error fault) →
      EvaluatesCases limit scope ((condition, result) :: cases) (some (.error fault))
  | holds {limit : Nat} {scope : Scope} {condition result : Expr} {cases : List (Expr × Expr)}
      {r : Except Fault Value} :
      EvaluatesOperand limit scope (ValueKind.boolean.misfit? (.case condition result)) condition
        (.ok (.boolean true)) →
      Evaluates limit scope result r →
      EvaluatesCases limit scope ((condition, result) :: cases) (some r)
  | fails {limit : Nat} {scope : Scope} {condition result : Expr} {cases : List (Expr × Expr)}
      {found : Option (Except Fault Value)} :
      EvaluatesOperand limit scope (ValueKind.boolean.misfit? (.case condition result)) condition
        (.ok (.boolean false)) →
      EvaluatesCases limit scope cases found →
      EvaluatesCases limit scope ((condition, result) :: cases) found

/-- A call of a function with some values as arguments ends in what the body of the function ends
in, if there is such a function and it has as many parameters. -/
inductive EvaluatesCall : Nat → Scope → String → List Value → Except Fault Value → Prop
  | undefined {limit : Nat} {scope : Scope} {f : String} {vs : List Value} :
      functions.lookup f = none →
      EvaluatesCall limit scope f vs (.error (.undefinedFunction f))
  | wrongArity {limit : Nat} {scope : Scope} {f : String} {vs : List Value}
      {definition : Definition} :
      functions.lookup f = some definition → vs.length ≠ definition.params.length →
      EvaluatesCall limit scope f vs (.error (.wrongArity f definition.params.length vs.length))
  | body {limit : Nat} {scope : Scope} {f : String} {vs : List Value} {definition : Definition}
      {r : Except Fault Value} :
      functions.lookup f = some definition → vs.length = definition.params.length →
      Evaluates limit (scope.override (definition.params.zip vs)) definition.body r →
      EvaluatesCall (limit + 1) scope f vs r

end

variable {functions}

mutual

/-- A larger bound allows what a smaller one allows. -/
theorem Evaluates.mono {m : Nat} {scope : Scope} {e : Expr} {r : Except Fault Value} :
    Evaluates functions m scope e r → ∀ {n : Nat}, m ≤ n → Evaluates functions n scope e r
  | .number, _, _ => .number
  | .boolean, _, _ => .boolean
  | .var h, _, _ => .var h
  | .unbound h, _, _ => .unbound h
  | .arith h hop, _, hmn => .arith (h.mono hmn) hop
  | .arithRefused h hop, _, hmn => .arithRefused (h.mono hmn) hop
  | .arithFault h, _, hmn => .arithFault (h.mono hmn)
  | .logic h, _, hmn => .logic (h.mono hmn)
  | .logicFault h, _, hmn => .logicFault (h.mono hmn)
  | .unary h, _, hmn => .unary (h.mono hmn)
  | .unaryFault h, _, hmn => .unaryFault (h.mono hmn)
  | .compare h, _, hmn => .compare (h.mono hmn)
  | .compareFault h, _, hmn => .compareFault (h.mono hmn)
  | .cond h, _, hmn => .cond (h.mono hmn)
  | .noMatchingCase h, _, hmn => .noMatchingCase (h.mono hmn)
  | .argumentFault h, _, hmn => .argumentFault (h.mono hmn)
  | .call hs h, _, hmn => .call (hs.mono hmn) (h.mono hmn)
  | .define, _, _ => .define
  | .case, _, _ => .case

theorem EvaluatesOperand.mono {m : Nat} {scope : Scope} {misfit? : Value → Option Fault} {e : Expr}
    {r : Except Fault Value} : EvaluatesOperand functions m scope misfit? e r →
      ∀ {n : Nat}, m ≤ n → EvaluatesOperand functions n scope misfit? e r
  | .value h hv, _, hmn => .value (h.mono hmn) hv
  | .misfit h hv, _, hmn => .misfit (h.mono hmn) hv
  | .fault h, _, hmn => .fault (h.mono hmn)

theorem EvaluatesAll.mono {m : Nat} {scope : Scope} {misfit? : Value → Option Fault}
    {es : List Expr} {r : Except Fault (List Value)} : EvaluatesAll functions m scope misfit? es r →
      ∀ {n : Nat}, m ≤ n → EvaluatesAll functions n scope misfit? es r
  | .nil, _, _ => .nil
  | .cons h hs, _, hmn => .cons (h.mono hmn) (hs.mono hmn)
  | .first h, _, hmn => .first (h.mono hmn)
  | .later h hs, _, hmn => .later (h.mono hmn) (hs.mono hmn)

theorem EvaluatesCases.mono {m : Nat} {scope : Scope} {cases : List (Expr × Expr)}
    {found : Option (Except Fault Value)} : EvaluatesCases functions m scope cases found →
      ∀ {n : Nat}, m ≤ n → EvaluatesCases functions n scope cases found
  | .nil, _, _ => .nil
  | .fault h, _, hmn => .fault (h.mono hmn)
  | .holds h hr, _, hmn => .holds (h.mono hmn) (hr.mono hmn)
  | .fails h hs, _, hmn => .fails (h.mono hmn) (hs.mono hmn)

theorem EvaluatesCall.mono {m : Nat} {scope : Scope} {f : String} {vs : List Value}
    {r : Except Fault Value} : EvaluatesCall functions m scope f vs r →
      ∀ {n : Nat}, m ≤ n → EvaluatesCall functions n scope f vs r
  | .undefined h, _, _ => .undefined h
  | .wrongArity h hne, _, _ => .wrongArity h hne
  -- a body has one call less, under both bounds
  | .body .., 0, hmn => absurd hmn (Nat.not_succ_le_zero _)
  | .body h heq hbody, n + 1, hmn => .body h heq (hbody.mono (Nat.le_of_succ_le_succ hmn))

end

end DynLisp
