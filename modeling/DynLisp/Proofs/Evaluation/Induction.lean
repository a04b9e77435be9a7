import DynLisp.Evaluation

/-!
# What holds of every evaluation

An evaluation is put together from a few actions: it returns, fails, looks a variable or a function
up, gives a notice and binds parameters, one after the other.  A property of actions that these
have, and that the ways of putting them together keep, is `Evaluative`.  Every evaluation has such
a property (`Evaluative.evaluate`): the induction is on the number of calls that may be active, and
inside of it on the expression.
-/

namespace DynLisp

variable [Machine]

/-- A property of actions that evaluations are made of, and that the ways of putting them together
keep. -/
structure Evaluative (P : ∀ {α : Type}, Action α → Prop) : Prop where
  pure {α : Type} (a : α) : P (pure a)
  fault {α : Type} (fault : Fault) : P (throw fault.failure : Action α)
  depthExceeded {α : Type} : P (throw .depthExceeded : Action α)
  bind {α β : Type} {act : Action α} {f : α → Action β} :
    P act → (∀ a, P (f a)) → P (act >>= f)
  lookup (x : String) : P (Environment.lookup x)
  function (f : String) : P (Environment.function f)
  note (notice : Notice) : P (Environment.note notice)
  binding {α : Type} {body : Action α} (room : Nat) (pairs : List (String × Value)) :
    P body → P (Environment.binding (Machine.kept room) pairs body)

namespace Evaluative

variable {P : ∀ {α : Type}, Action α → Prop} (hP : Evaluative P)
include hP

theorem expectNumber (parent : Expr) (v : Value) : P (expectNumber parent v) := by
  cases v with
  | number n => exact hP.pure n
  | boolean b => exact hP.fault _

theorem expectBoolean (parent : Expr) (v : Value) : P (expectBoolean parent v) := by
  cases v with
  | number n => exact hP.fault _
  | boolean b => exact hP.pure b

/-! ## Expressions -/

section

variable {call : String → List Value → Action Value}

mutual

/-- An expression has the property if the calls in it have it. -/
theorem evaluateWith (hcall : ∀ f args, P (call f args)) : ∀ e, P (evaluateWith call e)
  | .number n => hP.pure _
  | .boolean b => hP.pure _
  | .arith op l r => by
    rw [DynLisp.evaluateWith]
    refine hP.bind (evaluateWith hcall l) fun v => ?_
    refine hP.bind (hP.expectNumber _ v) fun a => ?_
    refine hP.bind (evaluateWith hcall r) fun w => ?_
    refine hP.bind (hP.expectNumber _ w) fun b => ?_
    cases op.apply a b with
    | ok n => exact hP.pure _
    | error fault => exact hP.fault _
  | .logic op l r => by
    rw [DynLisp.evaluateWith]
    refine hP.bind (evaluateWith hcall l) fun v => ?_
    refine hP.bind (hP.expectBoolean _ v) fun a => ?_
    refine hP.bind (evaluateWith hcall r) fun w => ?_
    exact hP.bind (hP.expectBoolean _ w) fun b => hP.pure _
  | .unary op e => by
    rw [DynLisp.evaluateWith]
    refine hP.bind (evaluateWith hcall e) fun v => ?_
    exact hP.bind (hP.expectBoolean _ v) fun a => hP.pure _
  | .compare op l r => by
    rw [DynLisp.evaluateWith]
    refine hP.bind (evaluateWith hcall l) fun v => ?_
    refine hP.bind (hP.expectNumber _ v) fun a => ?_
    refine hP.bind (evaluateWith hcall r) fun w => ?_
    exact hP.bind (hP.expectNumber _ w) fun b => hP.pure _
  | .cond cases => by
    rw [DynLisp.evaluateWith]
    refine hP.bind (evaluateCases hcall cases) fun found => ?_
    cases found with
    | none => exact hP.fault _
    | some v => exact hP.pure v
  | .var x => hP.lookup x
  | .call f args => by
    rw [DynLisp.evaluateWith]
    exact hP.bind (evaluateAll hcall args) (hcall f)
  | .define _ _ _ => hP.fault _
  | .case _ _ => hP.fault _

theorem evaluateAll (hcall : ∀ f args, P (call f args)) : ∀ es, P (evaluateAll call es)
  | [] => hP.pure _
  | e :: es => by
    rw [DynLisp.evaluateAll]
    refine hP.bind (evaluateWith hcall e) fun v => ?_
    exact hP.bind (evaluateAll hcall es) fun vs => hP.pure _

theorem evaluateCases (hcall : ∀ f args, P (call f args)) : ∀ cases, P (evaluateCases call cases)
  | [] => hP.pure _
  | (condition, result) :: cases => by
    rw [DynLisp.evaluateCases]
    refine hP.bind (evaluateWith hcall condition) fun v => ?_
    refine hP.bind (hP.expectBoolean _ v) fun holds => ?_
    cases holds with
    | true => exact hP.bind (evaluateWith hcall result) fun w => hP.pure _
    | false => exact evaluateCases hcall cases

end

end

/-! ## Calls -/

theorem resolveCall (f : String) (args : List Value) : P (resolveCall f args) := by
  refine hP.bind (hP.function f) fun definition => ?_
  have hnoted : P (do
      Environment.note (.calling f (definition.params.zip args))
      return definition) :=
    hP.bind (hP.note _) fun _ => hP.pure _
  by_cases h : args.length ≠ definition.params.length
  · rw [if_pos h]
    exact hP.bind (hP.fault _) fun _ => hnoted
  · rw [if_neg h]
    exact hnoted

theorem callWith {body : Expr → Action Value} (hbody : ∀ e, P (body e)) (room : Nat) (f : String)
    (args : List Value) : P (callWith (Machine.kept room) body f args) :=
  hP.bind (hP.resolveCall f args) fun definition => hP.binding room _ (hbody definition.body)

/-- Every evaluation has the property. -/
theorem evaluate (limit : Nat) (e : Expr) : P (evaluate limit e) := by
  induction limit generalizing e with
  | zero => exact hP.evaluateWith (hP.callWith (fun _ => hP.depthExceeded) 0) e
  | succ limit ih => exact hP.evaluateWith (hP.callWith ih (limit + 1)) e

end Evaluative

end DynLisp
