import DynLisp.Proofs.Evaluation.Restored
import Mathlib.Data.List.Basic
import Mathlib.Logic.Relation

/-!
# Evaluations that are started by others

`Enters` relates the evaluation of an expression to the evaluations that it starts itself: of its
operands and arguments, of the conditions of a conditional up to the first that is true and of the
result of that case, and of the body of the function that is called, with the arguments bound.  The
evaluations on the way of another one, at whatever depth, are those reached in any number of such
steps.

An evaluation that is started is one of a part of the expression, or it is allowed one call less.
So there is no way on for ever (`wellFounded_enters`), and properties of evaluations can be proved
by induction along the ways.  The functions are the same all along (`Enters.functions`).
-/

namespace DynLisp

open DynLisp.Action

/-! ## Calls -/

/-- What a call does, with at most `limit` calls active inside of the expression that makes it. -/
def calls [Machine] : Nat → String → List Value → Action Value
  | 0 => callWith (Machine.kept 0) fun _ => throw .depthExceeded
  | limit + 1 => callWith (Machine.kept (limit + 1)) (evaluate limit)

theorem evaluate_eq [Machine] (limit : Nat) (e : Expr) :
    evaluate limit e = evaluateWith (calls limit) e := by
  cases limit <;> rfl

theorem restores_calls [Machine] (limit : Nat) (f : String) (vs : List Value) :
    (calls limit f vs).Restores := by
  cases limit with
  | zero => exact restores_callWith (fun _ => restores_throw .depthExceeded) 0 f vs
  | succ limit => exact restores_callWith (restores_evaluate limit) (limit + 1) f vs

section

variable {f : String} {vs : List Value} {env : Environment} {definition : Definition}

theorem function_of_none (h : env.functions.lookup f = none) :
    Environment.function f env = .error (Fault.undefinedFunction f).failure env := by
  rw [Environment.function, run_get_bind, h]
  rfl

theorem function_of_some (h : env.functions.lookup f = some definition) :
    Environment.function f env = .ok definition env := by
  rw [Environment.function, run_get_bind, h]
  rfl

theorem resolveCall_of_none (h : env.functions.lookup f = none) :
    resolveCall f vs env = .error (Fault.undefinedFunction f).failure env := by
  rw [resolveCall]
  exact run_bind_of_error _ (function_of_none h)

theorem resolveCall_of_length_ne (h : env.functions.lookup f = some definition)
    (hne : vs.length ≠ definition.params.length) :
    resolveCall f vs env =
      .error (Fault.wrongArity f definition.params.length vs.length).failure env := by
  rw [resolveCall, run_bind_of_ok _ (function_of_some h), if_pos hne]
  rfl

theorem resolveCall_of_length (h : env.functions.lookup f = some definition)
    (hlength : vs.length = definition.params.length) :
    resolveCall f vs env =
      .ok definition (env.noted (.calling f (definition.params.zip vs))) := by
  rw [resolveCall, run_bind_of_ok _ (function_of_some h), if_neg (not_not.2 hlength)]
  rfl

theorem lookup_of_resolveCall {env' : Environment}
    (h : resolveCall f vs env = .ok definition env') :
    env.functions.lookup f = some definition := by
  cases hf : env.functions.lookup f with
  | none =>
    rw [resolveCall_of_none hf] at h
    cases h
  | some found =>
    by_cases hlength : vs.length = found.params.length
    · rw [resolveCall_of_length hf hlength] at h
      cases h
      rfl
    · rw [resolveCall_of_length_ne hf hlength] at h
      cases h

end

/-! ## Steps -/

/-- An evaluation of an expression: the number of calls that may be active inside of it, and the
environment that it starts in. -/
structure Evaluation where
  limit : Nat
  environment : Environment
  expr : Expr

namespace Evaluation

/-- What an evaluation ends in. -/
def outcome [Machine] (c : Evaluation) : Except Failure Value :=
  (evaluate c.limit c.expr).outcome c.environment

end Evaluation

/-- The expressions that a form evaluates from the left. -/
def Expr.operands : Expr → List Expr
  | .arith _ l r => [l, r]
  | .logic _ l r => [l, r]
  | .unary _ e => [e]
  | .compare _ l r => [l, r]
  | .call _ args => args
  | _ => []

/-- Whether a form goes on after an operand with a value. -/
def Expr.Takes : Expr → Value → Prop
  | .arith .., v => v.kind = .number
  | .compare .., v => v.kind = .number
  | .logic .., v => v.kind = .boolean
  | .unary .., v => v.kind = .boolean
  | _, _ => True

/-- An evaluation starts another one itself. -/
inductive Enters [Machine] : Evaluation → Evaluation → Prop
  | operand {limit : Nat} {env env' : Environment} {e operand : Expr} {before after : List Expr}
      {vs : List Value} :
      e.operands = before ++ operand :: after →
      evaluateAll (calls limit) before env = .ok vs env' → (∀ v ∈ vs, e.Takes v) →
      Enters ⟨limit, env, e⟩ ⟨limit, env', operand⟩
  | condition {limit : Nat} {env env' : Environment} {before after : List (Expr × Expr)}
      {condition result : Expr} :
      evaluateCases (calls limit) before env = .ok none env' →
      Enters ⟨limit, env, .cond (before ++ (condition, result) :: after)⟩ ⟨limit, env', condition⟩
  | result {limit : Nat} {env env' env'' : Environment} {before after : List (Expr × Expr)}
      {condition result : Expr} :
      evaluateCases (calls limit) before env = .ok none env' →
      evaluate limit condition env' = .ok (.boolean true) env'' →
      Enters ⟨limit, env, .cond (before ++ (condition, result) :: after)⟩ ⟨limit, env'', result⟩
  | body {limit : Nat} {env env' env'' : Environment} {f : String} {args : List Expr}
      {vs : List Value} {definition : Definition} :
      evaluateAll (calls (limit + 1)) args env = .ok vs env' →
      resolveCall f vs env' = .ok definition env'' →
      Enters ⟨limit + 1, env, .call f args⟩
        ⟨limit, env''.bound (definition.params.zip vs), definition.body⟩

/-! ## Ways -/

theorem Expr.sizeOf_of_mem_operands {e operand : Expr} (h : operand ∈ e.operands) :
    sizeOf operand < sizeOf e := by
  cases e with
  | arith op l r =>
    rw [arith.sizeOf_spec]
    rcases List.mem_pair.1 h with rfl | rfl <;> omega
  | logic op l r =>
    rw [logic.sizeOf_spec]
    rcases List.mem_pair.1 h with rfl | rfl <;> omega
  | unary op a =>
    rw [unary.sizeOf_spec]
    obtain rfl := List.mem_singleton.1 h
    omega
  | compare op l r =>
    rw [compare.sizeOf_spec]
    rcases List.mem_pair.1 h with rfl | rfl <;> omega
  | call f args =>
    rw [call.sizeOf_spec]
    have hlt := List.sizeOf_lt_of_mem (show operand ∈ args from h)
    omega
  | _ => cases h

theorem Expr.sizeOf_of_mem_cases {cases : List (Expr × Expr)} {condition result : Expr}
    (h : (condition, result) ∈ cases) :
    sizeOf condition < sizeOf (cond cases) ∧ sizeOf result < sizeOf (cond cases) := by
  have hlt := List.sizeOf_lt_of_mem h
  rw [Prod.mk.sizeOf_spec] at hlt
  rw [cond.sizeOf_spec]
  omega

/-- An evaluation that is started has a smaller expression, or it is allowed fewer calls. -/
theorem Enters.decreases [Machine] {c c' : Evaluation} (h : Enters c c') :
    c'.limit < c.limit ∨ c'.limit = c.limit ∧ sizeOf c'.expr < sizeOf c.expr := by
  cases h with
  | operand hoperands _ _ =>
    exact .inr ⟨rfl, Expr.sizeOf_of_mem_operands (hoperands ▸ List.mem_append_cons_self)⟩
  | condition _ => exact .inr ⟨rfl, (Expr.sizeOf_of_mem_cases List.mem_append_cons_self).1⟩
  | result _ _ => exact .inr ⟨rfl, (Expr.sizeOf_of_mem_cases List.mem_append_cons_self).2⟩
  | body _ _ => exact .inl (Nat.lt_succ_self _)

/-- Every way of evaluations comes to an end. -/
theorem wellFounded_enters [Machine] : WellFounded (Function.swap Enters) := by
  refine Subrelation.wf (fun {c' c} h => ?_)
    (InvImage.wf (fun c : Evaluation => (c.limit, sizeOf c.expr))
      (Prod.lex Nat.lt_wfRel Nat.lt_wfRel).wf)
  exact Prod.lex_def.2 h.decreases

theorem Enters.functions [Machine] {c c' : Evaluation} (h : Enters c c') :
    c'.environment.functions = c.environment.functions := by
  cases h with
  | operand _ hrun _ => exact ((restores_evaluateAll (restores_calls _) _).of_ok hrun).functions
  | condition hrun => exact ((restores_evaluateCases (restores_calls _) _).of_ok hrun).functions
  | result hrun hholds =>
    exact ((restores_evaluate _ _).of_ok hholds).functions.trans
      ((restores_evaluateCases (restores_calls _) _).of_ok hrun).functions
  | body hrun hresolve =>
    exact ((restores_resolveCall _ _).of_ok hresolve).functions.trans
      ((restores_evaluateAll (restores_calls _) _).of_ok hrun).functions

end DynLisp
