import DynLisp.Proofs.Evaluation.Agreement
import DynLisp.Proofs.Evaluation.Calls
import Mathlib.Data.Set.Function

/-!
# The names that matter

Scoping is dynamic, so the body of a function sees whatever its callers have bound.  It looks only
at names that stand in it as variables, though.  An evaluation therefore depends on what is bound
only as far as names go that are mentioned in the expression or in the body of a function that the
expression reaches (`Expr.Mentions`).  What other names stand for makes no difference, nor how deep
the stacks are below their tops (`evaluate_relevant`).

The proof is about the rules, which see nothing of the stacks.  Two scopes that agree on some names
agree on them also when a call overrides both at its parameters (`Scope.override_eqOn`), whatever
the parameters are called.  So the rules go through with the one scope as they do with the other,
as long as nothing is evaluated that has other names in it (`Evaluates.congr`).
-/

namespace DynLisp

open DynLisp.Action

/-! ## Expressions with some names -/

/-- All variables in an expression are among some names, and all calls in it are of some
functions. -/
structure Expr.Within (N F : Set String) (e : Expr) : Prop where
  name : ∀ x ∈ e.names, x ∈ N
  callee : ∀ f ∈ e.callees, f ∈ F

section

variable {N F : Set String} {e : Expr}

theorem Expr.Within.of_mem_parts {e' : Expr} (h : e.Within N F) (he' : e' ∈ e.parts) :
    e'.Within N F :=
  ⟨fun x hx => h.name x (names_subset_of_mem he' hx),
    fun f hf => h.callee f (callees_subset_of_mem he' hf)⟩

theorem Expr.Within.operand (h : e.Within N F) : ∀ operand ∈ e.operands, operand.Within N F :=
  fun _ hoperand => h.of_mem_parts (mem_parts_of_mem_operands hoperand)

theorem Expr.Within.case {cases : List (Expr × Expr)} (h : (cond cases).Within N F) :
    ∀ c ∈ cases, c.1.Within N F ∧ c.2.Within N F :=
  fun _ hc => ⟨h.of_mem_parts (mem_parts_of_mem_cases hc).1,
    h.of_mem_parts (mem_parts_of_mem_cases hc).2⟩

/-- The bodies of some functions have only some names in them, and call only these functions. -/
def BodiesWithin (functions : List (String × Definition)) (N F : Set String) : Prop :=
  ∀ f ∈ F, ∀ definition, functions.lookup f = some definition → definition.body.Within N F

variable {functions : List (String × Definition)}

/-- Whatever is mentioned is among names that the expression and the bodies keep to. -/
theorem Expr.Within.mentions (h : e.Within N F) (hbodies : BodiesWithin functions N F) {x : String}
    (hx : e.Mentions functions x) : x ∈ N := by
  have hreaches : ∀ f, e.Reaches functions f → f ∈ F := by
    rintro f ⟨g, hg, hcalls⟩
    induction hcalls with
    | refl => exact h.callee g hg
    | tail _ hcall ih =>
      obtain ⟨definition, hlookup, hcallee⟩ := hcall
      exact (hbodies _ ih definition hlookup).callee _ hcallee
  rcases hx with hx | ⟨f, definition, hf, hlookup, hx⟩
  · exact h.name x hx
  · exact (hbodies f (hreaches f hf) definition hlookup).name x hx

/-- An expression keeps to the names that it mentions and to the functions that it reaches. -/
theorem Expr.within_mentions (functions : List (String × Definition)) (e : Expr) :
    e.Within {x | e.Mentions functions x} {f | e.Reaches functions f} :=
  ⟨fun _ hx => .inl hx, fun f hf => ⟨f, hf, .refl⟩⟩

theorem Expr.bodiesWithin_mentions (functions : List (String × Definition)) (e : Expr) :
    BodiesWithin functions {x | e.Mentions functions x} {f | e.Reaches functions f} := by
  intro f hf definition hlookup
  refine ⟨fun x hx => .inr ⟨f, definition, hf, hlookup, hx⟩, fun g hg => ?_⟩
  obtain ⟨first, hfirst, hcalls⟩ := hf
  exact ⟨first, hfirst, hcalls.tail ⟨definition, hlookup, hg⟩⟩

/-! ## Scopes that agree on some names -/

theorem Scope.override_eqOn {scope scope' : Scope} (h : Set.EqOn scope scope' N)
    (pairs : List (String × Value)) :
    Set.EqOn (scope.override pairs) (scope'.override pairs) N := by
  induction pairs generalizing scope scope' with
  | nil => exact h
  | cons pair pairs ih =>
    refine ih fun y hy => ?_
    rw [Function.update_apply, Function.update_apply, h hy]

mutual

/-- An expression ends alike in scopes that agree on the names which it keeps to. -/
theorem Evaluates.congr (hbodies : BodiesWithin functions N F) {limit : Nat} {scope : Scope}
    {e : Expr} {r : Except Fault Value} : Evaluates functions limit scope e r →
      ∀ {scope' : Scope}, e.Within N F → Set.EqOn scope scope' N →
        Evaluates functions limit scope' e r
  | .number, _, _, _ => .number
  | .boolean, _, _, _ => .boolean
  | .var h, _, he, hscope => .var ((hscope (he.name _ (Expr.mem_names_var _))).symm.trans h)
  | .unbound h, _, he, hscope =>
    .unbound ((hscope (he.name _ (Expr.mem_names_var _))).symm.trans h)
  | .arith h hop, _, he, hscope => .arith (h.congr hbodies he.operand hscope) hop
  | .arithRefused h hop, _, he, hscope => .arithRefused (h.congr hbodies he.operand hscope) hop
  | .arithFault h, _, he, hscope => .arithFault (h.congr hbodies he.operand hscope)
  | .logic h, _, he, hscope => .logic (h.congr hbodies he.operand hscope)
  | .logicFault h, _, he, hscope => .logicFault (h.congr hbodies he.operand hscope)
  | .unary h, _, he, hscope =>
    .unary (h.congr hbodies (he.operand _ (List.mem_singleton_self _)) hscope)
  | .unaryFault h, _, he, hscope =>
    .unaryFault (h.congr hbodies (he.operand _ (List.mem_singleton_self _)) hscope)
  | .compare h, _, he, hscope => .compare (h.congr hbodies he.operand hscope)
  | .compareFault h, _, he, hscope => .compareFault (h.congr hbodies he.operand hscope)
  | .cond h, _, he, hscope => .cond (h.congr hbodies he.case hscope)
  | .noMatchingCase h, _, he, hscope => .noMatchingCase (h.congr hbodies he.case hscope)
  | .argumentFault h, _, he, hscope => .argumentFault (h.congr hbodies he.operand hscope)
  | .call hs h, _, he, hscope =>
    .call (hs.congr hbodies he.operand hscope)
      (h.congr hbodies (he.callee _ (Expr.mem_callees_call _ _)) hscope)
  | .define, _, _, _ => .define
  | .case, _, _, _ => .case

theorem EvaluatesOperand.congr (hbodies : BodiesWithin functions N F) {limit : Nat} {scope : Scope}
    {misfit? : Value → Option Fault} {e : Expr} {r : Except Fault Value} :
    EvaluatesOperand functions limit scope misfit? e r →
      ∀ {scope' : Scope}, e.Within N F → Set.EqOn scope scope' N →
        EvaluatesOperand functions limit scope' misfit? e r
  | .value h hv, _, he, hscope => .value (h.congr hbodies he hscope) hv
  | .misfit h hv, _, he, hscope => .misfit (h.congr hbodies he hscope) hv
  | .fault h, _, he, hscope => .fault (h.congr hbodies he hscope)

theorem EvaluatesAll.congr (hbodies : BodiesWithin functions N F) {limit : Nat} {scope : Scope}
    {misfit? : Value → Option Fault} {es : List Expr} {r : Except Fault (List Value)} :
    EvaluatesAll functions limit scope misfit? es r →
      ∀ {scope' : Scope}, (∀ e ∈ es, e.Within N F) → Set.EqOn scope scope' N →
        EvaluatesAll functions limit scope' misfit? es r
  | .nil, _, _, _ => .nil
  | .cons h hs, _, hes, hscope =>
    .cons (h.congr hbodies (List.forall_mem_cons.1 hes).1 hscope)
      (hs.congr hbodies (List.forall_mem_cons.1 hes).2 hscope)
  | .first h, _, hes, hscope => .first (h.congr hbodies (List.forall_mem_cons.1 hes).1 hscope)
  | .later h hs, _, hes, hscope =>
    .later (h.congr hbodies (List.forall_mem_cons.1 hes).1 hscope)
      (hs.congr hbodies (List.forall_mem_cons.1 hes).2 hscope)

theorem EvaluatesCases.congr (hbodies : BodiesWithin functions N F) {limit : Nat} {scope : Scope}
    {cases : List (Expr × Expr)} {found : Option (Except Fault Value)} :
    EvaluatesCases functions limit scope cases found →
      ∀ {scope' : Scope}, (∀ c ∈ cases, c.1.Within N F ∧ c.2.Within N F) →
        Set.EqOn scope scope' N → EvaluatesCases functions limit scope' cases found
  | .nil, _, _, _ => .nil
  | .fault h, _, hcases, hscope =>
    .fault (h.congr hbodies (List.forall_mem_cons.1 hcases).1.1 hscope)
  | .holds h hr, _, hcases, hscope =>
    .holds (h.congr hbodies (List.forall_mem_cons.1 hcases).1.1 hscope)
      (hr.congr hbodies (List.forall_mem_cons.1 hcases).1.2 hscope)
  | .fails h hs, _, hcases, hscope =>
    .fails (h.congr hbodies (List.forall_mem_cons.1 hcases).1.1 hscope)
      (hs.congr hbodies (List.forall_mem_cons.1 hcases).2 hscope)

theorem EvaluatesCall.congr (hbodies : BodiesWithin functions N F) {limit : Nat} {scope : Scope}
    {f : String} {vs : List Value} {r : Except Fault Value} :
    EvaluatesCall functions limit scope f vs r →
      ∀ {scope' : Scope}, f ∈ F → Set.EqOn scope scope' N →
        EvaluatesCall functions limit scope' f vs r
  | .undefined h, _, _, _ => .undefined h
  | .wrongArity h hne, _, _, _ => .wrongArity h hne
  | .body h heq hbody, _, hf, hscope =>
    .body h heq (hbody.congr hbodies (hbodies _ hf _ h) (Scope.override_eqOn hscope _))

end

end

/-! ## Evaluations -/

/-- Actions that mean the same, in whatever scope each of them is taken, have the same outcome. -/
theorem Means.outcome_eq {α : Type} {functions : List (String × Definition)} {scope scope' : Scope}
    {act act' : Action α} {J J' : Except Fault α → Prop} (h : Means functions scope act J)
    (h' : Means functions scope' act' J') (hJ : ∀ r, J r ↔ J' r) {env env' : Environment}
    (hfunctions : env.functions = functions) (hfunctions' : env'.functions = functions)
    (hscope : env.scope = scope) (hscope' : env'.scope = scope') :
    act.outcome env = act'.outcome env' := by
  obtain ⟨o, ho, hr⟩ := h env hfunctions hscope
  obtain ⟨o', ho', hr'⟩ := h' env' hfunctions' hscope'
  have hsame : o = o' := Option.ext fun r => (hr r).trans ((hJ r).trans (hr' r).symm)
  rw [ho, ho', hsame]

/-- **Only what can be mentioned matters.**  If two environments have the same functions, and each
name that stands as a variable in an expression, or in the body of a function that the expression
reaches through calls, stands for the same value in both or for none in both, then the expression
ends in the same value or failure in both. -/
theorem evaluate_relevant [Machine] (e : Expr) (env env' : Environment)
    (hfunctions : env'.functions = env.functions)
    (hmentioned : ∀ x, e.Mentions env.functions x →
      env'.bindings.lookup? x = env.bindings.lookup? x) (limit : Nat) :
    (evaluate limit e).outcome env' = (evaluate limit e).outcome env := by
  have hwithin := e.within_mentions env.functions
  have hbodies := e.bodiesWithin_mentions env.functions
  have hscope : Set.EqOn env'.scope env.scope {x | e.Mentions env.functions x} := hmentioned
  have hagree : ∀ r, Evaluates env.functions limit env'.scope e r ↔
      Evaluates env.functions limit env.scope e r :=
    fun r => ⟨fun h => h.congr hbodies hwithin hscope, fun h => h.congr hbodies hwithin hscope.symm⟩
  exact (means_evaluate env.functions env'.scope limit e).outcome_eq
    (means_evaluate env.functions env.scope limit e) hagree hfunctions rfl rfl rfl

/-- `(f 5)` calls `(g)`, which is `(+ x y)`.  In the second environment the stacks are deeper and
one more name is bound; what `x` stands for is shadowed in both. -/
theorem evaluate_relevant_shadowed :
    let _ : Machine := .ofCalls 2
    let functions : List (String × Definition) :=
      [("g", ⟨[], .arith .add (.var "x") (.var "y")⟩), ("f", ⟨["x"], .call "g" []⟩)]
    let e : Expr := .call "f" [.number 5]
    let env : Environment :=
      ⟨⟨[("x", [.boolean true]), ("y", [.number 7])], by decide⟩, functions, []⟩
    let env' : Environment :=
      ⟨⟨[("w", [.number 0]), ("y", [.number 7, .boolean false]),
        ("x", [.boolean true, .number 2])], by decide⟩, functions, []⟩
    env'.functions = env.functions ∧
      (∀ x, e.Mentions env.functions x → env'.bindings.lookup? x = env.bindings.lookup? x) ∧
      (evaluate 2 e).outcome env' = .ok (.number 12) := by
  intro _ functions e env env'
  have hwithin : e.Within {x | x ∈ ["x", "y"]} {f | f ∈ ["f", "g"]} :=
    ⟨show ∀ x ∈ e.names, x ∈ ["x", "y"] by decide, show ∀ f ∈ e.callees, f ∈ ["f", "g"] by decide⟩
  have hbodies : BodiesWithin functions {x | x ∈ ["x", "y"]} {f | f ∈ ["f", "g"]} := by
    have hlist : ∀ f ∈ ["f", "g"], ∀ definition ∈ functions.lookup f,
        (∀ x ∈ definition.body.names, x ∈ ["x", "y"]) ∧
          ∀ g ∈ definition.body.callees, g ∈ ["f", "g"] := by decide
    exact fun f hf definition hlookup =>
      ⟨(hlist f hf definition hlookup).1, (hlist f hf definition hlookup).2⟩
  have hmentioned : ∀ x, e.Mentions env.functions x →
      env'.bindings.lookup? x = env.bindings.lookup? x := by
    have hlist : ∀ x ∈ ["x", "y"], env'.bindings.lookup? x = env.bindings.lookup? x := by decide
    exact fun x hx => hlist x (hwithin.mentions hbodies hx)
  exact ⟨rfl, hmentioned, (evaluate_relevant e env env' rfl hmentioned 2).trans rfl⟩

end DynLisp
