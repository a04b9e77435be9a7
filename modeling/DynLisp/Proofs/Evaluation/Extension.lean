import DynLisp.Proofs.Environment.Extension
import DynLisp.Proofs.Evaluation.Restored

/-!
# Evaluation with more functions

An evaluation asks for a function by its name and for nothing else that the functions are.  So in an
environment that extends another one it takes the same course, up to the first call of a function
that only the larger environment has: there, and nowhere else, the two part
(`outcome_evaluate_of_extended`).  In particular the order of the functions does not matter
(`outcome_evaluate_congr`).

That actions go on alike after a first part which did not part them needs that this part has left
both environments as it found them.  Hence the two properties are carried through evaluation
together (`evaluative_persists`).
-/

namespace DynLisp

open DynLisp.Action Environment

namespace Action

variable {α β : Type}

/-- The action fails for want of a function that the second environment has. -/
def Misses (act : Action α) (env env' : Environment) : Prop :=
  ∃ f, act.outcome env = .error (Fault.undefinedFunction f).failure ∧
    env.functions.lookup f = none ∧ env'.functions.lookup f ≠ none

/-- In an extended environment the action has the outcome that it has without the extension, unless
it misses a function there. -/
def Persists (act : Action α) : Prop :=
  ∀ env env', Extended env env' → act.outcome env' = act.outcome env ∨ act.Misses env env'

/-- The outcome of the action is the same in all environments. -/
theorem persists_of_const {act : Action α} {r : Except Failure α}
    (h : ∀ env, act.outcome env = r) : Persists act :=
  fun env env' _ => .inl ((h env').trans (h env).symm)

theorem Persists.bind [Machine] {act : Action α} {f : α → Action β} (hrestores : act.Restores)
    (hact : act.Persists) (hf : ∀ a, (f a).Persists) : Persists (act >>= f) := by
  intro env env' henv
  rw [outcome_bind]
  rcases hact env env' henv with heq | ⟨g, hfault, hg, hg'⟩
  · rw [heq]
    cases hout : act.outcome env with
    | error failure =>
      refine .inl ?_
      rw [outcome_bind, hout]
    | ok a =>
      have hafter := henv.restored (hrestores.of_outcome hout)
        (hrestores.of_outcome (heq.trans hout))
      rcases hf a _ _ hafter with hsame | ⟨g, hfault, hg, hg'⟩
      · refine .inl ?_
        rw [outcome_bind, hout]
        exact hsame
      · refine .inr ⟨g, ?_, ?_, ?_⟩
        · rw [outcome_bind, hout]
          exact hfault
        · rwa [hrestores.functions env] at hg
        · rwa [hrestores.functions env'] at hg'
  · refine .inr ⟨g, ?_, hg, hg'⟩
    rw [outcome_bind, hfault]

end Action

namespace Environment

theorem persists_lookup (x : String) : (lookup x).Persists := by
  intro env env' henv
  exact .inl (by rw [outcome_lookup, outcome_lookup, henv.scope])

theorem persists_function (f : String) : (function f).Persists := by
  intro env env' henv
  rw [Action.Misses, outcome_function, outcome_function]
  cases hf : env.functions.lookup f with
  | some definition => exact .inl (by rw [henv.functions f definition hf])
  | none =>
    cases hf' : env'.functions.lookup f with
    | none => exact .inl rfl
    | some definition => exact .inr ⟨f, rfl, hf, by simp [hf']⟩

/-- Values are bound in both environments alike. -/
theorem persists_binding [Machine] {α : Type} {body : Action α} (hrestores : body.Restores)
    (hbody : body.Persists) (kept : Nat) (pairs : List (String × Value)) :
    (binding kept pairs body).Persists := by
  intro env env' henv
  rw [Action.Misses, outcome_binding_of_restores hrestores,
    outcome_binding_of_restores hrestores]
  exact hbody _ _ (henv.bound pairs)

end Environment

variable [Machine]

theorem evaluative_persists : Evaluative fun act => act.Restores ∧ act.Persists where
  pure a := ⟨restores_pure a, persists_of_const fun _ => rfl⟩
  fault fault := ⟨restores_throw fault.failure, persists_of_const fun _ => rfl⟩
  depthExceeded := ⟨restores_throw .depthExceeded, persists_of_const fun _ => rfl⟩
  bind hact hf := ⟨hact.1.bind fun a => (hf a).1, hact.2.bind hact.1 fun a => (hf a).2⟩
  lookup x := ⟨restores_lookup x, persists_lookup x⟩
  function f := ⟨restores_function f, persists_function f⟩
  note notice := ⟨restores_note notice, persists_of_const fun _ => rfl⟩
  binding room pairs hbody :=
    ⟨restores_binding hbody.1 room pairs, persists_binding hbody.1 hbody.2 _ pairs⟩

/-- With more functions an evaluation ends as it does without them, unless it ends there because one
of them is missing. -/
theorem outcome_evaluate_of_extended {env env' : Environment} (h : Extended env env') (limit : Nat)
    (e : Expr) :
    (evaluate limit e).outcome env' = (evaluate limit e).outcome env ∨
      (evaluate limit e).Misses env env' :=
  (evaluative_persists.evaluate limit e).2 env env' h

/-- How the functions are kept does not matter to an evaluation. -/
theorem outcome_evaluate_congr {env env' : Environment} (hscope : env'.scope = env.scope)
    (hfunctions : ∀ f, env'.functions.lookup f = env.functions.lookup f) (limit : Nat) (e : Expr) :
    (evaluate limit e).outcome env' = (evaluate limit e).outcome env := by
  have hextended : Extended env env' :=
    ⟨hscope, fun f definition hf => (hfunctions f).trans hf⟩
  refine (outcome_evaluate_of_extended hextended limit e).resolve_right ?_
  rintro ⟨f, -, hnone, hsome⟩
  exact hsome ((hfunctions f).trans hnone)

/-- Nor do the notices that were given. -/
theorem outcome_evaluate_noted (env : Environment) (notice : Notice) (limit : Nat) (e : Expr) :
    (evaluate limit e).outcome (env.noted notice) = (evaluate limit e).outcome env :=
  @outcome_evaluate_congr _ env (env.noted notice) rfl (fun _ => rfl) limit e

end DynLisp
