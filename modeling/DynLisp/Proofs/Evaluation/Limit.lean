import DynLisp.Proofs.Evaluation.Agreement
import Mathlib.Data.List.Basic

/-!
# What the limit decides

The number of calls that may be active at the same time decides whether an evaluation gets to its
end and nothing else.  An evaluation that ends in a value or a fault within some limit ends in it
within every larger one: the limit is no part of what the rules say of an expression, it only bounds
how deeply they are applied, and so no failure for the depth of the calls is ever taken for another
one on the way out.

On a steady machine the environment is restored in the same way whether the limit was large enough
or not.  On any other one it is restored where the limit was large enough, and covered otherwise.
-/

namespace DynLisp

open DynLisp.Action

section

variable [Machine] (limit : Nat) (e : Expr) (env : Environment)

/-- An evaluation has a value or a fault, or its calls are nested too deeply. -/
theorem outcome_evaluate_cases :
    (∃ v, (evaluate limit e).outcome env = .ok v) ∨
      (∃ fault : Fault, (evaluate limit e).outcome env = .error fault.failure) ∨
        (evaluate limit e).outcome env = .error .depthExceeded := by
  obtain ⟨o, ho, -⟩ := means_evaluate env.functions env.scope limit e env rfl rfl
  rw [ho]
  rcases o with _ | (fault | v)
  · exact .inr (.inr rfl)
  · exact .inr (.inl ⟨fault, rfl⟩)
  · exact .inl ⟨v, rfl⟩

/-- What is settled within a limit is a result by the rules. -/
theorem exists_evaluates_of_ne (h : (evaluate limit e).outcome env ≠ .error .depthExceeded) :
    ∃ r, Evaluates env.functions limit env.scope e r ∧
      (evaluate limit e).outcome env = r.mapError Fault.failure := by
  have hmeans := means_evaluate env.functions env.scope limit e
  obtain ⟨r, hr⟩ := not_not.1 (mt (hmeans.outcome_depthExceeded_iff rfl rfl).2 h)
  exact ⟨r, hr, (hmeans.outcome_iff rfl rfl r).2 hr⟩

end

/-- A larger limit changes nothing that is settled within a smaller one. -/
theorem outcome_evaluate_of_le [Machine] {n m : Nat} (hle : n ≤ m) {e : Expr} {env : Environment}
    (h : (evaluate n e).outcome env ≠ .error .depthExceeded) :
    (evaluate m e).outcome env = (evaluate n e).outcome env := by
  obtain ⟨r, hr, hn⟩ := exists_evaluates_of_ne n e env h
  rw [hn]
  exact ((means_evaluate env.functions env.scope m e).outcome_iff rfl rfl r).2 (hr.mono hle)

/-- **A larger limit only settles what a smaller one left open.**  An evaluation that has a value or
a fault within a limit has the same one within a larger limit, and if its calls are nested too
deeply for the larger limit then they are for the smaller one.  Within any limit the functions are
afterwards what they were before, and no value that a name had is taken away.  Unless the calls were
nested too deeply, and on a steady machine always, all stacks are what they were before, in the same
order, except that names with an empty stack may disappear. -/
theorem evaluate_limit_mono [Machine] (e : Expr) (env : Environment) {n m : Nat} (hle : n ≤ m) :
    (∀ v, (evaluate n e).outcome env = .ok v → (evaluate m e).outcome env = .ok v) ∧
      (∀ fault : Fault, (evaluate n e).outcome env = .error fault.failure →
        (evaluate m e).outcome env = .error fault.failure) ∧
      ((evaluate m e).outcome env = .error .depthExceeded →
        (evaluate n e).outcome env = .error .depthExceeded) ∧
      ∀ limit,
        ((evaluate limit e).after env).functions = env.functions ∧
        (∀ x, env.bindings.stack x <:+ ((evaluate limit e).after env).bindings.stack x) ∧
        (Machine.Steady ∨ (evaluate limit e).outcome env ≠ .error .depthExceeded →
          Bindings.Pruned env.bindings.entries ((evaluate limit e).after env).bindings.entries ∧
          (∀ x, ((evaluate limit e).after env).bindings.stack x = env.bindings.stack x) ∧
          ((∀ entry ∈ env.bindings.entries, entry.2 ≠ []) →
            ((evaluate limit e).after env).bindings = env.bindings)) := by
  refine ⟨fun v hv => ?_, fun fault hfault => ?_, fun hm => ?_, fun limit => ?_⟩
  · rw [outcome_evaluate_of_le hle (by rw [hv]; rintro ⟨⟩), hv]
  · rw [outcome_evaluate_of_le hle (by rw [hfault]; rintro ⟨⟩), hfault]
  · by_contra hn
    rw [outcome_evaluate_of_le hle hn] at hm
    exact hn hm
  · have hrestores := restores_evaluate limit e
    refine ⟨hrestores.functions env, (hrestores.covered env).stack, fun h => ?_⟩
    have hrestored := hrestores.restored env h
    exact ⟨hrestored.pruned, hrestored.stack, hrestored.pruned.bindings_eq⟩

/-- `(f 1)`, where `(f x)` is `(g x)` and `(g y)` divides by zero, needs two calls: one leaves it
open, and with more than two it fails as with two.  The machine keeps the first binding of every
call that is nested too deeply. -/
theorem evaluate_limit_mono_division :
    let _ : Machine := ⟨7, fun _ => 1⟩
    let functions : List (String × Definition) :=
      [("g", ⟨["y"], .arith .div (.var "y") (.number 0)⟩), ("f", ⟨["x"], .call "g" [.var "x"]⟩)]
    let env : Environment := ⟨⟨[("x", [.boolean true])], by decide⟩, functions, []⟩
    2 ≤ 7 ∧ (∀ entry ∈ env.bindings.entries, entry.2 ≠ []) ∧
      (evaluate 1 (.call "f" [.number 1])).outcome env = .error .depthExceeded ∧
      (evaluate 7 (.call "f" [.number 1])).outcome env =
        .error (Fault.arithmetic (.divisionByZero 1)).failure ∧
      ((evaluate 7 (.call "f" [.number 1])).after env).bindings = env.bindings := by
  intro _ functions env
  have hne : ∀ entry ∈ env.bindings.entries, entry.2 ≠ [] := by decide
  obtain ⟨-, hfault, -, hafter⟩ :=
    evaluate_limit_mono (.call "f" [.number 1]) env (show 2 ≤ 7 by decide)
  have hseven : (evaluate 7 (.call "f" [.number 1])).outcome env =
      .error (Fault.arithmetic (.divisionByZero 1)).failure := hfault _ (by rfl)
  obtain ⟨-, -, hrestored⟩ := hafter 7
  obtain ⟨-, -, hbindings⟩ := hrestored (.inr (by rw [hseven]; rintro ⟨⟩))
  exact ⟨by decide, hne, by rfl, hseven, hbindings hne⟩

/-- A failed pop leaves a name with an empty stack behind.  A call that binds the name takes it away
with the value, and so the bindings after `(f 1)` are not the ones before. -/
theorem evaluate_limit_empty_stack :
    let _ : Machine := .ofCalls 2
    let env : Environment :=
      (Environment.pop "x").after (.ofFunctions [("f", ⟨["x"], .var "x"⟩)])
    env.bindings.entries = [("x", [])] ∧
      ∀ limit ∈ [1, 2], (evaluate limit (.call "f" [.number 1])).outcome env = .ok (.number 1) ∧
        ((evaluate limit (.call "f" [.number 1])).after env).bindings.entries = [] ∧
        ((evaluate limit (.call "f" [.number 1])).after env).bindings ≠ env.bindings := by
  intro _ env
  have hbefore : env.bindings.entries = [("x", [])] := by rfl
  refine ⟨hbefore, fun limit hlimit => ?_⟩
  have hrun : (evaluate limit (.call "f" [.number 1])).outcome env = .ok (.number 1) ∧
      ((evaluate limit (.call "f" [.number 1])).after env).bindings.entries = [] := by
    rcases List.mem_pair.1 hlimit with rfl | rfl
    · exact ⟨by rfl, by rfl⟩
    · exact ⟨by rfl, by rfl⟩
  refine ⟨hrun.1, hrun.2, fun heq => ?_⟩
  rw [heq, hbefore] at hrun
  cases hrun.2

end DynLisp
