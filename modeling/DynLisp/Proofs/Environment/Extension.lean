import DynLisp.Proofs.Environment.Scope

/-!
# Environments with more functions

A definition is put to the end of the functions, and only if there is none of its name yet
(`Environment.define_of_none`, `Environment.define_of_defined`).  So whatever is done to an
environment, the functions that it has stay what they are: later environments extend it.

`Extended env env'` says this without a word about how functions are kept.  Names stand for the same
values in both, and a function of `env` is the same function in `env'`.
-/

namespace DynLisp
namespace Environment

open DynLisp.Action

/-! ## Definitions -/

theorem lookup_eq_none_iff {functions : List (String × Definition)} {f : String} :
    functions.lookup f = none ↔ f ∉ functions.map Prod.fst := by
  rw [List.lookup_eq_none_iff, List.mem_map, not_exists]
  exact forall_congr' fun entry => by rw [not_and, bne_iff_ne, ne_comm]

/-- Where no function is defined twice, its definition is the one that there is. -/
theorem lookup_eq_some_iff {functions : List (String × Definition)} {f : String}
    {definition : Definition} (hdistinct : (functions.map Prod.fst).Nodup) :
    functions.lookup f = some definition ↔ (f, definition) ∈ functions := by
  rw [List.lookup_eq_some_iff]
  constructor
  · rintro ⟨before, after, rfl, -⟩
    exact List.mem_append_cons_self
  · intro hmem
    obtain ⟨before, after, rfl⟩ := List.append_of_mem hmem
    refine ⟨before, after, rfl, fun entry hentry => ?_⟩
    rw [List.map_append, List.map_cons, List.nodup_append] at hdistinct
    rw [bne_iff_ne]
    exact (hdistinct.2.2 _ (List.mem_map_of_mem hentry) _ List.mem_cons_self).symm

/-- Where no function is defined twice, the order of the definitions does not matter. -/
theorem lookup_perm {functions functions' : List (String × Definition)}
    (hperm : functions.Perm functions') (hdistinct : (functions.map Prod.fst).Nodup) (f : String) :
    functions.lookup f = functions'.lookup f := by
  have hdistinct' := (hperm.map Prod.fst).nodup_iff.1 hdistinct
  ext definition
  rw [lookup_eq_some_iff hdistinct, lookup_eq_some_iff hdistinct', hperm.mem_iff]

/-- The environment in which a function is defined after all others. -/
def withFunction (env : Environment) (f : String) (definition : Definition) : Environment :=
  { env with functions := env.functions ++ [(f, definition)] }

@[simp] theorem withFunction_functions (env : Environment) (f : String) (definition : Definition) :
    (env.withFunction f definition).functions = env.functions ++ [(f, definition)] := rfl

/-- A name without a function is defined. -/
theorem define_of_none {env : Environment} {f : String} (params : List String) (body : Expr)
    (h : env.functions.lookup f = none) :
    define (.define f params body) env =
      .ok () ((env.withFunction f ⟨params, body⟩).noted (.defined f params)) := by
  rw [define, run_get_bind, h]
  rfl

/-- A name that has a function keeps it, and nothing changes. -/
theorem define_of_defined {env : Environment} {f : String} (params : List String) (body : Expr)
    (h : env.functions.lookup f ≠ none) :
    define (.define f params body) env = .error (Fault.alreadyDefined f).failure env := by
  have hsome : (env.functions.lookup f).isSome = true := Option.isSome_iff_ne_none.2 h
  rw [define, run_get_bind, hsome]
  rfl

/-! ## Extensions -/

/-- Names stand for the same values, and all functions are functions of the second environment. -/
structure Extended (env env' : Environment) : Prop where
  scope : env'.scope = env.scope
  functions : ∀ f definition, env.functions.lookup f = some definition →
    env'.functions.lookup f = some definition

theorem Extended.refl (env : Environment) : Extended env env := ⟨rfl, fun _ _ h => h⟩

theorem Extended.trans {env env' env'' : Environment} (h : Extended env env')
    (h' : Extended env' env'') : Extended env env'' :=
  ⟨h'.scope.trans h.scope, fun f definition hf => h'.functions f definition (h.functions f _ hf)⟩

/-- Notices are no part of what is restored. -/
theorem restored_notices (env : Environment) (notices : List Notice) :
    Restored env { env with notices } := ⟨rfl, .refl _⟩

theorem Restored.extended {env env' : Environment} (h : Restored env env') : Extended env env' :=
  ⟨h.scope, fun _ _ hf => by rwa [h.functions]⟩

theorem extended_withFunction (env : Environment) (f : String) (definition : Definition) :
    Extended env (env.withFunction f definition) := by
  refine ⟨rfl, fun g found hg => ?_⟩
  rw [withFunction_functions, List.lookup_append, hg, Option.some_or]

/-- An extension stays one while both environments are restored. -/
theorem Extended.restored {env env' after after' : Environment} (h : Extended env env')
    (hafter : Restored env after) (hafter' : Restored env' after') : Extended after after' := by
  refine ⟨hafter'.scope.trans (h.scope.trans hafter.scope.symm), fun f definition hf => ?_⟩
  rw [hafter.functions] at hf
  rw [hafter'.functions]
  exact h.functions f definition hf

theorem Extended.bound {env env' : Environment} (h : Extended env env')
    (pairs : List (String × Value)) : Extended (env.bound pairs) (env'.bound pairs) := by
  refine ⟨?_, h.functions⟩
  rw [scope_bound, scope_bound, h.scope]

end Environment
end DynLisp
