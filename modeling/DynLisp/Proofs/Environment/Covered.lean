import DynLisp.Machine
import DynLisp.Proofs.Environment.Blocks
import Mathlib.Data.List.Infix

/-!
# Bindings that stay

Where calls are nested too deeply, a block may leave some of its bindings behind.  Then what was
bound before the block is bound still, below what has stayed (`Environment.Covered`).  So the blocks
around it find all the values that they have to take back, and no pop fails on this way out either:
a block ends as its body does, and covers what it was given if its body does
(`Environment.covered_binding`).

`Action.Restores` says of an action what it leaves on all ways out.  It restores the environment,
except that it may only cover it where calls are nested too deeply and the machine is not steady.
This composes along a bind, and a block has it if its body does.
-/

namespace DynLisp

namespace Environment

/-- The functions are as before, and each name has the values of before, perhaps below others. -/
structure Covered (before after : Environment) : Prop where
  functions : after.functions = before.functions
  stack (x : String) : before.bindings.stack x <:+ after.bindings.stack x

theorem Covered.refl (env : Environment) : Covered env env := ⟨rfl, fun _ => List.suffix_rfl⟩

theorem Covered.trans {env env' env'' : Environment} (h : Covered env env')
    (h' : Covered env' env'') : Covered env env'' :=
  ⟨h'.functions.trans h.functions, fun x => (h.stack x).trans (h'.stack x)⟩

theorem Restored.covered {before after : Environment} (h : Restored before after) :
    Covered before after :=
  ⟨h.functions, fun x => h.stack x ▸ List.suffix_rfl⟩

/-- What is bound anew comes on top. -/
theorem covered_bound (env : Environment) (pairs : List (String × Value)) :
    Covered env (env.bound pairs) := by
  refine ⟨rfl, fun x => ?_⟩
  induction pairs generalizing env with
  | nil => exact List.suffix_rfl
  | cons pair pairs ih =>
    obtain ⟨y, v⟩ := pair
    refine List.IsSuffix.trans ?_ (ih { env with bindings := env.bindings.push y v })
    show _ <:+ ((Bindings.pushEntry y v env.bindings.entries).lookup x).getD []
    rw [Bindings.stack_pushEntry]
    split
    · exact List.suffix_cons v _
    · exact List.suffix_rfl

/-- A block whose body covers what it was given ends as the body does, and covers what it was given
itself. -/
theorem covered_binding {α : Type} {body : Action α} {env : Environment} (kept : Nat)
    {pairs : List (String × Value)}
    (h : Covered (env.bound pairs) (body.after (env.bound pairs))) :
    Action.outcome (binding kept pairs body) env = body.outcome (env.bound pairs) ∧
      Covered env (Action.after (binding kept pairs body) env) := by
  have hdepth : ∀ x, env.bindings.depth x +
      (released kept (pairs.map Prod.fst) (body.failure? (env.bound pairs))).count x ≤
        (body.after (env.bound pairs)).bindings.depth x := by
    intro x
    have hbound : (env.bound pairs).bindings.depth x = _ :=
      Bindings.depth_pushAll env.bindings pairs x
    have hleft : (env.bound pairs).bindings.depth x ≤ _ := (h.stack x).length_le
    have hgone := count_released_le kept (pairs.map Prod.fst) (body.failure? (env.bound pairs)) x
    rw [Bindings.depth] at hleft ⊢
    rw [Bindings.depth, Bindings.depth] at hbound
    rw [Bindings.depth]
    omega
  obtain ⟨houtcome, hafter⟩ := binding_of_count_le fun x =>
    Nat.le_trans (Nat.le_add_left _ _) (hdepth x)
  refine ⟨houtcome, ?_⟩
  rw [hafter]
  refine ⟨h.functions, fun x => ?_⟩
  show env.bindings.stack x <:+ Bindings.stack (Bindings.unbind _ _) x
  rw [Bindings.stack_unbind]
  refine List.suffix_of_suffix_length_le (((covered_bound env pairs).stack x).trans (h.stack x))
    (List.drop_suffix _ _) ?_
  have hx := hdepth x
  rw [Bindings.depth, Bindings.depth] at hx
  rw [List.length_drop]
  omega

end Environment

/-! ## Actions that restore the environment -/

namespace Action

variable {α β : Type} [Machine]

/-- However the action ends, it leaves a restored environment, or one that covers the environment of
before, where calls are nested too deeply on a machine that is not steady. -/
structure Restores (act : Action α) : Prop where
  covered (env : Environment) : env.Covered (act.after env)
  restored (env : Environment) :
    Machine.Steady ∨ act.outcome env ≠ .error .depthExceeded → env.Restored (act.after env)

theorem Restores.of_forall {act : Action α} (h : ∀ env, Environment.Restored env (act.after env)) :
    Restores act :=
  ⟨fun env => (h env).covered, fun env _ => h env⟩

theorem restores_pure (a : α) : Restores (pure a) := .of_forall Environment.Restored.refl

theorem restores_throw (failure : Failure) : Restores (throw failure : Action α) :=
  .of_forall Environment.Restored.refl

theorem Restores.functions {act : Action α} (h : act.Restores) (env : Environment) :
    (act.after env).functions = env.functions :=
  (h.covered env).functions

theorem Restores.of_outcome {act : Action α} {env : Environment} {a : α} (h : act.Restores)
    (ha : act.outcome env = .ok a) : env.Restored (act.after env) :=
  h.restored env (.inr (by simp [ha]))

theorem Restores.of_ok {act : Action α} {env env' : Environment} {a : α} (h : act.Restores)
    (hrun : act env = .ok a env') : Environment.Restored env env' := by
  have hafter := h.of_outcome (outcome_of_ok hrun)
  rwa [after_of_ok hrun] at hafter

theorem Restores.bind {act : Action α} {f : α → Action β} (hact : act.Restores)
    (hf : ∀ a, (f a).Restores) : Restores (act >>= f) := by
  constructor
  · intro env
    rw [after_bind]
    cases act.outcome env with
    | ok a => exact (hact.covered env).trans ((hf a).covered _)
    | error failure => exact hact.covered env
  · intro env h
    rw [outcome_bind] at h
    rw [after_bind]
    cases ha : act.outcome env with
    | ok a =>
      rw [ha] at h
      exact (hact.of_outcome ha).trans ((hf a).restored _ h)
    | error failure =>
      rw [ha] at h
      refine hact.restored env (h.imp_right fun hne hdeep => hne ?_)
      exact congrArg Except.error (Except.error.inj (ha.symm.trans hdeep))

end Action

namespace Environment

open DynLisp.Action

variable [Machine]

theorem restores_note (notice : Notice) : Restores (note notice) :=
  .of_forall fun _ => ⟨rfl, .refl _⟩

theorem restores_get : Restores (get : Action Environment) := .of_forall Restored.refl

theorem restores_lookup (x : String) : Restores (lookup x) := by
  refine restores_get.bind fun env => ?_
  cases env.bindings.lookup? x with
  | none => exact restores_throw _
  | some v => exact restores_pure v

theorem restores_function (f : String) : Restores (function f) := by
  refine restores_get.bind fun env => ?_
  cases env.functions.lookup f with
  | none => exact restores_throw _
  | some definition => exact restores_pure definition

theorem outcome_binding_of_restores {α : Type} {body : Action α} (hbody : body.Restores)
    (kept : Nat) (pairs : List (String × Value)) (env : Environment) :
    Action.outcome (binding kept pairs body) env = body.outcome (env.bound pairs) :=
  (covered_binding kept (hbody.covered _)).1

/-- A block on a machine, which keeps nothing if it is steady. -/
theorem restores_binding {α : Type} {body : Action α} (hbody : body.Restores) (room : Nat)
    (pairs : List (String × Value)) : Restores (binding (Machine.kept room) pairs body) := by
  refine ⟨fun env => (covered_binding _ (hbody.covered _)).2, fun env h => ?_⟩
  rw [outcome_binding_of_restores hbody] at h
  exact (binding_spec (h.imp_left fun hsteady => hsteady room) (hbody.restored _ h)).2

end Environment

end DynLisp
