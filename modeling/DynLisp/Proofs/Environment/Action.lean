import DynLisp.Environment

/-!
# Actions

How an action ends and in which environment.  `Action.outcome` and `Action.after` take the two
apart, and both come apart at a bind: what comes after runs in the environment that is left, unless
there is a failure.

`Action.Maintains I Q act` says what an action does to an invariant `I` of environments: however it
ends, it leaves an environment with the invariant, and a result of it satisfies `Q`.
-/

namespace DynLisp
namespace Action

variable {α β : Type}

/-- The result of an action or its failure. -/
def outcome (act : Action α) (env : Environment) : Except Failure α :=
  match act env with
  | .ok a _ => .ok a
  | .error failure _ => .error failure

/-- The failure that an action ends in, if it fails. -/
def failure? (act : Action α) (env : Environment) : Option Failure :=
  match act.outcome env with
  | .ok _ => none
  | .error failure => some failure

/-- The environment that an action leaves, however it ends. -/
def after (act : Action α) (env : Environment) : Environment :=
  match act env with
  | .ok _ env' => env'
  | .error _ env' => env'

theorem outcome_bind (act : Action α) (f : α → Action β) (env : Environment) :
    Action.outcome (act >>= f) env =
      match act.outcome env with
      | .ok a => (f a).outcome (act.after env)
      | .error failure => .error failure := by
  unfold Action.outcome Action.after
  show (match EStateM.bind act f env with
    | .ok a _ => Except.ok a
    | .error failure _ => .error failure) = _
  rw [EStateM.bind]
  cases act env <;> rfl

theorem after_bind (act : Action α) (f : α → Action β) (env : Environment) :
    Action.after (act >>= f) env =
      match act.outcome env with
      | .ok a => (f a).after (act.after env)
      | .error _ => act.after env := by
  unfold Action.outcome Action.after
  show (match EStateM.bind act f env with
    | .ok _ env' => env'
    | .error _ env' => env') = _
  rw [EStateM.bind]
  cases act env <;> rfl

/-- An action fails in its first part, or the first part has a result and what comes after fails. -/
theorem outcome_bind_eq_error_iff {act : Action α} {f : α → Action β} {env : Environment}
    {failure : Failure} :
    outcome (act >>= f) env = .error failure ↔
      act.outcome env = .error failure ∨
        ∃ a env', act env = .ok a env' ∧ (f a).outcome env' = .error failure := by
  rw [outcome_bind]
  unfold Action.outcome Action.after
  cases act env with
  | ok a env' =>
    refine ⟨fun h => .inr ⟨a, env', rfl, h⟩, ?_⟩
    rintro (h | ⟨_, _, ⟨⟩, h⟩)
    · cases h
    · exact h
  | error failure env' =>
    refine ⟨fun h => .inl (congrArg _ (Except.error.inj h)), ?_⟩
    rintro (h | ⟨_, _, ⟨⟩, -⟩)
    exact congrArg _ (Except.error.inj h)

theorem outcome_pure_ne_error (a : α) (env : Environment) {failure : Failure} :
    (pure a : Action α).outcome env ≠ .error failure := nofun

section

variable {act : Action α} {env env' : Environment} {a : α} {failure : Failure}

theorem outcome_of_ok (h : act env = .ok a env') : act.outcome env = .ok a := by
  rw [Action.outcome, h]

theorem outcome_of_error (h : act env = .error failure env') :
    act.outcome env = .error failure := by
  rw [Action.outcome, h]

theorem failure?_of_ok (h : act env = .ok a env') : act.failure? env = none := by
  rw [Action.failure?, outcome_of_ok h]

theorem failure?_of_error (h : act env = .error failure env') :
    act.failure? env = some failure := by
  rw [Action.failure?, outcome_of_error h]

theorem after_of_ok (h : act env = .ok a env') : act.after env = env' := by
  rw [Action.after, h]

theorem after_of_error (h : act env = .error failure env') : act.after env = env' := by
  rw [Action.after, h]

theorem run_of_outcome_eq_ok (h : act.outcome env = .ok a) : act env = .ok a (act.after env) := by
  unfold Action.outcome at h
  unfold Action.after
  cases hrun : act env with
  | ok b env' =>
    rw [hrun] at h
    rw [Except.ok.inj h]
  | error failure env' =>
    rw [hrun] at h
    cases h

theorem run_of_outcome_eq_error (h : act.outcome env = .error failure) :
    act env = .error failure (act.after env) := by
  unfold Action.outcome at h
  unfold Action.after
  cases hrun : act env with
  | ok b env' =>
    rw [hrun] at h
    cases h
  | error failure' env' =>
    rw [hrun] at h
    rw [Except.error.inj h]

/-- After a result comes what the result asks for, in the environment that was left. -/
theorem run_bind_of_ok (f : α → Action β) (h : act env = .ok a env') :
    (act >>= f) env = f a env' := by
  show EStateM.bind act f env = _
  rw [EStateM.bind, h]

theorem run_bind_of_error (f : α → Action β)
    (h : act env = .error failure env') : (act >>= f) env = .error failure env' := by
  show EStateM.bind act f env = _
  rw [EStateM.bind, h]

theorem outcome_bind_of_ok (f : α → Action β) (h : act env = .ok a env') :
    Action.outcome (act >>= f) env = (f a).outcome env' := by
  unfold Action.outcome
  rw [run_bind_of_ok f h]

theorem after_bind_of_ok (f : α → Action β) (h : act env = .ok a env') :
    Action.after (act >>= f) env = (f a).after env' := by
  unfold Action.after
  rw [run_bind_of_ok f h]

end

theorem run_bind_eq_ok {act : Action α} {f : α → Action β} {env env' : Environment} {b : β}
    (h : (act >>= f) env = .ok b env') :
    ∃ a between, act env = .ok a between ∧ f a between = .ok b env' := by
  have h : EStateM.bind act f env = .ok b env' := h
  rw [EStateM.bind] at h
  cases hact : act env with
  | ok a between =>
    rw [hact] at h
    exact ⟨a, between, rfl, h⟩
  | error failure between =>
    rw [hact] at h
    cases h

theorem run_get_bind (f : Environment → Action α) (env : Environment) :
    (get >>= f : Action α) env = f env env := rfl

/-- To discard a result is to go on without it. -/
theorem discard_eq (act : Action α) : (discard act : Action PUnit) = act >>= fun _ => pure ⟨⟩ := by
  funext env
  show EStateM.map (Function.const α PUnit.unit) act env = EStateM.bind act (fun _ => pure ⟨⟩) env
  rw [EStateM.map, EStateM.bind]
  cases act env <;> rfl

theorem after_discard (act : Action α) (env : Environment) :
    Action.after (discard act : Action PUnit) env = act.after env := by
  rw [discard_eq, after_bind]
  cases act.outcome env <;> rfl

theorem outcome_discard_eq_ok_iff {act : Action α} {env : Environment} :
    Action.outcome (discard act : Action PUnit) env = .ok ⟨⟩ ↔ ∃ a, act.outcome env = .ok a := by
  rw [discard_eq, outcome_bind]
  cases act.outcome env with
  | ok a => exact ⟨fun _ => ⟨a, rfl⟩, fun _ => rfl⟩
  | error failure =>
    constructor
    · rintro ⟨⟩
    · rintro ⟨_, ⟨⟩⟩

/-! ## Invariants -/

/-- From an environment that satisfies `I` the action leaves one that does, and ends in results that
satisfy `Q`. -/
def Maintains (I : Environment → Prop) (Q : α → Prop) (act : Action α) : Prop :=
  ∀ env, I env → I (act.after env) ∧ ∀ a, act.outcome env = .ok a → Q a

variable {I : Environment → Prop} {Q : α → Prop} {Q' : β → Prop}

theorem maintains_pure {a : α} (h : Q a) : Maintains I Q (pure a) := by
  refine fun env henv => ⟨henv, ?_⟩
  rintro _ ⟨⟩
  exact h

theorem maintains_throw (failure : Failure) : Maintains I Q (throw failure : Action α) :=
  fun _ henv => ⟨henv, nofun⟩

theorem Maintains.of_ok {act : Action α} {env env' : Environment} {a : α} (h : Maintains I Q act)
    (henv : I env) (hrun : act env = .ok a env') : I env' ∧ Q a := by
  obtain ⟨hafter, hresult⟩ := h env henv
  exact ⟨after_of_ok hrun ▸ hafter, hresult a (outcome_of_ok hrun)⟩

theorem Maintains.of_error {act : Action α} {env env' : Environment} {failure : Failure}
    (h : Maintains I Q act) (henv : I env) (hrun : act env = .error failure env') : I env' :=
  after_of_error hrun ▸ (h env henv).1

theorem Maintains.mono {P : α → Prop} {act : Action α} (h : Maintains I P act)
    (hPQ : ∀ a, P a → Q a) : Maintains I Q act :=
  fun env henv => ⟨(h env henv).1, fun a ha => hPQ a ((h env henv).2 a ha)⟩

theorem Maintains.bind {act : Action α} {f : α → Action β} (hact : Maintains I Q act)
    (hf : ∀ a, Q a → Maintains I Q' (f a)) : Maintains I Q' (act >>= f) := by
  intro env henv
  obtain ⟨hafter, hresult⟩ := hact env henv
  rw [after_bind, outcome_bind]
  cases hout : act.outcome env with
  | ok a => exact hf a (hresult a hout) _ hafter
  | error failure => exact ⟨hafter, nofun⟩

theorem maintains_get_bind {f : Environment → Action α}
    (hf : ∀ env, I env → Maintains I Q (f env)) : Maintains I Q (get >>= f) :=
  fun env henv => hf env henv env henv

theorem maintains_modify {g : Environment → Environment} (hg : ∀ env, I env → I (g env)) :
    Maintains I (fun _ => True) (modify g) :=
  fun env henv => ⟨hg env henv, fun _ _ => trivial⟩

end Action
end DynLisp
