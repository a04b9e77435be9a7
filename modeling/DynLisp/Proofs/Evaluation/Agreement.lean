import DynLisp.Proofs.Evaluation.Forms

/-!
# Evaluation agrees with its rules

What the evaluator computes on one environment, which every call changes and changes back, is what
the rules say, which change nothing.  A call with one call less is a body in the overridden scope,
so the induction is on the number of calls that may be active.
-/

namespace DynLisp

open DynLisp.Action

/-! ## Calls of functions -/

section

variable {functions : List (String × Definition)} {scope : Scope}

theorem means_function (f : String) :
    Means functions scope (Environment.function f) fun res =>
      (functions.lookup f = none ∧ res = .error (.undefinedFunction f)) ∨
        ∃ definition, functions.lookup f = some definition ∧ res = .ok definition := by
  intro env hfunctions hscope
  subst hfunctions
  rw [Environment.outcome_function]
  cases env.functions.lookup f with
  | none => exact ⟨some (.error (.undefinedFunction f)), rfl, fun r => by simp [eq_comm]⟩
  | some definition => exact ⟨some (.ok definition), rfl, fun r => by simp [eq_comm]⟩

/-- The function is looked for before the arguments are counted. -/
theorem means_resolveCall [Machine] (f : String) (vs : List Value) :
    Means functions scope (resolveCall f vs) fun res =>
      (functions.lookup f = none ∧ res = .error (.undefinedFunction f)) ∨
        ∃ definition, functions.lookup f = some definition ∧
          (vs.length ≠ definition.params.length ∧
              res = .error (.wrongArity f definition.params.length vs.length) ∨
            vs.length = definition.params.length ∧ res = .ok definition) := by
  have hcount : ∀ definition : Definition, Means functions scope
      (do
        if vs.length ≠ definition.params.length then
          throw (Fault.wrongArity f definition.params.length vs.length).failure
        Environment.note (.calling f (definition.params.zip vs))
        return definition : Action Definition)
      fun res => vs.length ≠ definition.params.length ∧
          res = .error (.wrongArity f definition.params.length vs.length) ∨
        vs.length = definition.params.length ∧ res = .ok definition := by
    intro definition
    by_cases h : vs.length ≠ definition.params.length
    · simp only [if_pos h]
      exact (Means.fault _).congr fun res => by simp [h, eq_comm]
    · simp only [if_neg h]
      exact fun _ _ _ => ⟨some (.ok definition), rfl, fun r => by simp [not_not.1 h, eq_comm]⟩
  have hresolved := (means_function f).bind (Environment.restores_function f) hcount
  refine hresolved.congr fun res => ⟨?_, ?_⟩
  · rintro (⟨fault, ⟨hf, hfault⟩ | ⟨definition, hf, ⟨⟩⟩, rfl⟩ |
      ⟨definition, ⟨hf, ⟨⟩⟩ | ⟨_, hf, ⟨⟩⟩, hres⟩)
    · exact .inl ⟨hf, hfault⟩
    · exact .inr ⟨definition, hf, hres⟩
  · rintro (⟨hf, rfl⟩ | ⟨definition, hf, hres⟩)
    · exact .inl ⟨_, .inl ⟨hf, rfl⟩, rfl⟩
    · exact .inr ⟨definition, .inr ⟨definition, hf, rfl⟩, hres⟩

/-- A call ends in a fault of its own, or as the body of the function does in the scope that is
overridden at the parameters. -/
theorem means_callWith [Machine] {body : Expr → Action Value}
    {B : Scope → Expr → Except Fault Value → Prop}
    (hbody : ∀ scope e, Means functions scope (body e) (B scope e))
    (hrestores : ∀ e, (body e).Restores) (kept : Nat) (f : String) (vs : List Value) :
    Means functions scope (callWith kept body f vs) fun res =>
      (functions.lookup f = none ∧ res = .error (.undefinedFunction f)) ∨
        ∃ definition, functions.lookup f = some definition ∧
          (vs.length ≠ definition.params.length ∧
              res = .error (.wrongArity f definition.params.length vs.length) ∨
            vs.length = definition.params.length ∧
              B (scope.override (definition.params.zip vs)) definition.body res) := by
  have hbound := fun definition : Definition =>
    Means.binding (hbody (scope.override (definition.params.zip vs)) definition.body)
      (hrestores definition.body) kept
  have hcalled := (means_resolveCall f vs).bind (restores_resolveCall f vs) hbound
  refine hcalled.congr fun res => ⟨?_, ?_⟩
  · rintro (⟨fault, ⟨hf, ⟨⟩⟩ | ⟨definition, hf, ⟨hne, ⟨⟩⟩ | ⟨-, ⟨⟩⟩⟩, rfl⟩ |
      ⟨definition, ⟨hf, ⟨⟩⟩ | ⟨_, hf, ⟨-, ⟨⟩⟩ | ⟨heq, ⟨⟩⟩⟩, hres⟩)
    · exact .inl ⟨hf, rfl⟩
    · exact .inr ⟨definition, hf, .inl ⟨hne, rfl⟩⟩
    · exact .inr ⟨definition, hf, .inr ⟨heq, hres⟩⟩
  · rintro (⟨hf, rfl⟩ | ⟨definition, hf, ⟨hne, rfl⟩ | ⟨heq, hres⟩⟩)
    · exact .inl ⟨_, .inl ⟨hf, rfl⟩, rfl⟩
    · exact .inl ⟨_, .inr ⟨definition, hf, .inl ⟨hne, rfl⟩⟩, rfl⟩
    · exact .inr ⟨definition, .inr ⟨definition, hf, .inr ⟨heq, rfl⟩⟩, hres⟩

/-- Where no call may be active, every call ends in a fault of its own or nests too deeply. -/
theorem callsDescribed_zero [Machine] :
    CallsDescribed functions 0 (callWith (Machine.kept 0) fun _ => throw .depthExceeded) where
  restores := restores_callWith (fun _ => restores_throw _) 0
  means := by
    intro scope f vs
    have hbody : ∀ scope (_ : Expr), Means functions scope
        (throw .depthExceeded : Action Value) fun _ => False := fun _ _ => Means.depthExceeded
    refine (means_callWith hbody (fun _ => restores_throw _) _ f vs).congr
      fun res => ⟨?_, fun h => ?_⟩
    · rintro (⟨hf, rfl⟩ | ⟨definition, hf, ⟨hne, rfl⟩ | ⟨-, ⟨⟩⟩⟩)
      · exact .undefined hf
      · exact .wrongArity hf hne
    · cases h with
      | undefined hf => exact .inl ⟨hf, rfl⟩
      | wrongArity hf hne => exact .inr ⟨_, hf, .inl ⟨hne, rfl⟩⟩

theorem callsDescribed_succ [Machine] {limit : Nat} {body : Expr → Action Value}
    (hbody : ∀ scope e, Means functions scope (body e) (Evaluates functions limit scope e))
    (hrestores : ∀ e, (body e).Restores) :
    CallsDescribed functions (limit + 1) (callWith (Machine.kept (limit + 1)) body) where
  restores := restores_callWith hrestores (limit + 1)
  means := by
    intro scope f vs
    refine (means_callWith hbody hrestores _ f vs).congr fun res => ⟨?_, fun h => ?_⟩
    · rintro (⟨hf, rfl⟩ | ⟨definition, hf, ⟨hne, rfl⟩ | ⟨heq, hres⟩⟩)
      · exact .undefined hf
      · exact .wrongArity hf hne
      · exact .body hf heq hres
    · cases h with
      | undefined hf => exact .inl ⟨hf, rfl⟩
      | wrongArity hf hne => exact .inr ⟨_, hf, .inl ⟨hne, rfl⟩⟩
      | body hf heq hres => exact .inr ⟨_, hf, .inr ⟨heq, hres⟩⟩

end

/-! ## Evaluation -/

theorem means_evaluate [Machine] (functions : List (String × Definition)) (scope : Scope)
    (limit : Nat) (e : Expr) :
    Means functions scope (evaluate limit e) (Evaluates functions limit scope e) := by
  induction limit generalizing scope e with
  | zero => exact means_evaluateWith callsDescribed_zero e
  | succ limit ih => exact means_evaluateWith (callsDescribed_succ ih (restores_evaluate limit)) e

/-- An evaluation ends in the value or the fault that the rules give, which know only the functions
and what the names stand for.  It fails for the depth of the calls if and only if the rules give
nothing within that depth, and a greater depth changes nothing that they give. -/
theorem evaluate_agrees [Machine] (e : Expr) (env : Environment) :
    (∀ limit v, (evaluate limit e).outcome env = .ok v ↔
        Evaluates env.functions limit env.scope e (.ok v)) ∧
      (∀ limit fault, (evaluate limit e).outcome env = .error fault.failure ↔
        Evaluates env.functions limit env.scope e (.error fault)) ∧
      (∀ limit, (evaluate limit e).outcome env = .error .depthExceeded ↔
        ¬ ∃ r, Evaluates env.functions limit env.scope e r) ∧
      ∀ r m n, m ≤ n → Evaluates env.functions m env.scope e r →
        Evaluates env.functions n env.scope e r := by
  have hmeans := fun limit => means_evaluate env.functions env.scope limit e
  refine ⟨fun limit v => ?_, fun limit fault => ?_, fun limit => ?_, fun r m n hmn h => h.mono hmn⟩
  · exact (hmeans limit).outcome_iff rfl rfl (.ok v)
  · exact (hmeans limit).outcome_iff rfl rfl (.error fault)
  · exact (hmeans limit).outcome_depthExceeded_iff rfl rfl

/-- `(f 7)`, where `(f y)` calls `(g)` and `(g)` is `y`: two calls are active when `y` is looked up,
and it stands for what the caller of `g` has bound it to. -/
theorem evaluate_agrees_dynamic_scope :
    2 ≤ 5 ∧
      Evaluates [("g", ⟨[], .var "y"⟩), ("f", ⟨["y"], .call "g" []⟩)] 2 (fun _ => none)
        (.call "f" [.number 7]) (.ok (.number 7)) ∧
      Evaluates [("g", ⟨[], .var "y"⟩), ("f", ⟨["y"], .call "g" []⟩)] 5 (fun _ => none)
        (.call "f" [.number 7]) (.ok (.number 7)) ∧
      ¬ ∃ r, Evaluates [("g", ⟨[], .var "y"⟩), ("f", ⟨["y"], .call "g" []⟩)] 1 (fun _ => none)
        (.call "f" [.number 7]) r := by
  obtain ⟨hvalue, -, hdepth, hmono⟩ := @evaluate_agrees (.ofCalls 5) (.call "f" [.number 7])
    (.ofFunctions [("g", ⟨[], .var "y"⟩), ("f", ⟨["y"], .call "g" []⟩)])
  have htwo := (hvalue 2 (.number 7)).1 rfl
  exact ⟨by decide, htwo, hmono _ 2 5 (by decide) htwo, (hdepth 1).1 rfl⟩

end DynLisp
