import DynLisp.Proofs.Evaluation.Enters
import DynLisp.Proofs.Evaluation.Meaning

/-!
# Where failures come from

A form fails by itself in a few ways, `Expr.Raises`: its operator refuses the operands, a value is
of the wrong kind, no case holds, a name means nothing, a call has the wrong number of arguments or
one call is too many, or the form has no value at all.  In all other ways it fails because an
evaluation that it starts does.  So every failure of an evaluation is raised by some form on the
way, which is evaluated and ends in it (`exists_origin`).

That a value is of the wrong kind is raised in one way only: the form wants the values of some of
its parts to be of some kind (`Expr.Wants`), and it has started the evaluation of such a part, which
ends in that value (`Evaluation.Refuses`).
-/

namespace DynLisp

open DynLisp.Action

/-- The failures that a form raises itself, whatever the evaluations end in that it starts. -/
inductive Expr.Raises : Expr → Failure → Prop
  | arithmetic {op : ArithOp} {l r : Expr} {a b : Int} {fault : ArithmeticFault} :
      op.apply a b = .error fault → Raises (.arith op l r) (Fault.arithmetic fault).failure
  | operand {e : Expr} {v : Value} {wanted : ValueKind} :
      ¬ e.Takes v → v.kind ≠ wanted → Raises e (Fault.wrongKind wanted v e).failure
  | condition {cases : List (Expr × Expr)} {condition result : Expr} {v : Value} :
      (condition, result) ∈ cases → v.kind ≠ .boolean →
      Raises (.cond cases) (Fault.wrongKind .boolean v (.case condition result)).failure
  | noMatchingCase {cases : List (Expr × Expr)} :
      Raises (.cond cases) (Fault.noMatchingCase (.cond cases)).failure
  | unboundVariable {x : String} : Raises (.var x) (Fault.unboundVariable x).failure
  | undefinedFunction {f : String} {args : List Expr} :
      Raises (.call f args) (Fault.undefinedFunction f).failure
  | wrongArity {f : String} {args : List Expr} {expected : Nat} :
      args.length ≠ expected →
      Raises (.call f args) (Fault.wrongArity f expected args.length).failure
  | depthExceeded {f : String} {args : List Expr} : Raises (.call f args) .depthExceeded
  | definitionEvaluated {f : String} {params : List String} {body : Expr} :
      Raises (.define f params body) (Fault.definitionEvaluated f).failure
  | notEvaluable {condition result : Expr} :
      Raises (.case condition result) (Fault.notEvaluable (.case condition result)).failure

/-- What forms raise is a fault of the evaluation, unless there is one call too many. -/
theorem Expr.Raises.kind {e : Expr} {failure : Failure} (h : e.Raises failure) :
    failure = .depthExceeded ∨ ∃ fault : Fault, failure = fault.failure ∧ fault.kind ≠ .lexical ∧
      fault.kind ≠ .grammar ∧ fault.kind ≠ .general := by
  cases h with
  | depthExceeded => exact .inl rfl
  | _ => exact .inr ⟨_, rfl, nofun, nofun, nofun⟩

/-- Forms without a value are the only ones that raise internal faults. -/
theorem Expr.Raises.internal {e : Expr} {fault : Fault} (h : e.Raises fault.failure)
    (hkind : fault.kind = .internal) :
    (∃ f params body, e = .define f params body ∧ fault = .definitionEvaluated f) ∨
      ∃ condition result, e = .case condition result := by
  generalize hfailure : fault.failure = failure at h
  cases h with
  | definitionEvaluated =>
    obtain ⟨rfl, -⟩ := Failure.error.inj hfailure
    exact .inl ⟨_, _, _, rfl, rfl⟩
  | notEvaluable => exact .inr ⟨_, _, rfl⟩
  | depthExceeded => cases hfailure
  | _ =>
    obtain ⟨rfl, -⟩ := Failure.error.inj hfailure
    cases hkind

/-! ## Operands of the wrong kind -/

/-- A form wants the value of an expression to be of some kind.  If it is not, then what is wrong is
wrong in `parent`, the form itself or the case that a condition belongs to. -/
inductive Expr.Wants : Expr → Expr → ValueKind → Expr → Prop
  | arith {op : ArithOp} {l r operand : Expr} :
      operand ∈ [l, r] → Wants (.arith op l r) operand .number (.arith op l r)
  | logic {op : LogicOp} {l r operand : Expr} :
      operand ∈ [l, r] → Wants (.logic op l r) operand .boolean (.logic op l r)
  | unary {op : UnaryOp} {operand : Expr} :
      Wants (.unary op operand) operand .boolean (.unary op operand)
  | compare {op : CompareOp} {l r operand : Expr} :
      operand ∈ [l, r] → Wants (.compare op l r) operand .number (.compare op l r)
  | condition {cases : List (Expr × Expr)} {condition result : Expr} :
      (condition, result) ∈ cases →
      Wants (.cond cases) condition .boolean (.case condition result)

theorem Expr.Wants.raises {e operand parent : Expr} {wanted : ValueKind} {v : Value}
    (h : e.Wants operand wanted parent) (hv : v.kind ≠ wanted) :
    e.Raises (Fault.wrongKind wanted v parent).failure := by
  cases h with
  | arith => exact .operand hv hv
  | logic => exact .operand hv hv
  | unary => exact .operand hv hv
  | compare => exact .operand hv hv
  | condition hmem => exact .condition hmem hv

variable [Machine]

/-- The form of an evaluation wants the value of a part to be of some kind, and the evaluation of
that part, which it starts, ends in a value of the other kind. -/
structure Evaluation.Refuses (c operand : Evaluation) (wanted : ValueKind) (v : Value)
    (parent : Expr) : Prop where
  enters : Enters c operand
  wants : c.expr.Wants operand.expr wanted parent
  outcome : operand.outcome = .ok v
  kind : v.kind ≠ wanted

/-- The form that is evaluated raises a failure itself.  If the failure is that a value is of the
wrong kind, then the form refuses the value that an evaluation ends in. -/
inductive Evaluation.Raises : Evaluation → Failure → Prop
  | form {c : Evaluation} {failure : Failure} :
      c.expr.Raises failure →
      (∀ wanted v parent, failure ≠ (Fault.wrongKind wanted v parent).failure) → Raises c failure
  | operand {c operand : Evaluation} {v : Value} {wanted : ValueKind} {parent : Expr} :
      c.Refuses operand wanted v parent → Raises c (Fault.wrongKind wanted v parent).failure

theorem Evaluation.Raises.expr {c : Evaluation} {failure : Failure} (h : c.Raises failure) :
    c.expr.Raises failure := by
  cases h with
  | form hraises _ => exact hraises
  | operand hrefuses => exact hrefuses.wants.raises hrefuses.kind

/-! ## Lists of expressions and of cases -/

section

variable {limit : Nat} {env : Environment} {failure : Failure}

/-- Expressions are evaluated from the left up to one that fails. -/
theorem evaluateAll_fails {es : List Expr}
    (h : (evaluateAll (calls limit) es).outcome env = .error failure) :
    ∃ before e after vs env', es = before ++ e :: after ∧
      evaluateAll (calls limit) before env = .ok vs env' ∧
      (evaluate limit e).outcome env' = .error failure := by
  induction es generalizing env with
  | nil => cases h
  | cons e es ih =>
    rw [evaluateAll, ← evaluate_eq, outcome_bind_eq_error_iff] at h
    rcases h with h | ⟨v, env', hv, h⟩
    · exact ⟨[], e, es, [], env, rfl, rfl, h⟩
    · rw [outcome_bind_eq_error_iff] at h
      rcases h with h | ⟨vs, env'', -, h⟩
      · obtain ⟨before, operand, after, vs, env'', rfl, hvs, hfails⟩ := ih h
        refine ⟨e :: before, operand, after, v :: vs, env'', rfl, ?_, hfails⟩
        rw [evaluateAll, ← evaluate_eq]
        exact (run_bind_of_ok _ hv).trans (run_bind_of_ok _ hvs)
      · cases h

theorem length_of_evaluateAll {es : List Expr} {vs : List Value} {env' : Environment}
    (h : evaluateAll (calls limit) es env = .ok vs env') : vs.length = es.length := by
  induction es generalizing env vs env' with
  | nil =>
    cases h
    rfl
  | cons e es ih =>
    rw [evaluateAll, ← evaluate_eq] at h
    obtain ⟨v, env₁, -, h⟩ := run_bind_eq_ok h
    obtain ⟨later, env₂, hlater, h⟩ := run_bind_eq_ok h
    cases h
    rw [List.length_cons, List.length_cons, ih hlater]

/-- The conditions of cases are evaluated in order.  A failure is that of a condition, of the check
of its value, or of the result of the first case whose condition is true. -/
theorem evaluateCases_fails {cases : List (Expr × Expr)}
    (h : (evaluateCases (calls limit) cases).outcome env = .error failure) :
    ∃ before condition result after env', cases = before ++ (condition, result) :: after ∧
      evaluateCases (calls limit) before env = .ok none env' ∧
      ((evaluate limit condition).outcome env' = .error failure ∨
        (∃ v : Value, (evaluate limit condition).outcome env' = .ok v ∧ v.kind ≠ .boolean ∧
          failure = (Fault.wrongKind .boolean v (.case condition result)).failure) ∨
        ∃ env'', evaluate limit condition env' = .ok (.boolean true) env'' ∧
          (evaluate limit result).outcome env'' = .error failure) := by
  induction cases generalizing env with
  | nil => cases h
  | cons c cases ih =>
    obtain ⟨condition, result⟩ := c
    rw [evaluateCases, ← evaluate_eq, outcome_bind_eq_error_iff] at h
    rcases h with h | ⟨v, env', hv, h⟩
    · exact ⟨[], condition, result, cases, env, rfl, rfl, .inl h⟩
    cases v with
    | number n =>
      refine ⟨[], condition, result, cases, env, rfl, rfl,
        .inr (.inl ⟨.number n, outcome_of_ok hv, nofun, ?_⟩)⟩
      exact (Except.error.inj h).symm
    | boolean holds =>
      cases holds with
      | true =>
        refine ⟨[], condition, result, cases, env, rfl, rfl, .inr (.inr ⟨env', hv, ?_⟩)⟩
        have h : Action.outcome (do
            return some (← evaluateWith (calls limit) result)) env' = .error failure := h
        rw [← evaluate_eq, outcome_bind_eq_error_iff] at h
        rcases h with h | ⟨w, env'', -, h⟩
        · exact h
        · cases h
      | false =>
        obtain ⟨before, c, r, after, env'', rfl, hbefore, hfails⟩ := ih h
        refine ⟨(condition, result) :: before, c, r, after, env'', rfl, ?_, hfails⟩
        rw [evaluateCases, ← evaluate_eq]
        exact (run_bind_of_ok _ hv).trans hbefore

/-! ## Forms -/

/-- A form fails by itself, or an evaluation that it starts fails in the same way. -/
def Evaluation.Blames (c : Evaluation) (failure : Failure) : Prop :=
  c.Raises failure ∨ ∃ c', Enters c c' ∧ c'.outcome = .error failure

/-- A form is to blame if it fails after the evaluation of an operand, and after the check that the
operand is one which the form takes. -/
theorem blames_of_operand {α β : Type} {expect : Value → Action α} {wanted : ValueKind}
    {value : α → Value} {f : α → Action β} {e operand : Expr} (before : List Expr)
    {after : List Expr} {vs : List Value} {start : Environment}
    (hexpect : Expects expect (wanted.misfit? e) value) (hwants : e.Wants operand wanted e)
    (hoperands : e.operands = before ++ operand :: after)
    (hbefore : evaluateAll (calls limit) before start = .ok vs env) (htakes : ∀ v ∈ vs, e.Takes v)
    (hf : ∀ a env', evaluate limit operand env = .ok (value a) env' →
      (f a).outcome env' = .error failure → Evaluation.Blames ⟨limit, start, e⟩ failure)
    (h : Action.outcome (evaluateWith (calls limit) operand >>= fun v => expect v >>= f) env =
      .error failure) : Evaluation.Blames ⟨limit, start, e⟩ failure := by
  rw [← evaluate_eq, outcome_bind_eq_error_iff] at h
  rcases h with h | ⟨v, env', hv, h⟩
  · exact .inr ⟨_, .operand hoperands hbefore htakes, h⟩
  rcases hexpect.refuses v with ⟨a, rfl⟩ | ⟨fault, hfault, hthrow⟩
  · rw [(hexpect.accepts a).2] at h
    exact hf a env' hv h
  · rw [hthrow] at h
    obtain rfl := Except.error.inj h
    obtain ⟨hkind, rfl⟩ := ValueKind.misfit?_eq_some_iff.1 hfault
    have henters : Enters ⟨limit, start, e⟩ ⟨limit, env, operand⟩ :=
      .operand hoperands hbefore htakes
    exact .inl (.operand ⟨henters, hwants, outcome_of_ok hv, hkind⟩)

theorem blames_of_operands {α : Type} {expect : Value → Action α} {wanted : ValueKind}
    {value : α → Value} {f : α → α → Action Value} {e l r : Expr}
    (hexpect : Expects expect (wanted.misfit? e) value)
    (hwants : ∀ operand ∈ [l, r], e.Wants operand wanted e)
    (htakes : ∀ a, e.Takes (value a)) (hoperands : e.operands = [l, r])
    (hf : ∀ a b env', (f a b).outcome env' = .error failure →
      Evaluation.Raises ⟨limit, env, e⟩ failure)
    (h : Action.outcome (do
      let a ← expect (← evaluateWith (calls limit) l)
      let b ← expect (← evaluateWith (calls limit) r)
      f a b) env = .error failure) : Evaluation.Blames ⟨limit, env, e⟩ failure := by
  refine blames_of_operand [] hexpect (hwants l List.mem_cons_self) hoperands rfl nofun ?_ h
  intro a env' ha h
  have hfirst : evaluateAll (calls limit) [l] env = .ok [value a] env' := by
    rw [evaluateAll, ← evaluate_eq]
    exact run_bind_of_ok _ ha
  refine blames_of_operand [l] hexpect (hwants r (List.mem_cons_of_mem l List.mem_cons_self))
    hoperands hfirst (List.forall_mem_singleton.2 (htakes a)) ?_ h
  exact fun b env'' _ h => .inl (hf a b env'' h)

/-- What a call does fails because there is no such function, because the values are not as many as
the parameters, or because the body fails with the values bound. -/
theorem callWith_fails {body : Expr → Action Value} (hrestores : ∀ e, (body e).Restores)
    {kept : Nat} {f : String} {vs : List Value}
    (h : (callWith kept body f vs).outcome env = .error failure) :
    (env.functions.lookup f = none ∧ failure = (Fault.undefinedFunction f).failure) ∨
      ∃ definition, env.functions.lookup f = some definition ∧
        (vs.length ≠ definition.params.length ∧
            failure = (Fault.wrongArity f definition.params.length vs.length).failure ∨
          ∃ env', resolveCall f vs env = .ok definition env' ∧
            (body definition.body).outcome (env'.bound (definition.params.zip vs)) =
              .error failure) := by
  cases hf : env.functions.lookup f with
  | none =>
    rw [callWith, outcome_bind, outcome_of_error (resolveCall_of_none hf)] at h
    exact .inl ⟨rfl, (Except.error.inj h).symm⟩
  | some definition =>
    refine .inr ⟨definition, rfl, ?_⟩
    by_cases hlength : vs.length = definition.params.length
    · have hresolve := resolveCall_of_length hf hlength
      rw [callWith, outcome_bind_of_ok _ hresolve,
        Environment.outcome_binding_of_restores (hrestores definition.body)] at h
      exact .inr ⟨_, hresolve, h⟩
    · rw [callWith, outcome_bind, outcome_of_error (resolveCall_of_length_ne hf hlength)] at h
      exact .inl ⟨hlength, (Except.error.inj h).symm⟩

/-- A call fails because an evaluation does that it starts, because there is no such function,
because the arguments are not as many as the parameters, or because no more call may be active. -/
theorem call_fails {f : String} {args : List Expr}
    (h : (evaluate limit (.call f args)).outcome env = .error failure) :
    (∃ c', Enters ⟨limit, env, .call f args⟩ c' ∧ c'.outcome = .error failure) ∨
      (env.functions.lookup f = none ∧ failure = (Fault.undefinedFunction f).failure) ∨
      ∃ definition, env.functions.lookup f = some definition ∧
        (args.length ≠ definition.params.length ∧
            failure = (Fault.wrongArity f definition.params.length args.length).failure ∨
          limit = 0 ∧ failure = .depthExceeded) := by
  rw [evaluate_eq, evaluateWith, outcome_bind_eq_error_iff] at h
  rcases h with h | ⟨vs, env', hvs, h⟩
  · obtain ⟨before, operand, after, vs, env', rfl, hvs, hfails⟩ := evaluateAll_fails h
    exact .inl ⟨_, .operand rfl hvs fun _ _ => trivial, hfails⟩
  have hfunctions : env'.functions = env.functions :=
    ((restores_evaluateAll (restores_calls limit) args).of_ok hvs).functions
  rw [← hfunctions, ← length_of_evaluateAll hvs]
  cases limit with
  | zero =>
    refine .inr ((callWith_fails (fun _ => restores_throw .depthExceeded) h).imp_right ?_)
    rintro ⟨definition, hf, harity | ⟨env'', -, hthrow⟩⟩
    · exact ⟨definition, hf, .inl harity⟩
    · exact ⟨definition, hf, .inr ⟨rfl, (Except.error.inj hthrow).symm⟩⟩
  | succ limit =>
    rcases callWith_fails (restores_evaluate limit) h with hundefined |
      ⟨definition, hf, harity | ⟨env'', hresolve, hfails⟩⟩
    · exact .inr (.inl hundefined)
    · exact .inr (.inr ⟨definition, hf, .inl harity⟩)
    · exact .inl ⟨_, .body hvs hresolve, hfails⟩

theorem blames_of_call {f : String} {args : List Expr}
    (h : (evaluateWith (calls limit) (.call f args)).outcome env = .error failure) :
    Evaluation.Blames ⟨limit, env, .call f args⟩ failure := by
  rw [← evaluate_eq] at h
  rcases call_fails h with henters | ⟨-, rfl⟩ | ⟨definition, -, ⟨harity, rfl⟩ | ⟨-, rfl⟩⟩
  · exact .inr henters
  · exact .inl (.form .undefinedFunction nofun)
  · exact .inl (.form (.wrongArity harity) nofun)
  · exact .inl (.form .depthExceeded nofun)

end

/-- A form that fails is to blame, or hands on the failure of an evaluation that it starts. -/
theorem Evaluation.blames_of_outcome {c : Evaluation} {failure : Failure}
    (h : c.outcome = .error failure) : c.Blames failure := by
  obtain ⟨limit, env, e⟩ := c
  have h : (evaluateWith (calls limit) e).outcome env = .error failure := by
    rw [← evaluate_eq]
    exact h
  cases e with
  | number n => cases h
  | boolean b => cases h
  | arith op l r =>
    rw [evaluateWith] at h
    refine blames_of_operands (expects_number _) (fun _ => .arith) (fun _ => rfl) rfl ?_ h
    intro a b env' h
    cases hop : op.apply a b with
    | ok n =>
      rw [hop] at h
      cases h
    | error fault =>
      rw [hop] at h
      obtain rfl := Except.error.inj h
      exact .form (.arithmetic hop) nofun
  | logic op l r =>
    rw [evaluateWith] at h
    exact blames_of_operands (expects_boolean _) (fun _ => .logic) (fun _ => rfl) rfl
      (fun _ _ env h => absurd h (outcome_pure_ne_error _ env)) h
  | unary op operand =>
    rw [evaluateWith] at h
    exact blames_of_operand [] (expects_boolean _) .unary rfl rfl nofun
      (fun _ env _ h => absurd h (outcome_pure_ne_error _ env)) h
  | compare op l r =>
    rw [evaluateWith] at h
    exact blames_of_operands (expects_number _) (fun _ => .compare) (fun _ => rfl) rfl
      (fun _ _ env h => absurd h (outcome_pure_ne_error _ env)) h
  | cond cases =>
    rw [evaluateWith, outcome_bind_eq_error_iff] at h
    rcases h with h | ⟨found, env', -, h⟩
    · obtain ⟨before, condition, result, after, env', rfl, hbefore, h⟩ := evaluateCases_fails h
      rcases h with h | ⟨v, hv, hkind, rfl⟩ | ⟨env'', hholds, h⟩
      · exact .inr ⟨_, .condition hbefore, h⟩
      · have henters : Enters ⟨limit, env, .cond (before ++ (condition, result) :: after)⟩
            ⟨limit, env', condition⟩ := .condition hbefore
        exact .inl (.operand ⟨henters, .condition List.mem_append_cons_self, hv, hkind⟩)
      · exact .inr ⟨_, .result hbefore hholds, h⟩
    · cases found with
      | none =>
        obtain rfl := Except.error.inj h
        exact .inl (.form .noMatchingCase nofun)
      | some v => cases h
  | var x =>
    rw [evaluateWith, Environment.outcome_lookup] at h
    cases hx : env.scope x with
    | none =>
      rw [hx] at h
      obtain rfl := Except.error.inj h
      exact .inl (.form .unboundVariable nofun)
    | some v =>
      rw [hx] at h
      cases h
  | call f args => exact blames_of_call h
  | define f params body =>
    obtain rfl := Except.error.inj h
    exact .inl (.form .definitionEvaluated nofun)
  | case condition result =>
    obtain rfl := Except.error.inj h
    exact .inl (.form .notEvaluable nofun)

/-- **Every failure comes from a form.**  An evaluation that fails has an evaluation on its way, or
is itself one, whose form raises the failure. -/
theorem exists_raises {c : Evaluation} {failure : Failure} (h : c.outcome = .error failure) :
    ∃ c', Relation.ReflTransGen Enters c c' ∧ c'.Raises failure ∧ c'.outcome = .error failure := by
  induction c using wellFounded_enters.induction with
  | _ c ih =>
    rcases Evaluation.blames_of_outcome h with hraises | ⟨c', henters, hfails⟩
    · exact ⟨c, .refl, hraises, h⟩
    · obtain ⟨origin, hway, hraises, horigin⟩ := ih c' henters hfails
      exact ⟨origin, .head henters hway, hraises, horigin⟩

/-- What the form alone says of it. -/
theorem exists_origin {c : Evaluation} {failure : Failure} (h : c.outcome = .error failure) :
    ∃ c', Relation.ReflTransGen Enters c c' ∧ c'.expr.Raises failure ∧
      c'.outcome = .error failure := by
  obtain ⟨c', hway, hraises, hfails⟩ := exists_raises h
  exact ⟨c', hway, hraises.expr, hfails⟩

end DynLisp
