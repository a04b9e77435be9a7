import DynLisp.Proofs.Evaluation.Meaning

/-!
# What the forms mean

Each form means what its rules say, if its parts do and if the rules describe the calls
(`CallsDescribed`).  There is one lemma for a form, and `means_evaluateWith` is the induction on the
expression that puts them together.  What a call does is left open here.
-/

namespace DynLisp

open DynLisp.Action

/-- What the rules describe calls to be. -/
structure CallsDescribed [Machine] (functions : List (String × Definition)) (limit : Nat)
    (call : String → List Value → Action Value) : Prop where
  means : ∀ scope f vs, Means functions scope (call f vs)
    (EvaluatesCall functions limit scope f vs)
  restores : ∀ f vs, (call f vs).Restores

section

variable {functions : List (String × Definition)} {limit : Nat} {scope : Scope}
  {call : String → List Value → Action Value}

/-! ## Operators -/

theorem means_apply (op : ArithOp) (a b : Int) : Means functions scope
    (match op.apply a b with
      | .ok n => (pure (.number n) : Action Value)
      | .error fault => throw (Fault.arithmetic fault).failure)
    fun res => (∃ n, op.apply a b = .ok n ∧ res = .ok (.number n)) ∨
      ∃ fault, op.apply a b = .error fault ∧ res = .error (.arithmetic fault) := by
  cases op.apply a b with
  | ok n => exact (Means.pure _).congr fun res => by simp [eq_comm]
  | error fault => exact (Means.fault _).congr fun res => by simp [eq_comm]

theorem means_arith [Machine] (hcall : CallsDescribed functions limit call) (op : ArithOp)
    {l r : Expr}
    (hl : Means functions scope (evaluateWith call l) (Evaluates functions limit scope l))
    (hr : Means functions scope (evaluateWith call r) (Evaluates functions limit scope r)) :
    Means functions scope (evaluateWith call (.arith op l r))
      (Evaluates functions limit scope (.arith op l r)) := by
  have hoperands := hl.operands hr (restores_evaluateWith hcall.restores l)
    (restores_evaluateWith hcall.restores r) (expects_number (.arith op l r)) (means_apply op)
  rw [evaluateWith]
  refine hoperands.congr fun res => ⟨?_, fun h => ?_⟩
  · rintro (⟨fault, h, rfl⟩ | ⟨a, b, h, ⟨n, hop, rfl⟩ | ⟨fault, hop, rfl⟩⟩)
    · exact .arithFault h
    · exact .arith h hop
    · exact .arithRefused h hop
  · cases h with
    | arith h hop => exact .inr ⟨_, _, h, .inl ⟨_, hop, rfl⟩⟩
    | arithRefused h hop => exact .inr ⟨_, _, h, .inr ⟨_, hop, rfl⟩⟩
    | arithFault h => exact .inl ⟨_, h, rfl⟩

theorem means_logic [Machine] (hcall : CallsDescribed functions limit call) (op : LogicOp)
    {l r : Expr}
    (hl : Means functions scope (evaluateWith call l) (Evaluates functions limit scope l))
    (hr : Means functions scope (evaluateWith call r) (Evaluates functions limit scope r)) :
    Means functions scope (evaluateWith call (.logic op l r))
      (Evaluates functions limit scope (.logic op l r)) := by
  have hoperands := hl.operands hr (restores_evaluateWith hcall.restores l)
    (restores_evaluateWith hcall.restores r) (expects_boolean (.logic op l r))
    fun a b => Means.pure (Value.boolean (op.apply a b))
  rw [evaluateWith]
  refine hoperands.congr fun res => ⟨?_, fun h => ?_⟩
  · rintro (⟨fault, h, rfl⟩ | ⟨a, b, h, rfl⟩)
    · exact .logicFault h
    · exact .logic h
  · cases h with
    | logic h => exact .inr ⟨_, _, h, rfl⟩
    | logicFault h => exact .inl ⟨_, h, rfl⟩

theorem means_unary [Machine] (hcall : CallsDescribed functions limit call) (op : UnaryOp)
    {e : Expr}
    (he : Means functions scope (evaluateWith call e) (Evaluates functions limit scope e)) :
    Means functions scope (evaluateWith call (.unary op e))
      (Evaluates functions limit scope (.unary op e)) := by
  have hoperand := he.operand (restores_evaluateWith hcall.restores e)
    (expects_boolean (.unary op e)) fun a => Means.pure (Value.boolean (op.apply a))
  rw [evaluateWith]
  refine hoperand.congr fun res => ⟨?_, fun h => ?_⟩
  · rintro (⟨fault, h, rfl⟩ | ⟨a, h, rfl⟩)
    · exact .unaryFault h
    · exact .unary h
  · cases h with
    | unary h => exact .inr ⟨_, h, rfl⟩
    | unaryFault h => exact .inl ⟨_, h, rfl⟩

theorem means_compare [Machine] (hcall : CallsDescribed functions limit call) (op : CompareOp)
    {l r : Expr}
    (hl : Means functions scope (evaluateWith call l) (Evaluates functions limit scope l))
    (hr : Means functions scope (evaluateWith call r) (Evaluates functions limit scope r)) :
    Means functions scope (evaluateWith call (.compare op l r))
      (Evaluates functions limit scope (.compare op l r)) := by
  have hoperands := hl.operands hr (restores_evaluateWith hcall.restores l)
    (restores_evaluateWith hcall.restores r) (expects_number (.compare op l r))
    fun a b => Means.pure (Value.boolean (op.apply a b))
  rw [evaluateWith]
  refine hoperands.congr fun res => ⟨?_, fun h => ?_⟩
  · rintro (⟨fault, h, rfl⟩ | ⟨a, b, h, rfl⟩)
    · exact .compareFault h
    · exact .compare h
  · cases h with
    | compare h => exact .inr ⟨_, _, h, rfl⟩
    | compareFault h => exact .inl ⟨_, h, rfl⟩

/-! ## Variables -/

theorem means_var (x : String) :
    Means functions scope (Environment.lookup x) (Evaluates functions limit scope (.var x)) := by
  intro env hfunctions hscope
  subst hscope
  rw [Environment.outcome_lookup]
  cases hx : env.scope x with
  | none =>
    refine ⟨some (.error (.unboundVariable x)), rfl, fun r => ⟨?_, fun h => ?_⟩⟩
    · rintro ⟨⟩
      exact .unbound hx
    · cases h with
      | var h =>
        rw [hx] at h
        cases h
      | unbound h => rfl
  | some v =>
    refine ⟨some (.ok v), rfl, fun r => ⟨?_, fun h => ?_⟩⟩
    · rintro ⟨⟩
      exact .var hx
    · cases h with
      | var h =>
        rw [hx] at h
        rw [Option.some.inj h]
      | unbound h =>
        rw [hx] at h
        cases h

/-! ## Conditionals -/

/-- What cases end in, as the evaluator has it. -/
def decision : Except Fault (Option Value) → Option (Except Fault Value)
  | .ok none => none
  | .ok (some v) => some (.ok v)
  | .error fault => some (.error fault)

theorem decision_eq_some_iff {res : Except Fault (Option Value)} {r : Except Fault Value} :
    decision res = some r ↔
      (∃ fault, r = .error fault ∧ res = .error fault) ∨ ∃ v, r = .ok v ∧ res = .ok (some v) := by
  rcases res with fault | (_ | v)
  · simp [decision, eq_comm]
  · simp [decision]
  · simp [decision, eq_comm]

theorem means_found (cases : List (Expr × Expr)) (found : Option Value) : Means functions scope
    (match found with
      | some v => (pure v : Action Value)
      | none => throw (Fault.noMatchingCase (.cond cases)).failure)
    fun res => (∃ v, found = some v ∧ res = .ok v) ∨
      found = none ∧ res = .error (.noMatchingCase (.cond cases)) := by
  cases found with
  | none => exact (Means.fault _).congr fun res => by simp [eq_comm]
  | some v => exact (Means.pure _).congr fun res => by simp [eq_comm]

theorem means_cond [Machine] (hcall : CallsDescribed functions limit call)
    {cases : List (Expr × Expr)}
    (hcases : Means functions scope (evaluateCases call cases)
      fun res => EvaluatesCases functions limit scope cases (decision res)) :
    Means functions scope (evaluateWith call (.cond cases))
      (Evaluates functions limit scope (.cond cases)) := by
  have hdecided := hcases.bind (restores_evaluateCases hcall.restores cases) (means_found cases)
  rw [evaluateWith]
  refine hdecided.congr fun res => ⟨?_, fun h => ?_⟩
  · rintro (⟨fault, h, rfl⟩ | ⟨_, h, ⟨v, rfl, rfl⟩ | ⟨rfl, rfl⟩⟩)
    · exact .cond h
    · exact .cond h
    · exact .noMatchingCase h
  · cases h with
    | cond h =>
      cases res with
      | ok v => exact .inr ⟨some v, h, .inl ⟨v, rfl, rfl⟩⟩
      | error fault => exact .inl ⟨fault, h, rfl⟩
    | noMatchingCase h => exact .inr ⟨none, h, .inr ⟨rfl, rfl⟩⟩

theorem means_case [Machine] (hcall : CallsDescribed functions limit call) {condition result : Expr}
    {cases : List (Expr × Expr)}
    (hcondition : Means functions scope (evaluateWith call condition)
      (Evaluates functions limit scope condition))
    (hresult : Means functions scope (evaluateWith call result)
      (Evaluates functions limit scope result))
    (hcases : Means functions scope (evaluateCases call cases)
      fun res => EvaluatesCases functions limit scope cases (decision res)) :
    Means functions scope (evaluateCases call ((condition, result) :: cases)) fun res =>
      EvaluatesCases functions limit scope ((condition, result) :: cases) (decision res) := by
  have hchosen : ∀ holds, Means functions scope
      (if holds = true then (do return some (← evaluateWith call result))
        else evaluateCases call cases)
      fun res => (holds = true ∧ ∃ r, Evaluates functions limit scope result r ∧
          decision res = some r) ∨
        holds = false ∧ EvaluatesCases functions limit scope cases (decision res) := by
    intro holds
    cases holds with
    | true =>
      have hvalue := hresult.bind (restores_evaluateWith hcall.restores result)
        fun v => Means.pure (some v)
      refine hvalue.congr fun res => ⟨?_, ?_⟩
      · rintro (⟨fault, h, rfl⟩ | ⟨v, h, rfl⟩)
        · exact .inl ⟨rfl, _, h, rfl⟩
        · exact .inl ⟨rfl, _, h, rfl⟩
      · rintro (⟨-, r, h, hres⟩ | ⟨hfalse, -⟩)
        · obtain ⟨fault, rfl, rfl⟩ | ⟨v, rfl, rfl⟩ := decision_eq_some_iff.1 hres
          · exact .inl ⟨fault, h, rfl⟩
          · exact .inr ⟨v, h, rfl⟩
        · cases hfalse
    | false => exact hcases.congr fun res => by simp
  have hdecided := hcondition.operand (restores_evaluateWith hcall.restores condition)
    (expects_boolean (.case condition result)) hchosen
  rw [evaluateCases]
  refine hdecided.congr fun res => ⟨?_, fun h => ?_⟩
  · rintro (⟨fault, h, rfl⟩ | ⟨_, h, ⟨rfl, r, hr, hres⟩ | ⟨rfl, hcases⟩⟩)
    · exact .fault h
    · rw [hres]
      exact .holds h hr
    · exact .fails h hcases
  · -- `decision res` is no constructor, and the rules are inverted at a name for it
    obtain ⟨found, hfound⟩ : ∃ found, decision res = found := ⟨_, rfl⟩
    rw [hfound] at h
    cases h with
    | fault h =>
      obtain ⟨fault, ⟨⟩, rfl⟩ | ⟨v, ⟨⟩, -⟩ := decision_eq_some_iff.1 hfound
      exact .inl ⟨_, h, rfl⟩
    | holds h hr => exact .inr ⟨true, h, .inl ⟨rfl, _, hr, hfound⟩⟩
    | fails h hcases => exact .inr ⟨false, h, .inr ⟨rfl, hfound ▸ hcases⟩⟩

/-! ## Calls -/

theorem means_call [Machine] (hcall : CallsDescribed functions limit call) (f : String)
    {args : List Expr}
    (hargs : Means functions scope (evaluateAll call args)
      (EvaluatesAll functions limit scope (fun _ => none) args)) :
    Means functions scope (evaluateWith call (.call f args))
      (Evaluates functions limit scope (.call f args)) := by
  have hcalled := hargs.bind (restores_evaluateAll hcall.restores args) (hcall.means scope f)
  rw [evaluateWith]
  refine hcalled.congr fun res => ⟨?_, fun h => ?_⟩
  · rintro (⟨fault, h, rfl⟩ | ⟨vs, h, hres⟩)
    · exact .argumentFault h
    · exact .call h hres
  · cases h with
    | argumentFault h => exact .inl ⟨_, h, rfl⟩
    | call h hres => exact .inr ⟨_, h, hres⟩

theorem means_arguments [Machine] (hcall : CallsDescribed functions limit call) {e : Expr}
    {es : List Expr}
    (he : Means functions scope (evaluateWith call e) (Evaluates functions limit scope e))
    (hes : Means functions scope (evaluateAll call es)
      (EvaluatesAll functions limit scope (fun _ => none) es)) :
    Means functions scope (evaluateAll call (e :: es))
      (EvaluatesAll functions limit scope (fun _ => none) (e :: es)) := by
  have hlater := fun v => hes.bind (restores_evaluateAll hcall.restores es)
    fun vs => Means.pure (v :: vs)
  have hall := he.bind (restores_evaluateWith hcall.restores e) hlater
  rw [evaluateAll]
  refine hall.congr fun res => ⟨?_, fun h => ?_⟩
  · rintro (⟨fault, h, rfl⟩ | ⟨v, hv, ⟨fault, h, rfl⟩ | ⟨vs, hvs, rfl⟩⟩)
    · exact .first (.fault h)
    · exact .later (.value hv rfl) h
    · exact .cons (.value hv rfl) hvs
  · cases h with
    | cons hv hvs =>
      cases hv with
      | value hv _ => exact .inr ⟨_, hv, .inr ⟨_, hvs, rfl⟩⟩
    | first h =>
      cases h with
      | fault h => exact .inl ⟨_, h, rfl⟩
      | misfit _ hfault => cases hfault
    | later hv h =>
      cases hv with
      | value hv _ => exact .inr ⟨_, hv, .inl ⟨_, h, rfl⟩⟩

/-! ## Expressions -/

mutual

/-- An expression means what its rules say, if the calls in it do. -/
theorem means_evaluateWith [Machine] (hcall : CallsDescribed functions limit call) :
    ∀ e, Means functions scope (evaluateWith call e) (Evaluates functions limit scope e)
  | .number n => by
    refine (Means.pure _).congr fun res => ⟨?_, fun h => ?_⟩
    · rintro rfl
      exact .number
    · cases h
      rfl
  | .boolean b => by
    refine (Means.pure _).congr fun res => ⟨?_, fun h => ?_⟩
    · rintro rfl
      exact .boolean
    · cases h
      rfl
  | .arith op l r =>
    means_arith hcall op (means_evaluateWith hcall l) (means_evaluateWith hcall r)
  | .logic op l r =>
    means_logic hcall op (means_evaluateWith hcall l) (means_evaluateWith hcall r)
  | .unary op e => means_unary hcall op (means_evaluateWith hcall e)
  | .compare op l r =>
    means_compare hcall op (means_evaluateWith hcall l) (means_evaluateWith hcall r)
  | .cond cases => means_cond hcall (means_evaluateCases hcall cases)
  | .var x => means_var x
  | .call f args => means_call hcall f (means_evaluateAll hcall args)
  | .define f params body => by
    refine (Means.fault _).congr fun res => ⟨?_, fun h => ?_⟩
    · rintro rfl
      exact .define
    · cases h
      rfl
  | .case condition result => by
    refine (Means.fault _).congr fun res => ⟨?_, fun h => ?_⟩
    · rintro rfl
      exact .case
    · cases h
      rfl

theorem means_evaluateAll [Machine] (hcall : CallsDescribed functions limit call) :
    ∀ es, Means functions scope (evaluateAll call es)
      (EvaluatesAll functions limit scope (fun _ => none) es)
  | [] => by
    refine (Means.pure _).congr fun res => ⟨?_, fun h => ?_⟩
    · rintro rfl
      exact .nil
    · cases h
      rfl
  | e :: es => means_arguments hcall (means_evaluateWith hcall e) (means_evaluateAll hcall es)

theorem means_evaluateCases [Machine] (hcall : CallsDescribed functions limit call) :
    ∀ cases, Means functions scope (evaluateCases call cases)
      fun res => EvaluatesCases functions limit scope cases (decision res)
  | [] => by
    refine (Means.pure _).congr fun res => ⟨?_, fun h => ?_⟩
    · rintro rfl
      exact .nil
    · obtain ⟨found, hfound⟩ : ∃ found, decision res = found := ⟨_, rfl⟩
      rw [hfound] at h
      cases h
      rcases res with fault | (_ | v)
      · cases hfound
      · rfl
      · cases hfound
  | (_, _) :: cases =>
    means_case hcall (means_evaluateWith hcall _) (means_evaluateWith hcall _)
      (means_evaluateCases hcall cases)

end

end

end DynLisp
