import DynLisp.Proofs.Environment.Scope
import DynLisp.Proofs.Evaluation.Restored

/-!
# What actions mean

`Means functions scope act J` says that `J` describes how the action ends in every environment
with these functions and this scope, whatever the bindings are underneath: it ends in the value or
the fault that `J` has, and if `J` has none then calls are nested too deeply.

It composes.  The first part of a bind restores the environment, so what comes after it runs with
the same functions and in the same scope, `Means.bind`.  The forms of the language are built on the
evaluation of one operand with the check of its kind, `Means.operand`, and of two of them,
`Means.operands`.
-/

namespace DynLisp

/-- The outcome of an action that ends in a value or a fault, or in neither because calls are nested
too deeply. -/
def Action.settled {α : Type} : Option (Except Fault α) → Except Failure α
  | some r => r.mapError Fault.failure
  | none => .error .depthExceeded

theorem Action.settled_inj {α : Type} {o o' : Option (Except Fault α)} :
    settled o = settled o' ↔ o = o' := by
  refine ⟨fun h => ?_, congrArg _⟩
  rcases o with _ | (fault | a) <;> rcases o' with _ | (fault' | a')
  · rfl
  · cases h
  · cases h
  · cases h
  · have hfailure : fault.failure = fault'.failure := Except.error.inj h
    rw [(Failure.error.inj hfailure).1]
  · cases h
  · cases h
  · cases h
  · rw [Except.ok.inj h]

/-- With these functions and in this scope, the action ends as `J` has it, and calls are nested too
deeply if `J` has nothing. -/
def Means {α : Type} (functions : List (String × Definition)) (scope : Scope) (act : Action α)
    (J : Except Fault α → Prop) : Prop :=
  ∀ env : Environment, env.functions = functions → env.scope = scope →
    ∃ o, act.outcome env = Action.settled o ∧ ∀ r, o = some r ↔ J r

namespace Means

open DynLisp.Action

variable {α β : Type} {functions : List (String × Definition)} {scope : Scope}

theorem outcome_iff {act : Action α} {J : Except Fault α → Prop}
    (h : Means functions scope act J) {env : Environment} (hfunctions : env.functions = functions)
    (hscope : env.scope = scope) (r : Except Fault α) :
    act.outcome env = r.mapError Fault.failure ↔ J r := by
  obtain ⟨o, ho, hJ⟩ := h env hfunctions hscope
  rw [ho, ← hJ]
  exact @settled_inj _ o (some r)

theorem outcome_depthExceeded_iff {act : Action α} {J : Except Fault α → Prop}
    (h : Means functions scope act J) {env : Environment} (hfunctions : env.functions = functions)
    (hscope : env.scope = scope) :
    act.outcome env = .error .depthExceeded ↔ ¬ ∃ r, J r := by
  obtain ⟨o, ho, hJ⟩ := h env hfunctions hscope
  have hnone : settled o = .error .depthExceeded ↔ o = none := @settled_inj _ o none
  rw [ho, hnone, Option.eq_none_iff_forall_ne_some, not_exists]
  exact forall_congr' fun r => not_congr (hJ r)

theorem congr {act : Action α} {J K : Except Fault α → Prop} (h : Means functions scope act J)
    (hJK : ∀ r, J r ↔ K r) : Means functions scope act K := by
  intro env hfunctions hscope
  obtain ⟨o, ho, hJ⟩ := h env hfunctions hscope
  exact ⟨o, ho, fun r => (hJ r).trans (hJK r)⟩

theorem pure (a : α) : Means functions scope (Pure.pure a) (.ok a = ·) :=
  fun _ _ _ => ⟨some (.ok a), rfl, fun _ => Option.some_inj⟩

theorem fault (fault : Fault) :
    Means functions scope (throw fault.failure : Action α) (.error fault = ·) :=
  fun _ _ _ => ⟨some (.error fault), rfl, fun _ => Option.some_inj⟩

theorem depthExceeded :
    Means functions scope (throw .depthExceeded : Action α) fun _ => False :=
  fun _ _ _ => ⟨none, rfl, fun _ => ⟨nofun, False.elim⟩⟩

/-- What comes after a bind happens with the same functions and in the same scope. -/
theorem bind [Machine] {act : Action α} {f : α → Action β} {J : Except Fault α → Prop}
    {K : α → Except Fault β → Prop} (hact : Means functions scope act J) (hrestores : act.Restores)
    (hf : ∀ a, Means functions scope (f a) (K a)) :
    Means functions scope (act >>= f) fun r =>
      (∃ fault, J (.error fault) ∧ r = .error fault) ∨ ∃ a, J (.ok a) ∧ K a r := by
  intro env hfunctions hscope
  obtain ⟨o, ho, hJ⟩ := hact env hfunctions hscope
  rw [outcome_bind, ho]
  rcases o with _ | (fault | a)
  · refine ⟨none, rfl, fun r => ⟨nofun, ?_⟩⟩
    rintro (⟨fault, h, -⟩ | ⟨a, h, -⟩)
    · cases (hJ _).2 h
    · cases (hJ _).2 h
  · refine ⟨some (.error fault), rfl, fun r => ⟨fun h => ?_, ?_⟩⟩
    · exact .inl ⟨fault, (hJ _).1 rfl, (Option.some.inj h).symm⟩
    · rintro (⟨fault', h, rfl⟩ | ⟨a, h, -⟩)
      · cases (hJ _).2 h
        rfl
      · cases (hJ _).2 h
  · -- the environment that is left has the functions and the scope of before
    have hrestored := hrestores.of_outcome ho
    obtain ⟨o, ho', hK⟩ := hf a _ (hrestored.functions.trans hfunctions)
      (hrestored.scope.trans hscope)
    refine ⟨o, ho', fun r => (hK r).trans ⟨fun h => .inr ⟨a, (hJ _).1 rfl, h⟩, ?_⟩⟩
    rintro (⟨fault, h, -⟩ | ⟨a', h, hr⟩)
    · cases (hJ _).2 h
    · cases (hJ _).2 h
      exact hr

/-- Values are bound for the body, in the overridden scope, and for nothing else. -/
theorem binding [Machine] {body : Action α} {J : Except Fault α → Prop}
    {pairs : List (String × Value)} (hbody : Means functions (scope.override pairs) body J)
    (hrestores : body.Restores) (kept : Nat) :
    Means functions scope (Environment.binding kept pairs body) J := by
  intro env hfunctions hscope
  rw [Environment.outcome_binding_of_restores hrestores]
  exact hbody _ hfunctions ((env.scope_bound pairs).trans (congrArg (·.override pairs) hscope))

end Means

/-! ## Operands -/

/-- A check of operands lets through the values with which nothing is wrong. -/
structure Expects {α : Type} (expect : Value → Action α) (misfit? : Value → Option Fault)
    (value : α → Value) : Prop where
  injective : Function.Injective value
  accepts : ∀ a, misfit? (value a) = none ∧ expect (value a) = pure a
  refuses : ∀ v, (∃ a, v = value a) ∨
    ∃ fault, misfit? v = some fault ∧ expect v = throw fault.failure

theorem expects_number (parent : Expr) :
    Expects (expectNumber parent) (ValueKind.number.misfit? parent) .number where
  injective := fun _ _ h => Value.number.inj h
  accepts := fun _ => ⟨rfl, rfl⟩
  refuses := by
    rintro (n | b)
    · exact .inl ⟨n, rfl⟩
    · exact .inr ⟨_, rfl, rfl⟩

theorem expects_boolean (parent : Expr) :
    Expects (expectBoolean parent) (ValueKind.boolean.misfit? parent) .boolean where
  injective := fun _ _ h => Value.boolean.inj h
  accepts := fun _ => ⟨rfl, rfl⟩
  refuses := by
    rintro (n | b)
    · exact .inr ⟨_, rfl, rfl⟩
    · exact .inl ⟨b, rfl⟩

/-- The value of an operand is one that its check lets through. -/
theorem Expects.exists_of_operand {α : Type} {expect : Value → Action α}
    {misfit? : Value → Option Fault} {value : α → Value} (hexpect : Expects expect misfit? value)
    {functions : List (String × Definition)} {limit : Nat} {scope : Scope} {e : Expr} {v : Value}
    (h : EvaluatesOperand functions limit scope misfit? e (.ok v)) : ∃ a, v = value a := by
  cases h with
  | value _ hv =>
    rcases hexpect.refuses v with ha | ⟨fault, hfault, -⟩
    · exact ha
    · rw [hv] at hfault
      cases hfault

namespace Means

variable {α β : Type} {functions : List (String × Definition)} {scope : Scope} {limit : Nat}
  {expect : Value → Action α} {misfit? : Value → Option Fault} {value : α → Value}

/-- An operand is evaluated and checked before anything after it. -/
theorem operand [Machine] {e : Expr} {act : Action Value} {f : α → Action β}
    {K : α → Except Fault β → Prop}
    (hact : Means functions scope act (Evaluates functions limit scope e))
    (hrestores : act.Restores) (hexpect : Expects expect misfit? value)
    (hf : ∀ a, Means functions scope (f a) (K a)) :
    Means functions scope (act >>= fun v => expect v >>= f) fun r =>
      (∃ fault, EvaluatesOperand functions limit scope misfit? e (.error fault) ∧
        r = .error fault) ∨
      ∃ a, EvaluatesOperand functions limit scope misfit? e (.ok (value a)) ∧ K a r := by
  have hcheck : ∀ v, Means functions scope (expect v >>= f) fun r =>
      (∃ fault, misfit? v = some fault ∧ r = .error fault) ∨
        ∃ a, v = value a ∧ misfit? v = none ∧ K a r := by
    intro v
    rcases hexpect.refuses v with ⟨a, rfl⟩ | ⟨fault, hv, hthrow⟩
    · obtain ⟨hv, hpure⟩ := hexpect.accepts a
      rw [hpure]
      refine (hf a).congr fun r => ⟨fun hr => .inr ⟨a, rfl, hv, hr⟩, ?_⟩
      rintro (⟨fault, hfault, -⟩ | ⟨a', ha, -, hr⟩)
      · rw [hv] at hfault
        cases hfault
      · rwa [hexpect.injective ha]
    · rw [hthrow]
      refine (Means.fault fault).congr fun r => ⟨fun hr => .inl ⟨fault, hv, hr.symm⟩, ?_⟩
      rintro (⟨fault', hfault, rfl⟩ | ⟨a, -, hnone, -⟩)
      · rw [hv] at hfault
        rw [Option.some.inj hfault]
      · rw [hv] at hnone
        cases hnone
  refine (hact.bind hrestores hcheck).congr fun r => ?_
  constructor
  · rintro (⟨fault, h, rfl⟩ | ⟨v, h, ⟨fault, hv, rfl⟩ | ⟨a, rfl, hv, hr⟩⟩)
    · exact .inl ⟨fault, .fault h, rfl⟩
    · exact .inl ⟨fault, .misfit h hv, rfl⟩
    · exact .inr ⟨a, .value h hv, hr⟩
  · rintro (⟨fault, h, rfl⟩ | ⟨a, h, hr⟩)
    · cases h with
      | fault h => exact .inl ⟨fault, h, rfl⟩
      | misfit h hv => exact .inr ⟨_, h, .inl ⟨fault, hv, rfl⟩⟩
    · cases h with
      | value h hv => exact .inr ⟨_, h, .inr ⟨a, rfl, hv, hr⟩⟩

/-- The second of two operands is evaluated after the first has been checked. -/
theorem operands [Machine] {l r : Expr} {left right : Action Value} {f : α → α → Action β}
    {K : α → α → Except Fault β → Prop}
    (hl : Means functions scope left (Evaluates functions limit scope l))
    (hr : Means functions scope right (Evaluates functions limit scope r))
    (hleft : left.Restores) (hright : right.Restores) (hexpect : Expects expect misfit? value)
    (hf : ∀ a b, Means functions scope (f a b) (K a b)) :
    Means functions scope
      (left >>= fun v => expect v >>= fun a => right >>= fun w => expect w >>= f a) fun res =>
      (∃ fault, EvaluatesAll functions limit scope misfit? [l, r] (.error fault) ∧
        res = .error fault) ∨
      ∃ a b, EvaluatesAll functions limit scope misfit? [l, r] (.ok [value a, value b]) ∧
        K a b res := by
  refine (hl.operand hleft hexpect fun a => hr.operand hright hexpect (hf a)).congr fun res => ?_
  constructor
  · rintro (⟨fault, h, rfl⟩ | ⟨a, ha, ⟨fault, h, rfl⟩ | ⟨b, hb, hres⟩⟩)
    · exact .inl ⟨fault, .first h, rfl⟩
    · exact .inl ⟨fault, .later ha (.first h), rfl⟩
    · exact .inr ⟨a, b, .cons ha (.cons hb .nil), hres⟩
  · rintro (⟨fault, h, rfl⟩ | ⟨a, b, h, hres⟩)
    · cases h with
      | first h => exact .inl ⟨fault, h, rfl⟩
      | later hv h =>
        obtain ⟨a, rfl⟩ := hexpect.exists_of_operand hv
        cases h with
        | first h => exact .inr ⟨a, hv, .inl ⟨fault, h, rfl⟩⟩
        | later _ h => cases h
    · cases h with
      | cons ha h =>
        cases h with
        | cons hb _ => exact .inr ⟨a, ha, .inr ⟨b, hb, hres⟩⟩

end Means

end DynLisp
