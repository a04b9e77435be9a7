import DynLisp.Proofs.Evaluation.Agreement
import DynLisp.Proofs.Evaluation.Origin
import DynLisp.Proofs.WellFormed

/-!
# Kinds of values

The node of a literal or of an operator says of which kind its value is (`Expr.kind?`).  The node of
a name, of a call or of a conditional does not (`Expr.Dynamic`), and these are the expressions that
the grammar allows in every position, whatever kind of value is needed there.  The evaluator keeps
to what the nodes say (`Evaluation.kind_of_outcome`).  So an operand whose value turns out to be of
the wrong kind is a name, a call or a conditional, provided that everything in sight is well-formed;
and the evaluation of a well-formed expression whose functions are well-formed too meets nothing
else (`Enters.wellFormed`).

Where there are no names, no calls, no conditionals and no definitions, what can go wrong is the
arithmetic (`Expr.Calculation.settles`).
-/

namespace DynLisp

/-! ## Well-formed evaluations -/

/-- The bodies of all functions may stand where any expression may. -/
def Environment.BodiesWellFormed (env : Environment) : Prop :=
  ∀ f ∈ env.functions, f.2.body.WellFormed .any

instance : DecidablePred Environment.BodiesWellFormed :=
  fun env => inferInstanceAs (Decidable (∀ f ∈ env.functions, f.2.body.WellFormed .any))

theorem Environment.BodiesWellFormed.of_lookup {env : Environment} (h : env.BodiesWellFormed)
    {f : String} {definition : Definition} (hf : env.functions.lookup f = some definition) :
    definition.body.WellFormed .any := by
  obtain ⟨before, after, hsplit, -⟩ := List.lookup_eq_some_iff.1 hf
  have hmem : (f, definition) ∈ env.functions := by
    rw [hsplit]
    exact List.mem_append_cons_self
  exact h _ hmem

/-- What is evaluated may stand somewhere in a text, and so may the bodies of the functions. -/
structure Evaluation.WellFormed (c : Evaluation) : Prop where
  environment : c.environment.BodiesWellFormed
  expr : ∃ p, c.expr.WellFormed p

theorem Expr.WellFormed.operands {p : Position} {e : Expr} (h : e.WellFormed p) :
    ∀ operand ∈ e.operands, ∃ p, operand.WellFormed p := by
  cases e with
  | arith op l r =>
    rw [WellFormed] at h
    exact List.forall_mem_cons.2 ⟨⟨_, h.2.1⟩, List.forall_mem_singleton.2 ⟨_, h.2.2⟩⟩
  | logic op l r =>
    rw [WellFormed] at h
    exact List.forall_mem_cons.2 ⟨⟨_, h.2.1⟩, List.forall_mem_singleton.2 ⟨_, h.2.2⟩⟩
  | unary op a =>
    rw [WellFormed] at h
    exact List.forall_mem_singleton.2 ⟨_, h.2⟩
  | compare op l r =>
    rw [WellFormed] at h
    exact List.forall_mem_cons.2 ⟨⟨_, h.2.1⟩, List.forall_mem_singleton.2 ⟨_, h.2.2⟩⟩
  | call f args =>
    rw [WellFormed] at h
    exact fun operand hoperand => ⟨_, allWellFormed_iff.1 h.2 operand hoperand⟩
  | _ => exact nofun

/-- A well-formed evaluation starts well-formed evaluations. -/
theorem Enters.wellFormed [Machine] {c c' : Evaluation} (h : Enters c c') (hc : c.WellFormed) :
    c'.WellFormed := by
  have hbodies : c'.environment.BodiesWellFormed := by
    rw [Environment.BodiesWellFormed, h.functions]
    exact hc.environment
  refine ⟨hbodies, ?_⟩
  obtain ⟨hfunctions, p, he⟩ := hc
  cases h with
  | operand hoperands _ _ =>
    exact he.operands _ (hoperands ▸ List.mem_append_cons_self)
  | condition _ =>
    rw [Expr.WellFormed] at he
    exact ⟨_, (Expr.casesWellFormed_iff.1 he.2 _ List.mem_append_cons_self).1⟩
  | result _ _ =>
    rw [Expr.WellFormed] at he
    exact ⟨_, (Expr.casesWellFormed_iff.1 he.2 _ List.mem_append_cons_self).2⟩
  | body hargs hresolve =>
    have hlookup := lookup_of_resolveCall hresolve
    rw [((restores_evaluateAll (restores_calls _) _).of_ok hargs).functions] at hlookup
    exact ⟨_, hfunctions.of_lookup hlookup⟩

theorem wellFormed_of_reaches [Machine] {c c' : Evaluation} (hc : c.WellFormed)
    (h : Relation.ReflTransGen Enters c c') : c'.WellFormed := by
  induction h with
  | refl => exact hc
  | tail _ hstep ih => exact hstep.wellFormed ih

/-- A case that stands alone is not evaluated on the way of a well-formed evaluation. -/
theorem ne_case_of_reaches [Machine] {c c' : Evaluation} (hc : c.WellFormed)
    (h : Relation.ReflTransGen Enters c c') (condition result : Expr) :
    c'.expr ≠ .case condition result := by
  intro hcase
  obtain ⟨p, he⟩ := (wellFormed_of_reaches hc h).expr
  rw [hcase, Expr.WellFormed] at he
  exact he

/-! ## What nodes say -/

/-- The kind of the values of a form, if its node alone says it. -/
def Expr.kind? : Expr → Option ValueKind
  | number _ => some .number
  | arith .. => some .number
  | boolean _ => some .boolean
  | logic .. => some .boolean
  | unary .. => some .boolean
  | compare .. => some .boolean
  | _ => none

/-- A name, a call or a conditional: its values may be of either kind. -/
inductive Expr.Dynamic : Expr → Prop
  | var {x : String} : Dynamic (.var x)
  | call {f : String} {args : List Expr} : Dynamic (.call f args)
  | cond {cases : List (Expr × Expr)} : Dynamic (.cond cases)

/-- An evaluation that ends in a value ends in one of the kind that the node says. -/
theorem Evaluation.kind_of_outcome [Machine] {c : Evaluation} {kind : ValueKind} {v : Value}
    (hkind : c.expr.kind? = some kind) (hv : c.outcome = .ok v) : v.kind = kind := by
  obtain ⟨limit, env, e⟩ := c
  have hmeans := means_evaluate env.functions env.scope limit e
  have hvalue := (hmeans.outcome_iff rfl rfl (.ok v)).1 hv
  cases hvalue with
  | number => exact Option.some.inj hkind
  | boolean => exact Option.some.inj hkind
  | arith _ _ => exact Option.some.inj hkind
  | logic _ => exact Option.some.inj hkind
  | unary _ => exact Option.some.inj hkind
  | compare _ => exact Option.some.inj hkind
  | var _ => cases hkind
  | cond _ => cases hkind
  | call _ _ => cases hkind

/-- Where a value of one kind is needed, the grammar allows the forms of this kind and those that do
not say of which kind they are. -/
theorem Expr.WellFormed.kind_or_dynamic {kind : ValueKind} {e : Expr}
    (h : e.WellFormed (.only kind)) : e.kind? = some kind ∨ e.Dynamic := by
  cases e with
  | number n =>
    rw [WellFormed] at h
    exact .inl (congrArg some h.1.symm)
  | arith op l r =>
    rw [WellFormed] at h
    exact .inl (congrArg some h.1.symm)
  | boolean b =>
    rw [WellFormed] at h
    exact .inl (congrArg some h.symm)
  | logic op l r =>
    rw [WellFormed] at h
    exact .inl (congrArg some h.1.symm)
  | unary op operand =>
    rw [WellFormed] at h
    exact .inl (congrArg some h.1.symm)
  | compare op l r =>
    rw [WellFormed] at h
    exact .inl (congrArg some h.1.symm)
  | define f params body =>
    rw [WellFormed] at h
    cases h.1
  | case condition result =>
    rw [WellFormed] at h
    exact h.elim
  | var x => exact .inr .var
  | call f args => exact .inr .call
  | cond cases => exact .inr .cond

/-- The grammar puts an operand where a value of the kind is needed that the form wants. -/
theorem Expr.Wants.wellFormed {e operand parent : Expr} {wanted : ValueKind} {p : Position}
    (h : e.Wants operand wanted parent) (he : e.WellFormed p) :
    operand.WellFormed (.only wanted) := by
  cases h with
  | arith hmem =>
    rw [WellFormed] at he
    rcases List.mem_pair.1 hmem with rfl | rfl
    · exact he.2.1
    · exact he.2.2
  | logic hmem =>
    rw [WellFormed] at he
    rcases List.mem_pair.1 hmem with rfl | rfl
    · exact he.2.1
    · exact he.2.2
  | unary =>
    rw [WellFormed] at he
    exact he.2
  | compare hmem =>
    rw [WellFormed] at he
    rcases List.mem_pair.1 hmem with rfl | rfl
    · exact he.2.1
    · exact he.2.2
  | condition hmem =>
    rw [WellFormed] at he
    exact (casesWellFormed_iff.1 he.2 _ hmem).1

/-- A form that may stand somewhere refuses the value of a name, a call or a conditional only. -/
theorem Evaluation.Refuses.dynamic [Machine] {c operand : Evaluation} {wanted : ValueKind}
    {v : Value} {parent : Expr} {p : Position} (h : c.Refuses operand wanted v parent)
    (hc : c.expr.WellFormed p) : operand.expr.Dynamic := by
  have hoperand : operand.expr.WellFormed (.only wanted) := h.wants.wellFormed hc
  rcases hoperand.kind_or_dynamic with hkind | hdynamic
  · exact absurd (kind_of_outcome hkind h.outcome) h.kind
  · exact hdynamic

/-- A failure because of the kind of a value is raised on the way, by a form that refuses the
value. -/
theorem Evaluation.exists_refuses [Machine] {c : Evaluation} {fault : Fault} {location : Location}
    (h : c.outcome = .error (.error fault location)) (hkind : fault.kind = .valueKind) :
    ∃ c' operand wanted v parent, fault = .wrongKind wanted v parent ∧
      Relation.ReflTransGen Enters c c' ∧ c'.Refuses operand wanted v parent := by
  obtain ⟨⟨limit, env, e⟩, hway, hraises, -⟩ := exists_raises h
  generalize hfailure : Failure.error fault location = failure at hraises
  cases hraises with
  | operand hrefuses =>
    obtain ⟨rfl, -⟩ := Failure.error.inj hfailure
    exact ⟨_, _, _, _, _, rfl, hway, hrefuses⟩
  | form hraises hother =>
    cases hraises with
    | operand _ _ => exact absurd rfl (hother _ _ _)
    | condition _ _ => exact absurd rfl (hother _ _ _)
    | depthExceeded => cases hfailure
    | _ =>
      obtain ⟨rfl, -⟩ := Failure.error.inj hfailure
      cases hkind

/-! ## Expressions without names, calls, conditionals and definitions -/

/-- There is no name, no call, no conditional and no definition in an expression. -/
def Expr.Plain : Expr → Prop
  | number _ => True
  | boolean _ => True
  | arith _ l r => l.Plain ∧ r.Plain
  | logic _ l r => l.Plain ∧ r.Plain
  | unary _ operand => operand.Plain
  | compare _ l r => l.Plain ∧ r.Plain
  | case condition result => condition.Plain ∧ result.Plain
  | _ => False

theorem Expr.Dynamic.not_plain {e : Expr} (h : e.Dynamic) : ¬ e.Plain := by
  cases h <;> exact id

theorem Expr.Plain.operands {e : Expr} (h : e.Plain) : ∀ operand ∈ e.operands, operand.Plain := by
  cases e with
  | arith op l r => exact List.forall_mem_cons.2 ⟨h.1, List.forall_mem_singleton.2 h.2⟩
  | logic op l r => exact List.forall_mem_cons.2 ⟨h.1, List.forall_mem_singleton.2 h.2⟩
  | unary op operand => exact List.forall_mem_singleton.2 h
  | compare op l r => exact List.forall_mem_cons.2 ⟨h.1, List.forall_mem_singleton.2 h.2⟩
  | call f args => exact h.elim
  | _ => exact List.forall_mem_nil _

theorem Expr.WellFormed.exists_kind {p : Position} {e : Expr} (h : e.WellFormed p)
    (hplain : e.Plain) : ∃ kind, e.kind? = some kind := by
  cases e with
  | case condition result =>
    rw [WellFormed] at h
    exact h.elim
  | cond cases => exact hplain.elim
  | define f params body => exact hplain.elim
  | var x => exact hplain.elim
  | call f args => exact hplain.elim
  | _ => exact ⟨_, rfl⟩

/-- A calculation: a plain expression that may stand somewhere in a text. -/
structure Expr.Calculation (e : Expr) : Prop where
  plain : e.Plain
  wellFormed : ∃ p, e.WellFormed p

/-- The evaluations that a calculation starts are those of its operands, which are calculations. -/
theorem Enters.calculation [Machine] {c c' : Evaluation} (h : Enters c c')
    (hc : c.expr.Calculation) : c'.expr.Calculation := by
  obtain ⟨hplain, p, hwell⟩ := hc
  cases h with
  | operand hoperands _ _ =>
    exact ⟨hplain.operands _ (hoperands ▸ List.mem_append_cons_self),
      hwell.operands _ (hoperands ▸ List.mem_append_cons_self)⟩
  | condition _ => exact hplain.elim
  | result _ _ => exact hplain.elim
  | body _ _ => exact hplain.elim

theorem calculation_of_reaches [Machine] {c c' : Evaluation} (hc : c.expr.Calculation)
    (h : Relation.ReflTransGen Enters c c') : c'.expr.Calculation := by
  induction h with
  | refl => exact hc
  | tail _ hstep ih => exact hstep.calculation ih

/-- All that a calculation raises is a fault of the arithmetic. -/
theorem Evaluation.Raises.arithmetic [Machine] {c : Evaluation} {failure : Failure}
    (h : c.Raises failure) (hc : c.expr.Calculation) :
    ∃ fault, failure = (Fault.arithmetic fault).failure := by
  obtain ⟨limit, env, e⟩ := c
  obtain ⟨hplain, p, hwell⟩ := hc
  cases h with
  | operand hrefuses =>
    -- the operand is a calculation too, so that its node says of which kind the value is
    have hoperand := hrefuses.enters.calculation ⟨hplain, p, hwell⟩
    exact absurd hoperand.plain (hrefuses.dynamic hwell).not_plain
  | form hraises hother =>
    cases hraises with
    | arithmetic _ => exact ⟨_, rfl⟩
    | operand _ _ => exact absurd rfl (hother _ _ _)
    | condition _ _ => exact hplain.elim
    | notEvaluable =>
      rw [Expr.WellFormed] at hwell
      exact hwell.elim
    | _ => exact hplain.elim

/-- A calculation ends in a value of the kind that its node says, or in a fault of the arithmetic,
whatever the functions and the variables are. -/
theorem Expr.Calculation.settles [Machine] {e : Expr} (he : e.Calculation) (limit : Nat)
    (env : Environment) :
    (∃ v, (evaluate limit e).outcome env = .ok v ∧ e.kind? = some v.kind) ∨
      ∃ fault, (evaluate limit e).outcome env = .error (Fault.arithmetic fault).failure := by
  cases hout : (evaluate limit e).outcome env with
  | ok v =>
    have hv : Evaluation.outcome ⟨limit, env, e⟩ = .ok v := hout
    obtain ⟨hplain, p, hwell⟩ := he
    obtain ⟨kind, hkind⟩ := hwell.exists_kind hplain
    obtain rfl := Evaluation.kind_of_outcome hkind hv
    exact .inl ⟨v, rfl, hkind⟩
  | error failure =>
    have hfails : Evaluation.outcome ⟨limit, env, e⟩ = .error failure := hout
    obtain ⟨c, hway, hraises, -⟩ := exists_raises hfails
    obtain ⟨fault, rfl⟩ := hraises.arithmetic (calculation_of_reaches he hway)
    exact .inr ⟨fault, rfl⟩

/-! ## Soundness -/

/-- **The kinds of nodes are sound.**  An evaluation of a literal or of an operator that ends in a
value ends in one of the kind that the node says.  If an evaluation fails because of the kind of a
value, then on its way there is a form that refuses the value of an operand; and if the expression
and the functions are well-formed, then every operand on the way whose value is refused is a name, a
call or a conditional.  A well-formed expression without names, calls, conditionals and definitions
ends in a value of its kind or in a fault of the arithmetic. -/
theorem kinds_sound [Machine] :
    (∀ (c : Evaluation) (kind : ValueKind) (v : Value),
      c.expr.kind? = some kind → c.outcome = .ok v → v.kind = kind) ∧
    (∀ (c : Evaluation) (fault : Fault) (location : Location),
      c.outcome = .error (.error fault location) → fault.kind = .valueKind →
      ∃ c' operand wanted v parent, fault = .wrongKind wanted v parent ∧
        Relation.ReflTransGen Enters c c' ∧ c'.Refuses operand wanted v parent) ∧
    (∀ c : Evaluation, c.WellFormed → ∀ (c' operand : Evaluation) (wanted : ValueKind) (v : Value)
      (parent : Expr), Relation.ReflTransGen Enters c c' → c'.Refuses operand wanted v parent →
      operand.expr.Dynamic) ∧
    ∀ (p : Position) (e : Expr), e.WellFormed p → e.Plain → ∀ (limit : Nat) (env : Environment),
      (∃ v, (evaluate limit e).outcome env = .ok v ∧ e.kind? = some v.kind) ∨
        ∃ fault, (evaluate limit e).outcome env = .error (Fault.arithmetic fault).failure := by
  refine ⟨fun c kind v => Evaluation.kind_of_outcome, fun c fault location => ?_,
    fun c hc c' operand wanted v parent hway hrefuses => ?_, fun p e hwell hplain limit env => ?_⟩
  · exact Evaluation.exists_refuses
  · obtain ⟨p, hwell⟩ := (wellFormed_of_reaches hc hway).expr
    exact hrefuses.dynamic hwell
  · exact Expr.Calculation.settles ⟨hplain, p, hwell⟩ limit env

/-- `(pick x)` is `x` if this is positive, and `false` if not.  `(+ 1 (pick 3))` is a number,
`(+ 1 (pick 0))` fails because of the value of the call, and `(< (/ 1 0) 2)` because of the
division. -/
theorem kinds_sound_mixed_results :
    let _ : Machine := .ofCalls 1
    let body : Expr := .cond [(.compare .greater (.var "x") (.number 0), .var "x"),
      (.boolean true, .boolean false)]
    let env := Environment.ofFunctions [("pick", ⟨["x"], body⟩)]
    let sum (n : Int) : Evaluation := ⟨1, env, .arith .add (.number 1) (.call "pick" [.number n])⟩
    let quotient : Expr := .compare .less (.arith .div (.number 1) (.number 0)) (.number 2)
    ((sum 3).expr.kind? = some .number ∧ (sum 3).outcome = .ok (.number 4) ∧
      (Value.number 4).kind = .number) ∧
    ((sum 0).WellFormed ∧
      (sum 0).outcome = .error (Fault.wrongKind .number (.boolean false) (sum 0).expr).failure ∧
      ∃ c' operand, Relation.ReflTransGen Enters (sum 0) c' ∧
        c'.Refuses operand .number (.boolean false) (sum 0).expr ∧ operand.expr.Dynamic) ∧
    quotient.WellFormed .any ∧ quotient.Plain ∧
      ∃ fault, (evaluate 0 quotient).outcome .empty = .error (Fault.arithmetic fault).failure := by
  intro _ body env sum quotient
  obtain ⟨hvalues, hfaults, hdynamic, hcalculations⟩ := kinds_sound
  have hfour : (sum 3).outcome = .ok (.number 4) := by decide +kernel
  have hfails : (sum 0).outcome =
      .error (Fault.wrongKind .number (.boolean false) (sum 0).expr).failure := by decide +kernel
  have hsum : (sum 0).WellFormed := ⟨by decide +kernel, .any, by decide +kernel⟩
  have hquotient : quotient.WellFormed .any := by decide +kernel
  have hplain : quotient.Plain := ⟨⟨trivial, trivial⟩, trivial⟩
  refine ⟨⟨rfl, hfour, hvalues (sum 3) .number _ rfl hfour⟩, ⟨hsum, hfails, ?_⟩,
    hquotient, hplain, ?_⟩
  · obtain ⟨c', operand, wanted, v, parent, hfault, hway, hrefuses⟩ :=
      hfaults (sum 0) _ _ hfails rfl
    obtain ⟨rfl, rfl, rfl⟩ := Fault.wrongKind.inj hfault
    exact ⟨c', operand, hway, hrefuses, hdynamic _ hsum c' operand _ _ _ hway hrefuses⟩
  · rcases hcalculations .any quotient hquotient hplain 0 .empty with ⟨v, hv, -⟩ | hfault
    · have hrefused : (evaluate 0 quotient).outcome .empty =
          .error (Fault.arithmetic (.divisionByZero 1)).failure := by decide +kernel
      rw [hrefused] at hv
      cases hv
    · exact hfault

end DynLisp
