import DynLisp.Proofs.Arithmetic
import DynLisp.Proofs.Environment.Scope
import DynLisp.Proofs.Evaluation.Enters
import DynLisp.Proofs.WellFormed

/-!
# Numbers stay in range

If the numbers that are bound are in range, and the literals of all bodies of functions, then so are
all numbers that an evaluation of an expression with such literals computes.  Four of the operators
check their result; the remainder needs no check, since it is no further from zero than its dividend
(`ArithOp.inRange_of_apply`).

A number is computed as the value of some expression in some environment.  The evaluations that are
started on the way of another one, at whatever depth, are those that `Enters` reaches in any number
of steps, and all of them keep within the range (`inRange_of_reaches`).
-/

namespace DynLisp

open DynLisp.Action

/-! ## Ranges -/

/-- A number of 32 bits, or a boolean. -/
def Value.InRange : Value → Prop
  | .number n => inRange n = true
  | .boolean _ => True

namespace Expr

mutual

/-- All literals of a tree are numbers of 32 bits. -/
def LiteralsInRange : Expr → Prop
  | number n => inRange n = true
  | boolean _ => True
  | arith _ l r => LiteralsInRange l ∧ LiteralsInRange r
  | logic _ l r => LiteralsInRange l ∧ LiteralsInRange r
  | unary _ e => LiteralsInRange e
  | compare _ l r => LiteralsInRange l ∧ LiteralsInRange r
  | case c r => LiteralsInRange c ∧ LiteralsInRange r
  | cond cases => CasesLiteralsInRange cases
  | define _ _ body => LiteralsInRange body
  | var _ => True
  | call _ args => AllLiteralsInRange args

/-- All literals of a list of trees are numbers of 32 bits. -/
def AllLiteralsInRange : List Expr → Prop
  | [] => True
  | e :: es => LiteralsInRange e ∧ AllLiteralsInRange es

/-- All literals of a list of cases are numbers of 32 bits. -/
def CasesLiteralsInRange : List (Expr × Expr) → Prop
  | [] => True
  | (c, r) :: cases => LiteralsInRange c ∧ LiteralsInRange r ∧ CasesLiteralsInRange cases

end

mutual

/-- The literals of a tree that can be written are in range. -/
theorem WellFormed.literalsInRange : ∀ {p : Position} (e : Expr), e.WellFormed p → e.LiteralsInRange
  | p, .number n, h => by
    rw [WellFormed] at h
    exact h.2
  | p, .boolean b, h => trivial
  | p, .arith op l r, h => by
    rw [WellFormed] at h
    exact ⟨h.2.1.literalsInRange, h.2.2.literalsInRange⟩
  | p, .logic op l r, h => by
    rw [WellFormed] at h
    exact ⟨h.2.1.literalsInRange, h.2.2.literalsInRange⟩
  | p, .unary op e, h => by
    rw [WellFormed] at h
    exact h.2.literalsInRange
  | p, .compare op l r, h => by
    rw [WellFormed] at h
    exact ⟨h.2.1.literalsInRange, h.2.2.literalsInRange⟩
  | p, .case c r, h => by
    rw [WellFormed] at h
    exact h.elim
  | p, .cond cases, h => by
    rw [WellFormed] at h
    exact CasesWellFormed.literalsInRange cases h.2
  | p, .define f params body, h => by
    rw [WellFormed] at h
    exact h.2.2.2.2.literalsInRange
  | p, .var x, h => trivial
  | p, .call f args, h => by
    rw [WellFormed] at h
    exact AllWellFormed.literalsInRange args h.2

theorem AllWellFormed.literalsInRange : ∀ es, AllWellFormed es → AllLiteralsInRange es
  | [], _ => trivial
  | e :: es, h => by
    rw [AllWellFormed] at h
    exact ⟨h.1.literalsInRange, AllWellFormed.literalsInRange es h.2⟩

theorem CasesWellFormed.literalsInRange :
    ∀ cases, CasesWellFormed cases → CasesLiteralsInRange cases
  | [], _ => trivial
  | (c, r) :: cases, h => by
    rw [CasesWellFormed] at h
    exact ⟨h.1.literalsInRange, h.2.1.literalsInRange, CasesWellFormed.literalsInRange cases h.2.2⟩

end

end Expr

/-- All numbers that are bound, on every level, and all literals of functions are in range. -/
structure Environment.InRange (env : Environment) : Prop where
  bindings : ∀ entry ∈ env.bindings.entries, ∀ v ∈ entry.2, v.InRange
  functions : ∀ f ∈ env.functions, f.2.body.LiteralsInRange

/-! ## Environments -/

namespace Environment

/-- What is restored has no other values and functions than before. -/
theorem InRange.of_restored {before after : Environment} (h : before.InRange)
    (hrestored : Restored before after) : after.InRange := by
  refine ⟨fun entry hentry => h.bindings entry ?_, hrestored.functions ▸ h.functions⟩
  exact hrestored.pruned.subset hentry

theorem InRange.bound {env : Environment} (h : env.InRange) {pairs : List (String × Value)}
    (hpairs : ∀ pair ∈ pairs, pair.2.InRange) : (env.bound pairs).InRange := by
  induction pairs generalizing env with
  | nil => exact h
  | cons pair pairs ih =>
    obtain ⟨hpair, hpairs⟩ := List.forall_mem_cons.1 hpairs
    have hpushed : InRange { env with bindings := env.bindings.push pair.1 pair.2 } :=
      ⟨Bindings.forall_mem_pushEntry hpair h.bindings, h.functions⟩
    exact ih hpushed hpairs

theorem maintains_lookup (x : String) : Maintains InRange Value.InRange (lookup x) := by
  refine maintains_get_bind fun env henv => ?_
  cases hx : env.bindings.lookup? x with
  | none => exact maintains_throw _
  | some v =>
    refine maintains_pure ?_
    obtain ⟨vs, hentry, hv⟩ := Bindings.exists_of_lookup? hx
    exact henv.bindings _ hentry v hv

theorem maintains_function (f : String) :
    Maintains InRange (fun definition => definition.body.LiteralsInRange) (function f) := by
  refine maintains_get_bind fun env henv => ?_
  cases hf : env.functions.lookup f with
  | none => exact maintains_throw _
  | some definition =>
    refine maintains_pure ?_
    obtain ⟨before, after, hsplit, -⟩ := List.lookup_eq_some_iff.1 hf
    exact henv.functions (f, definition) (by rw [hsplit]; simp)

theorem maintains_note (notice : Notice) : Maintains InRange (fun _ => True) (note notice) :=
  maintains_modify fun _ henv => ⟨henv.bindings, henv.functions⟩

theorem maintains_popAll (xs : List String) :
    Maintains InRange (fun _ => True) (popAll xs) := by
  induction xs with
  | nil => exact maintains_pure trivial
  | cons x xs ih =>
    have hpop : Maintains InRange (fun _ => True) (pop x) := by
      refine maintains_get_bind fun env henv => ?_
      have hpopped : InRange { env with bindings := (env.bindings.pop x).2 } :=
        ⟨Bindings.forall_mem_popEntry henv.bindings, henv.functions⟩
      refine (maintains_modify fun env' henv' => ?_).bind (Q := fun _ => True) fun _ _ => ?_
      · exact ⟨hpopped.bindings, henv'.functions⟩
      · cases (Bindings.popEntry x env.bindings.entries).1 with
        | none => exact maintains_throw _
        | some v => exact maintains_pure trivial
    have hdiscard : Maintains InRange (fun _ => True) (discard (pop x) : Action PUnit) := by
      rw [discard_eq]
      exact hpop.bind fun _ _ => maintains_pure trivial
    exact hdiscard.bind fun _ _ => ih

/-- Whatever stays of a block was in range. -/
theorem maintains_binding {α : Type} {Q : α → Prop} {body : Action α}
    (hbody : Maintains InRange Q body) (kept : Nat) {pairs : List (String × Value)}
    (hpairs : ∀ pair ∈ pairs, pair.2.InRange) : Maintains InRange Q (binding kept pairs body) := by
  intro env henv
  have hblock := maintains_andFinally hbody (fun failure =>
    maintains_popAll (released kept (pairs.map Prod.fst) failure).reverse) _ (henv.bound hpairs)
  unfold Action.after Action.outcome at hblock ⊢
  rwa [binding_run]

end Environment

open Environment (InRange)

/-! ## Expressions -/

theorem maintains_expectNumber (parent : Expr) {v : Value} (hv : v.InRange) :
    Maintains InRange (inRange · = true) (expectNumber parent v) := by
  cases v with
  | number n => exact maintains_pure hv
  | boolean b => exact maintains_throw _

theorem maintains_expectBoolean (parent : Expr) (v : Value) :
    Maintains InRange (fun _ => True) (expectBoolean parent v) := by
  cases v with
  | number n => exact maintains_throw _
  | boolean b => exact maintains_pure trivial

/-- Calls have values in range if their arguments are. -/
def CallsInRange (call : String → List Value → Action Value) : Prop :=
  ∀ f vs, (∀ v ∈ vs, v.InRange) → Maintains InRange Value.InRange (call f vs)

section

variable {call : String → List Value → Action Value}

mutual

/-- An expression has a value in range if its literals and the values of the calls in it are. -/
theorem maintains_evaluateWith (hcall : CallsInRange call) :
    ∀ e : Expr, e.LiteralsInRange → Maintains InRange Value.InRange (evaluateWith call e)
  | .number n, he => maintains_pure he
  | .boolean b, _ => maintains_pure trivial
  | .arith op l r, he => by
    rw [evaluateWith]
    refine (maintains_evaluateWith hcall l he.1).bind fun v hv => ?_
    refine (maintains_expectNumber _ hv).bind fun a ha => ?_
    refine (maintains_evaluateWith hcall r he.2).bind fun w hw => ?_
    refine (maintains_expectNumber _ hw).bind fun b _ => ?_
    cases happly : op.apply a b with
    | ok n => exact maintains_pure (ArithOp.inRange_of_apply ha happly)
    | error fault => exact maintains_throw _
  | .logic op l r, he => by
    rw [evaluateWith]
    refine (maintains_evaluateWith hcall l he.1).bind fun v _ => ?_
    refine (maintains_expectBoolean _ v).bind fun a _ => ?_
    refine (maintains_evaluateWith hcall r he.2).bind fun w _ => ?_
    exact (maintains_expectBoolean _ w).bind fun b _ => maintains_pure trivial
  | .unary op e, he => by
    rw [evaluateWith]
    refine (maintains_evaluateWith hcall e he).bind fun v _ => ?_
    exact (maintains_expectBoolean _ v).bind fun a _ => maintains_pure trivial
  | .compare op l r, he => by
    rw [evaluateWith]
    refine (maintains_evaluateWith hcall l he.1).bind fun v hv => ?_
    refine (maintains_expectNumber _ hv).bind fun a _ => ?_
    refine (maintains_evaluateWith hcall r he.2).bind fun w hw => ?_
    exact (maintains_expectNumber _ hw).bind fun b _ => maintains_pure trivial
  | .cond cases, he => by
    rw [evaluateWith]
    refine (maintains_evaluateCases hcall cases he).bind fun found hfound => ?_
    cases found with
    | none => exact maintains_throw _
    | some v => exact maintains_pure (hfound v rfl)
  | .var x, _ => Environment.maintains_lookup x
  | .call f args, he => by
    rw [evaluateWith]
    exact (maintains_evaluateAll hcall args he).bind fun vs hvs => hcall f vs hvs
  | .define _ _ _, _ => maintains_throw _
  | .case _ _, _ => maintains_throw _

theorem maintains_evaluateAll (hcall : CallsInRange call) :
    ∀ es : List Expr, Expr.AllLiteralsInRange es →
      Maintains InRange (fun vs => ∀ v ∈ vs, v.InRange) (evaluateAll call es)
  | [], _ => maintains_pure nofun
  | e :: es, hes => by
    rw [evaluateAll]
    refine (maintains_evaluateWith hcall e hes.1).bind fun v hv => ?_
    refine (maintains_evaluateAll hcall es hes.2).bind fun vs hvs => ?_
    exact maintains_pure (List.forall_mem_cons.2 ⟨hv, hvs⟩)

theorem maintains_evaluateCases (hcall : CallsInRange call) :
    ∀ cases : List (Expr × Expr), Expr.CasesLiteralsInRange cases →
      Maintains InRange (fun found => ∀ v, found = some v → v.InRange) (evaluateCases call cases)
  | [], _ => maintains_pure nofun
  | (condition, result) :: cases, h => by
    rw [evaluateCases]
    refine (maintains_evaluateWith hcall condition h.1).bind fun v _ => ?_
    refine (maintains_expectBoolean _ v).bind fun holds _ => ?_
    cases holds with
    | true =>
      refine (maintains_evaluateWith hcall result h.2.1).bind fun w hw => maintains_pure ?_
      rintro _ ⟨⟩
      exact hw
    | false => exact maintains_evaluateCases hcall cases h.2.2

end

end

/-! ## Calls -/

theorem maintains_resolveCall (f : String) (vs : List Value) :
    Maintains InRange (fun definition => definition.body.LiteralsInRange) (resolveCall f vs) := by
  refine (Environment.maintains_function f).bind fun definition hdefinition => ?_
  have hnoted : Maintains InRange (fun definition => definition.body.LiteralsInRange) (do
      Environment.note (.calling f (definition.params.zip vs))
      return definition) :=
    (Environment.maintains_note _).bind fun _ _ => maintains_pure hdefinition
  by_cases h : vs.length ≠ definition.params.length
  · rw [if_pos h]
    exact (maintains_throw (Q := fun _ => True) _).bind fun _ _ => hnoted
  · rw [if_neg h]
    exact hnoted

theorem inRange_of_mem_zip {params : List String} {vs : List Value} (hvs : ∀ v ∈ vs, v.InRange) :
    ∀ pair ∈ params.zip vs, pair.2.InRange :=
  fun pair hpair => hvs pair.2 (List.of_mem_zip (a := pair.1) (b := pair.2) hpair).2

theorem callsInRange_callWith {body : Expr → Action Value}
    (hbody : ∀ e : Expr, e.LiteralsInRange → Maintains InRange Value.InRange (body e))
    (kept : Nat) : CallsInRange (callWith kept body) := fun f vs hvs =>
  (maintains_resolveCall f vs).bind fun _ hdefinition =>
    Environment.maintains_binding (hbody _ hdefinition) kept (inRange_of_mem_zip hvs)

theorem callsInRange_calls [Machine] (limit : Nat) : CallsInRange (calls limit) := by
  induction limit with
  | zero => exact callsInRange_callWith (fun _ _ => maintains_throw _) _
  | succ limit ih =>
    refine callsInRange_callWith (fun e he => ?_) _
    rw [evaluate_eq]
    exact maintains_evaluateWith ih e he

theorem maintains_evaluate [Machine] (limit : Nat) (e : Expr) (he : e.LiteralsInRange) :
    Maintains InRange Value.InRange (evaluate limit e) := by
  rw [evaluate_eq]
  exact maintains_evaluateWith (callsInRange_calls limit) e he

/-! ## Evaluations on the way -/

/-- The environment and the literals of an evaluation are in range. -/
structure Evaluation.InRange (c : Evaluation) : Prop where
  environment : c.environment.InRange
  literals : c.expr.LiteralsInRange

theorem allLiteralsInRange_append {es es' : List Expr} :
    Expr.AllLiteralsInRange (es ++ es') ↔
      Expr.AllLiteralsInRange es ∧ Expr.AllLiteralsInRange es' := by
  induction es with
  | nil => simp [Expr.AllLiteralsInRange]
  | cons e es ih => simp [Expr.AllLiteralsInRange, ih, and_assoc]

theorem casesLiteralsInRange_append {cases cases' : List (Expr × Expr)} :
    Expr.CasesLiteralsInRange (cases ++ cases') ↔
      Expr.CasesLiteralsInRange cases ∧ Expr.CasesLiteralsInRange cases' := by
  induction cases with
  | nil => simp [Expr.CasesLiteralsInRange]
  | cons c cases ih =>
    obtain ⟨condition, result⟩ := c
    simp [Expr.CasesLiteralsInRange, ih, and_assoc]

theorem Expr.LiteralsInRange.operands {e : Expr} (h : e.LiteralsInRange) :
    AllLiteralsInRange e.operands := by
  cases e with
  | arith op l r => exact ⟨h.1, h.2, trivial⟩
  | logic op l r => exact ⟨h.1, h.2, trivial⟩
  | unary op e => exact ⟨h, trivial⟩
  | compare op l r => exact ⟨h.1, h.2, trivial⟩
  | call f args => exact h
  | _ => trivial

/-- An evaluation in range starts evaluations in range. -/
theorem Enters.inRange [Machine] {c c' : Evaluation} (h : Enters c c') (hc : c.InRange) :
    c'.InRange := by
  obtain ⟨henv, hliterals⟩ := hc
  cases h with
  | @operand limit _ _ _ _ _ _ _ hoperands hrun _ =>
    have hall := hliterals.operands
    rw [hoperands, allLiteralsInRange_append] at hall
    have hbefore := maintains_evaluateAll (callsInRange_calls limit) _ hall.1
    exact ⟨(hbefore.of_ok henv hrun).1, hall.2.1⟩
  | @condition limit _ _ _ _ _ _ hrun =>
    obtain ⟨hbefore, hcondition, -, -⟩ := casesLiteralsInRange_append.1 hliterals
    have hcases := maintains_evaluateCases (callsInRange_calls limit) _ hbefore
    exact ⟨(hcases.of_ok henv hrun).1, hcondition⟩
  | @result limit _ _ _ _ _ _ _ hrun hholds =>
    obtain ⟨hbefore, hcondition, hresult, -⟩ := casesLiteralsInRange_append.1 hliterals
    have hcases := maintains_evaluateCases (callsInRange_calls limit) _ hbefore
    have henv' := (hcases.of_ok henv hrun).1
    exact ⟨((maintains_evaluate _ _ hcondition).of_ok henv' hholds).1, hresult⟩
  | @body limit _ _ _ _ _ _ _ hrun hresolve =>
    have hargs := maintains_evaluateAll (callsInRange_calls (limit + 1)) _ hliterals
    obtain ⟨henv', hvs⟩ := hargs.of_ok henv hrun
    obtain ⟨henv'', hbody⟩ := (maintains_resolveCall _ _).of_ok henv' hresolve
    exact ⟨henv''.bound (inRange_of_mem_zip hvs), hbody⟩

/-- All evaluations on the way of an evaluation in range are in range, and what they end in is. -/
theorem inRange_of_reaches [Machine] {c c' : Evaluation} (hc : c.InRange)
    (h : Relation.ReflTransGen Enters c c') :
    c'.InRange ∧ ∀ v, c'.outcome = .ok v → v.InRange := by
  have hc' : c'.InRange := by
    induction h with
    | refl => exact hc
    | tail _ hstep ih => exact hstep.inRange ih
  exact ⟨hc', (maintains_evaluate c'.limit c'.expr hc'.literals _ hc'.environment).2⟩

end DynLisp
