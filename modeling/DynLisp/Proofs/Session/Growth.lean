import DynLisp.Proofs.Evaluation.Extension
import DynLisp.Proofs.Session.Forms
import Mathlib.Logic.Relation

/-!
# What later definitions leave as it was

Whatever a session or a shell is given, no function is ever redefined or forgotten, and what failed
midway keeps the functions that it defined before it failed (`Given.functions`).  This goes for the
environments too that there were in the middle of a text (`Job.Starts.maintains`).  Evaluations take
back what they bind, at least on a steady machine, and so the environment afterwards extends the one
before (`Given.extended`).  An extension does not change what an evaluation ends in, unless that is
the want of a function which is defined in the extension.

So an expression that had a value has it for ever, and so have the expressions of a text that
defines nothing.  `outcome_kept` puts this together.
-/

namespace DynLisp

open DynLisp.Action Environment

/-- An action that does not fail keeps its result where it persists. -/
theorem Action.Persists.outcome_eq_ok {α : Type} {act : Action α} (hact : act.Persists)
    {env env' : Environment} (h : Extended env env') {a : α} (ha : act.outcome env = .ok a) :
    act.outcome env' = .ok a := by
  rcases hact env env' h with heq | ⟨f, hf, -, -⟩
  · rw [heq, ha]
  · rw [ha] at hf
    cases hf

/-! ## Environments of sessions -/

section

variable [Machine]

/-- Functions are kept, on any machine. -/
theorem functions_invariant (env : Environment) :
    Session.Invariant (fun env' => ∀ f definition, env.functions.lookup f = some definition →
      env'.functions.lookup f = some definition) fun _ => True where
  restored hrestored h f definition hf := hrestored.functions ▸ h f definition hf
  defined _ _ h f definition hf := (extended_withFunction _ _ _).functions f definition (h f _ hf)
  evaluated {limit e} _ env' h :=
    ⟨fun f definition hf => (restores_evaluate limit e).functions env' ▸ h f definition hf,
      fun _ _ => trivial⟩

/-- The extensions of an environment are kept up on a steady machine. -/
theorem extended_invariant (hsteady : Machine.Steady) (env : Environment) :
    Session.Invariant (Extended env) fun _ => True where
  restored hrestored h := h.trans hrestored.extended
  defined _ _ h := h.trans (extended_withFunction _ _ _)
  evaluated {limit e} _ env' h :=
    ⟨h.trans ((restores_evaluate limit e).restored env' (.inl hsteady)).extended,
      fun _ _ => trivial⟩

/-- What every step of what is given keeps up is kept up. -/
theorem Session.Invariant.reflTransGen {I : Environment → Prop} {V : Value → Prop}
    (hI : Session.Invariant I V) {env env' : Environment}
    (h : Relation.ReflTransGen Given env env') (henv : I env) : I env' := by
  induction h with
  | refl => exact henv
  | tail _ hstep ih => exact hI.given hstep ih

/-! ## Within a text -/

/-- What is kept up from an evaluation on that a job starts holds after the job. -/
theorem Job.Starts.maintains {I : Environment → Prop} {V : Value → Prop}
    (hI : Session.Invariant I V) {job : Job} {env : Environment} {c : Evaluation}
    (h : job.Starts env c) (hc : I c.environment) : I (job.act.after env) := by
  induction h with
  | @execute source ts before after start e results env env' c htokens hforms hbefore _ hbegins =>
    obtain ⟨lines, -, rfl⟩ := hbegins
    have hrestored : Restored (env'.noted (.tree lines)) env' := ⟨rfl, .refl _⟩
    have henv' : I env' := hI.restored hrestored hc
    have hwell := wellFormed_of_mem_readForms (isLexical_of_mem_tokens htokens)
    rw [hforms] at hwell
    have hrest := Session.maintains_takeForms
      (fun t e he => hI.executeForm (blankComments source) t he)
      (List.forall_mem_append.1 hwell).2
    have htext := @Session.after_takeText _ Session.executeForm _ _ htokens env
    rw [hforms, Session.after_takeForms_append hbefore] at htext
    have hafter : I ((Session.execute source).after env) := htext ▸ (hrest env' henv').1
    exact hafter
  | @evaluate source e env c hparse hbegins =>
    obtain ⟨lines, -, rfl⟩ := hbegins
    have hrestored : Restored (env.noted (.tree lines)) env := ⟨rfl, .refl _⟩
    exact (hI.evaluate source env (hI.restored hrestored hc)).1
  | @run env env' c hcheck _ ih =>
    have hafter : Session.run.after env = _ := after_bind_of_ok _ hcheck
    exact hafter ▸ ih hc
  | @runProgram source env env' c hload _ ih =>
    have hafter : (DynLisp.runProgram source).after env = _ := after_bind_of_ok _ hload
    exact hafter ▸ ih hc
  | @runSnippet source e env hparse => exact (hI.runSnippet source env hc).1

/-! ## Texts without definitions -/

/-- No form of a text is a definition, as far as the forms are read. -/
def DefinesNothing (source : String) : Prop :=
  ∀ ts, tokens (blankComments source) = .ok ts →
    ∀ form ∈ (readForms ts).1, ∀ f params body, form.2 ≠ .define f params body

instance (e : Expr) : Decidable (∀ f params body, e ≠ .define f params body) :=
  match e with
  | .define f params body => isFalse fun h => h f params body rfl
  | .number _ | .boolean _ | .arith .. | .logic .. | .unary .. | .compare .. | .case ..
  | .cond _ | .var _ | .call .. => isTrue nofun

instance (source : String) : Decidable (DefinesNothing source) :=
  match htokens : tokens (blankComments source) with
  | .error _ => isTrue fun ts h => by cases htokens.symm.trans h
  | .ok ts =>
    decidable_of_iff (∀ form ∈ (readForms ts).1, ∀ f params body, form.2 ≠ .define f params body)
      ⟨fun hforms us h => by
        obtain rfl := Except.ok.inj (htokens.symm.trans h)
        exact hforms, fun h => h ts htokens⟩

namespace Session

theorem steady_evaluateExpr (e : Expr) :
    (evaluateExpr e).Restores ∧ (evaluateExpr e).Persists := by
  have hvalue := evaluative_persists.evaluate Machine.calls e
  rw [evaluateExpr]
  cases e.display 0 with
  | ok lines => exact evaluative_persists.bind (evaluative_persists.note _) fun _ => hvalue
  | error part =>
    exact evaluative_persists.bind
      ⟨restores_throw (.cannotDisplay part), persists_of_const fun _ => rfl⟩ fun _ => hvalue

theorem persists_evaluate (source : String) : (evaluate source).Persists := by
  rw [evaluate]
  cases parse source with
  | ok e => exact (steady_evaluateExpr e).2
  | error failure => exact persists_of_const fun _ => rfl

theorem persists_takeForms {α : Type} {act : Token → Expr → Action (List α)}
    {forms : List (Token × Expr)}
    (hact : ∀ form ∈ forms, (act form.1 form.2).Restores ∧ (act form.1 form.2).Persists) :
    (takeForms act forms).Restores ∧ (takeForms act forms).Persists := by
  induction forms with
  | nil => exact evaluative_persists.pure _
  | cons form forms ih =>
    obtain ⟨t, e⟩ := form
    obtain ⟨hform, hforms⟩ := List.forall_mem_cons.1 hact
    refine evaluative_persists.bind hform fun results => ?_
    exact evaluative_persists.bind (ih hforms) fun later => evaluative_persists.pure _

theorem persists_execute {source : String} (h : DefinesNothing source) :
    (execute source).Persists := by
  rw [execute, takeText]
  cases htokens : tokens (blankComments source) with
  | error failure => exact persists_of_const fun _ => rfl
  | ok ts =>
    refine (evaluative_persists.bind (evaluative_persists.note _) fun _ =>
      evaluative_persists.bind (persists_takeForms fun form hform => ?_) fun results => ?_).2
    · obtain ⟨t, e⟩ := form
      cases e with
      | define f params body => exact absurd rfl (h ts htokens _ hform f params body)
      | _ =>
        exact evaluative_persists.bind (steady_evaluateExpr _) fun v => evaluative_persists.pure _
    · cases (readForms ts).2 with
      | none => exact evaluative_persists.pure results
      | some e =>
        exact ⟨restores_throw (e.failure _), persists_of_const fun _ => rfl⟩

end Session

/-- What an environment has that its functions are kept in, and that on a steady machine extends it,
extends it if what names stand for is the same. -/
theorem extended_of_steady {env env' : Environment}
    (hfunctions : ∀ f definition, env.functions.lookup f = some definition →
      env'.functions.lookup f = some definition)
    (hextended : Machine.Steady → Extended env env') (h : Machine.Steady ∨ env'.scope = env.scope) :
    Extended env env' :=
  h.elim hextended fun hscope => ⟨hscope, hfunctions⟩

end

/-! ## What is kept -/

/-- **Later definitions never change what already worked.**  With the same bindings, and the
functions of an environment among the functions there are, an evaluation ends in the same value or
failure, unless it fails for want of a function.  A definition of a name that has a function fails
and changes nothing.  So after anything that sessions and shells are given, whether it fails or
not, functions are what they were.  If what names stand for is the same too, as it always is on a
steady machine, then an expression that had a value has it still, as have the expressions of a text
that defines nothing.  The same goes for an expression that had its value in the middle of a text,
whatever became of the rest of that text. -/
theorem outcome_kept [Machine] :
    (∀ (limit : Nat) (e : Expr) (env env' : Environment), env'.bindings = env.bindings →
      (∀ f definition, env.functions.lookup f = some definition →
        env'.functions.lookup f = some definition) →
      (∀ f, (evaluate limit e).outcome env ≠ .error (Fault.undefinedFunction f).failure) →
      (evaluate limit e).outcome env' = (evaluate limit e).outcome env) ∧
    (∀ (env : Environment) (f : String) (params : List String) (body : Expr),
      env.functions.lookup f ≠ none →
      define (.define f params body) env = .error (Fault.alreadyDefined f).failure env) ∧
    (∀ env env' : Environment, Relation.ReflTransGen Given env env' →
      (∀ f definition, env.functions.lookup f = some definition →
        env'.functions.lookup f = some definition) ∧
      (Machine.Steady ∨ env'.scope = env.scope →
        (∀ limit e v, (evaluate limit e).outcome env = .ok v →
          (evaluate limit e).outcome env' = .ok v) ∧
        (∀ source v, (Session.evaluate source).outcome env = .ok v →
          (Session.evaluate source).outcome env' = .ok v) ∧
        ∀ source vs, DefinesNothing source → (Session.execute source).outcome env = .ok vs →
          (Session.execute source).outcome env' = .ok vs)) ∧
    ∀ (job : Job) (env env' : Environment) (c : Evaluation) (v : Value), job.Starts env c →
      Relation.ReflTransGen Given (job.act.after env) env' →
      Machine.Steady ∨ env'.scope = c.environment.scope → c.outcome = .ok v →
      (evaluate c.limit c.expr).outcome env' = .ok v := by
  refine ⟨fun limit e env env' hbindings hfunctions hdefined => ?_,
    fun env f params body hf => define_of_defined params body hf, fun env env' hgiven => ?_,
    fun job env env' c v hstarts hgiven hsteady hv => ?_⟩
  · have hscope : env'.scope = env.scope := congrArg Bindings.lookup? hbindings
    refine (outcome_evaluate_of_extended ⟨hscope, hfunctions⟩ limit e).resolve_right ?_
    rintro ⟨f, hf, -, -⟩
    exact hdefined f hf
  · have hfunctions := (functions_invariant env).reflTransGen hgiven fun _ _ hf => hf
    refine ⟨hfunctions, fun hsteady => ?_⟩
    have hextended : Extended env env' := extended_of_steady hfunctions
      (fun hsteady => (extended_invariant hsteady env).reflTransGen hgiven (.refl env)) hsteady
    refine ⟨fun limit e v hv => ?_, fun source v hv => ?_, fun source vs hnothing hvs => ?_⟩
    · exact (evaluative_persists.evaluate limit e).2.outcome_eq_ok hextended hv
    · exact (Session.persists_evaluate source).outcome_eq_ok hextended hv
    · exact (Session.persists_execute hnothing).outcome_eq_ok hextended hvs
  · have hafter : ∀ {I : Environment → Prop} {V : Value → Prop}, Session.Invariant I V →
        I c.environment → I env' :=
      fun hI hc => hI.reflTransGen hgiven (hstarts.maintains hI hc)
    have hextended : Extended c.environment env' := extended_of_steady
      (hafter (functions_invariant c.environment) fun _ _ hf => hf)
      (fun hsteady => hafter (extended_invariant hsteady c.environment) (.refl _)) hsteady
    exact (evaluative_persists.evaluate c.limit c.expr).2.outcome_eq_ok hextended hv

/-- A division by zero that one more function does not change; a text that defines a function and
then fails at a second definition of `f`, after which `f` is what it was before; and a text that
fails so after it has evaluated a call of `f`. -/
theorem outcome_kept_redefinition :
    let _ : Machine := .ofCalls 10
    let env : Environment := .ofFunctions [("f", ⟨["x"], .arith .div (.number 6) (.var "x")⟩)]
    let first := (Session.load "(define (f x) (/ 6 x))").after .empty
    let second := (Session.execute "(define (g) (f 1)) (define (f) 7)").after first
    let failing := "(f 2) (define (f) 7)"
    (evaluate 3 (.call "f" [.number 0])).outcome (env.withFunction "g" ⟨[], .var "x"⟩) =
        .error (Fault.arithmetic (.divisionByZero 6)).failure ∧
      define (.define "f" [] (.number 7)) env = .error (Fault.alreadyDefined "f").failure env ∧
      Given first second ∧ second.functions.map Prod.fst = ["f", "g"] ∧
      (Session.evaluate "(f 2)").outcome first = .ok (.number 3) ∧
      (Session.evaluate "(f 2)").outcome second = .ok (.number 3) ∧
      DefinesNothing "(f 3) (f -3)" ∧
      (Session.execute "(f 3) (f -3)").outcome second = .ok [.number 2, .number (-2)] ∧
      (Session.execute failing).outcome second =
        .error ((Fault.alreadyDefined "f").failureAt failing 6) ∧
      ∃ c, (Job.execute failing).Starts second c ∧ c.outcome = .ok (.number 3) ∧
        (evaluate c.limit c.expr).outcome ((Session.execute failing).after second) =
          .ok (.number 3) := by
  intro _ env first second failing
  obtain ⟨hextended, hredefined, hkept, hmidst⟩ := outcome_kept
  have hfails : (evaluate 3 (.call "f" [.number 0])).outcome env =
      .error (Fault.arithmetic (.divisionByZero 6)).failure := by decide +kernel
  have hgiven : Given first second := .execute _
  have hsteady : Machine.Steady := fun _ => rfl
  obtain ⟨-, hextends⟩ := hkept first second (.single hgiven)
  obtain ⟨-, hvalue, hvalues⟩ := hextends (.inl hsteady)
  have hfirst : (Session.evaluate "(f 2)").outcome first = .ok (.number 3) := by decide +kernel
  have hboth : (Session.execute "(f 3) (f -3)").outcome first =
      .ok [.number 2, .number (-2)] := by decide +kernel
  have hnothing : DefinesNothing "(f 3) (f -3)" := by decide +kernel
  have hcall : ∃ c, (Job.execute failing).Starts second c ∧ c.outcome = .ok (.number 3) := by
    have hforms : (tokens (blankComments failing)).map (fun ts =>
        (readForms ts).1.map Prod.snd) =
          .ok [.call "f" [.number 2], .define "f" [] (.number 7)] := by decide +kernel
    obtain ⟨ts, htokens, hread⟩ := Except.map_eq_ok_iff.1 hforms
    obtain ⟨⟨start, e⟩, after, hsplit, he, -⟩ := List.map_eq_cons_iff.1 hread
    obtain rfl : e = .call "f" [.number 2] := he
    have hfirstForm : (readForms ts).1 = [] ++ (start, .call "f" [.number 2]) :: after := hsplit
    obtain ⟨lines, hlines⟩ : ∃ lines, (Expr.call "f" [.number 2]).display 0 = .ok lines := ⟨_, rfl⟩
    have hdefine : ∀ f params body, Expr.call "f" [.number 2] ≠ .define f params body := nofun
    refine ⟨_, .execute htokens hfirstForm rfl hdefine ⟨lines, hlines, rfl⟩, ?_⟩
    have hvalue : (evaluate Machine.calls (.call "f" [.number 2])).outcome second =
        .ok (.number 3) := by decide +kernel
    rw [← hvalue]
    exact (outcome_evaluate_noted _ _ _ _).trans (outcome_evaluate_noted _ _ _ _)
  obtain ⟨c, hstarts, hc⟩ := hcall
  refine ⟨?_, hredefined env "f" [] _ (by decide), hgiven, by decide +kernel, hfirst,
    hvalue _ _ hfirst, hnothing, hvalues _ _ hnothing hboth, by decide +kernel, c, hstarts, hc,
    hmidst _ _ _ _ _ hstarts .refl (.inl hsteady) hc⟩
  rw [← hfails]
  refine hextended 3 _ env _ rfl (extended_withFunction _ _ _).functions fun f hf => ?_
  rw [hfails] at hf
  cases hf

end DynLisp
