import DynLisp.Proofs.Evaluation.Extension
import DynLisp.Proofs.Session.Forms

/-!
# Texts that fail midway

A text of forms is worked off from the front.  The forms at its front that parse and are taken are
its leading run: for a text that is loaded these are the definitions of new functions, for one that
is executed also the expressions that have a value, each in the environment that the forms before it
have led to (`Session.RunsThrough`).  A run ends before the first form that cannot be taken, so
there is a longest one, and the text does what the longest one does (`Session.keeps_of_processes`).
It leaves the functions that were there, followed by those that the run defines; whatever stands
after the form that follows the run makes no difference (`Session.work_kept`).  The bindings are
left as they were, unless calls are nested too deeply on a machine that is not steady: then the form
that follows the run may leave some behind, above what was there (`Environment.Spared`).

Only the lexer looks at the whole text before anything is done.
-/

namespace DynLisp

open DynLisp.Action

/-! ## Definitions among forms -/

/-- The function that a form defines, if it is a definition. -/
def Expr.definition? : Expr → Option (String × Definition)
  | define f params body => some (f, ⟨params, body⟩)
  | _ => none

theorem Expr.definition?_eq_none_iff {e : Expr} :
    e.definition? = none ↔ ∀ f params body, e ≠ .define f params body := by
  constructor
  · rintro h f params body rfl
    cases h
  · intro h
    cases e with
    | define f params body => exact absurd rfl (h f params body)
    | _ => rfl

/-- The functions that forms define, in their order. -/
def definitions (es : List Expr) : List (String × Definition) := es.filterMap Expr.definition?

namespace Environment

/-- The environment in which the functions that some forms define are defined after all others. -/
def withForms (env : Environment) (es : List Expr) : Environment :=
  { env with functions := env.functions ++ definitions es }

theorem withForms_nil (env : Environment) : env.withForms [] = env := by
  rw [withForms, definitions, List.filterMap_nil, List.append_nil]

theorem withForms_append (env : Environment) (es es' : List Expr) :
    env.withForms (es ++ es') = (env.withForms es).withForms es' := by
  rw [withForms, withForms, withForms, definitions, List.filterMap_append, ← List.append_assoc]
  rfl

theorem Restored.withForms {env env' : Environment} (h : Restored env env') (es : List Expr) :
    Restored (env.withForms es) (env'.withForms es) :=
  ⟨congrArg (· ++ definitions es) h.functions, h.pruned⟩

/-- What is left of an environment by what ends in some outcome: it is restored, or only covered
where calls are nested too deeply on a machine that is not steady. -/
structure Spared {α : Type} [Machine] (outcome : Except Failure α) (before after : Environment) :
    Prop where
  covered : Covered before after
  restored : Machine.Steady ∨ outcome ≠ .error .depthExceeded → Restored before after

section

variable [Machine] {α β : Type} {outcome : Except Failure α} {env env' env'' : Environment}

theorem Restored.spared (h : Restored env env') : Spared outcome env env' := ⟨h.covered, fun _ => h⟩

theorem Restored.trans_spared (h : Restored env env') (h' : Spared outcome env' env'') :
    Spared outcome env env'' :=
  ⟨h.covered.trans h'.covered, fun hdeep => h.trans (h'.restored hdeep)⟩

/-- Nothing else counts than whether calls were nested too deeply. -/
theorem Spared.imp {outcome' : Except Failure β} (h : Spared outcome env env')
    (himp : outcome = .error .depthExceeded → outcome' = .error .depthExceeded) :
    Spared outcome' env env' :=
  ⟨h.covered, fun hdeep => h.restored (hdeep.imp_right (mt himp))⟩

end

end Environment

theorem Action.Restores.spared [Machine] {α : Type} {act : Action α} (h : act.Restores)
    (env : Environment) : Environment.Spared (act.outcome env) env (act.after env) :=
  ⟨h.covered env, h.restored env⟩

namespace Session

open Environment (Restored Spared)

/-! ## Runs -/

/-- A form can be loaded: it defines a function of a new name. -/
inductive Loads (env : Environment) : Expr → Prop
  | definition {f : String} {params : List String} {body : Expr} :
      env.functions.lookup f = none → Loads env (.define f params body)

/-- A form can be executed: it defines a function of a new name, or it has a value. -/
inductive Executes [Machine] (env : Environment) : Expr → Prop
  | definition {e : Expr} : Loads env e → Executes env e
  | value {e : Expr} {v : Value} :
      e.definition? = none → (DynLisp.evaluate Machine.calls e).outcome env = .ok v →
      Executes env e

/-- Forms can be taken one after the other, each in the environment with the functions that those
before it define. -/
def RunsThrough (takes : Environment → Expr → Prop) : Environment → List Expr → Prop
  | _, [] => True
  | env, e :: es => takes env e ∧ RunsThrough takes (env.withForms [e]) es

/-- Forms at the front of some tokens that can be taken one after the other. -/
structure LeadingRun (takes : Environment → Expr → Prop) (env : Environment) (ts : List Token)
    (es : List Expr) : Prop where
  startsWith : StartsWith ts es
  runsThrough : RunsThrough takes env es

section

variable {takes : Environment → Expr → Prop} {env env' : Environment}

theorem runsThrough_append {es es' : List Expr} :
    RunsThrough takes env (es ++ es') ↔
      RunsThrough takes env es ∧ RunsThrough takes (env.withForms es) es' := by
  induction es generalizing env with
  | nil => simp only [RunsThrough, List.nil_append, Environment.withForms_nil, true_and]
  | cons e es ih =>
    rw [List.cons_append, RunsThrough, RunsThrough, ih, ← Environment.withForms_append, and_assoc]
    rfl

/-- Forms can all be taken, or there is a first one that cannot. -/
theorem runsThrough_or_exists (takes : Environment → Expr → Prop) (env : Environment)
    (es : List Expr) :
    RunsThrough takes env es ∨ ∃ before e after, es = before ++ e :: after ∧
      RunsThrough takes env before ∧ ¬ takes (env.withForms before) e := by
  induction es generalizing env with
  | nil => exact .inl trivial
  | cons e es ih =>
    by_cases he : takes env e
    · rcases ih (env.withForms [e]) with hes | ⟨before, e', after, rfl, hbefore, he'⟩
      · exact .inl ⟨he, hes⟩
      · refine .inr ⟨e :: before, e', after, rfl, ⟨he, hbefore⟩, ?_⟩
        rwa [← Environment.withForms_append] at he'
    · refine .inr ⟨[], e, es, rfl, trivial, ?_⟩
      rwa [Environment.withForms_nil]

/-- A run of forms ends before the first form that cannot be taken. -/
theorem RunsThrough.prefix_of_refused {before after es : List Expr} {e : Expr}
    (h : RunsThrough takes env es) (hes : es <+: before ++ e :: after)
    (hrefused : ¬ takes (env.withForms before) e) : es <+: before := by
  rcases List.prefix_or_prefix_of_prefix hes (List.prefix_append before _) with hes' | ⟨later, rfl⟩
  · exact hes'
  cases later with
  | nil => simp
  | cons e' later =>
    have he : e' :: later <+: e :: after := (List.prefix_append_right_inj before).1 hes
    obtain ⟨rfl, -⟩ := List.cons_prefix_cons.1 he
    exact absurd (runsThrough_append.1 h).2.1 hrefused

end

/-! ## Taking forms -/

/-- What an action on forms takes.  A form that can be taken is taken, and its function is defined
if it is a definition; any other form fails, and the environment is spared then.  What can be taken
depends on the functions and on the bindings alone. -/
structure Processes {α : Type} [Machine] (act : Token → Expr → Action (List α))
    (takes : Environment → Expr → Prop) : Prop where
  taken (start : Token) {e : Expr} {env : Environment} : e.WellFormed .any → takes env e →
    ∃ results env', act start e env = .ok results env' ∧ Restored (env.withForms [e]) env'
  refused (start : Token) {e : Expr} {env : Environment} : e.WellFormed .any → ¬ takes env e →
    ∃ failure env', act start e env = .error failure env' ∧
      Spared (.error failure : Except Failure Unit) env env'
  restored {e : Expr} {env env' : Environment} : Restored env env' → (takes env' e ↔ takes env e)

section

variable {α : Type} [Machine] {act : Token → Expr → Action (List α)}
  {takes : Environment → Expr → Prop} (P : Processes act takes) {env env' : Environment}
  {forms : List (Token × Expr)}
include P

theorem Processes.runsThrough_iff {es : List Expr} (h : Restored env env') :
    RunsThrough takes env' es ↔ RunsThrough takes env es := by
  induction es generalizing env env' with
  | nil => rfl
  | cons e es ih => rw [RunsThrough, RunsThrough, P.restored h, ih (h.withForms [e])]

/-- Forms that can be taken one after the other are taken. -/
theorem Processes.run_of_runsThrough (hforms : ∀ form ∈ forms, form.2.WellFormed .any)
    (h : RunsThrough takes env (forms.map Prod.snd)) :
    ∃ results env', takeForms act forms env = .ok results env' ∧
      Restored (env.withForms (forms.map Prod.snd)) env' := by
  induction forms generalizing env with
  | nil =>
    refine ⟨[], env, rfl, ?_⟩
    rw [List.map_nil, Environment.withForms_nil]
    exact .refl env
  | cons form forms ih =>
    obtain ⟨start, e⟩ := form
    obtain ⟨he, hforms⟩ := List.forall_mem_cons.1 hforms
    obtain ⟨results, env₁, hrun, hrestored⟩ := P.taken start he h.1
    obtain ⟨later, env₂, hlater, hrestored'⟩ :=
      ih hforms ((P.runsThrough_iff hrestored).2 h.2)
    refine ⟨results ++ later, env₂, ?_, ?_⟩
    · rw [takeForms]
      exact (run_bind_of_ok _ hrun).trans (run_bind_of_ok _ hlater)
    · rw [List.map_cons, ← List.singleton_append, Environment.withForms_append]
      exact (hrestored.withForms _).trans hrestored'

/-- Forms that are taken can be taken one after the other, and leave their functions. -/
theorem Processes.runsThrough_of_run (hforms : ∀ form ∈ forms, form.2.WellFormed .any)
    {results : List α} (h : takeForms act forms env = .ok results env') :
    RunsThrough takes env (forms.map Prod.snd) ∧
      Restored (env.withForms (forms.map Prod.snd)) env' := by
  suffices hruns : RunsThrough takes env (forms.map Prod.snd) by
    obtain ⟨_, _, hrun, hrestored⟩ := P.run_of_runsThrough hforms hruns
    obtain ⟨-, rfl⟩ := EStateM.Result.ok.inj (h.symm.trans hrun)
    exact ⟨hruns, hrestored⟩
  induction forms generalizing env env' results with
  | nil => trivial
  | cons form forms ih =>
    obtain ⟨start, e⟩ := form
    obtain ⟨he, hforms⟩ := List.forall_mem_cons.1 hforms
    rw [takeForms] at h
    obtain ⟨first, env₁, hfirst, h⟩ := run_bind_eq_ok h
    obtain ⟨later, env₂, hlater, -⟩ := run_bind_eq_ok h
    by_cases htakes : takes env e
    · obtain ⟨_, _, hrun, hrestored⟩ := P.taken start he htakes
      obtain ⟨rfl, rfl⟩ := EStateM.Result.ok.inj (hrun.symm.trans hfirst)
      exact ⟨htakes, (P.runsThrough_iff hrestored).1 (ih hforms hlater)⟩
    · obtain ⟨failure, _, hrun, -⟩ := P.refused start he htakes
      cases hrun.symm.trans hfirst

/-- After forms that can be taken one after the other, one that cannot be taken fails.  It leaves
the functions of these forms, and no form after it makes a difference. -/
theorem Processes.run_of_refused (hforms : ∀ form ∈ forms, form.2.WellFormed .any)
    (h : RunsThrough takes env (forms.map Prod.snd)) (start : Token) {e : Expr}
    (he : e.WellFormed .any) (hrefused : ¬ takes (env.withForms (forms.map Prod.snd)) e) :
    ∃ failure env', Spared (.error failure : Except Failure Unit)
        (env.withForms (forms.map Prod.snd)) env' ∧
      ∀ later, takeForms act (forms ++ (start, e) :: later) env = .error failure env' := by
  obtain ⟨results, env₁, hrun, hrestored⟩ := P.run_of_runsThrough hforms h
  rw [← P.restored hrestored] at hrefused
  obtain ⟨failure, env₂, hfails, hspared⟩ := P.refused start he hrefused
  refine ⟨failure, env₂, hrestored.trans_spared hspared, fun later => ?_⟩
  rw [takeForms_append, run_bind_of_ok _ hrun, takeForms]
  exact run_bind_of_error _ (run_bind_of_error _ hfails)

/-- Forms are taken as far as they can be. -/
theorem Processes.exists_run (hforms : ∀ form ∈ forms, form.2.WellFormed .any)
    (env : Environment) :
    ∃ before later, forms = before ++ later ∧ RunsThrough takes env (before.map Prod.snd) ∧
      (∀ es, es <+: forms.map Prod.snd → RunsThrough takes env es → es <+: before.map Prod.snd) ∧
      Spared ((takeForms act forms).outcome env) (env.withForms (before.map Prod.snd))
        ((takeForms act forms).after env) ∧
      (takeForms act forms).after env =
        (takeForms act (forms.take (before.length + 1))).after env ∧
      ((∃ results, (takeForms act forms).outcome env = .ok results) ↔ later = []) := by
  rcases runsThrough_or_exists takes env (forms.map Prod.snd) with
    hall | ⟨before, e, after, hsplit, hbefore, hrefused⟩
  · obtain ⟨results, env', hrun, hrestored⟩ := P.run_of_runsThrough hforms hall
    refine ⟨forms, [], (List.append_nil forms).symm, hall, fun es hes _ => hes, ?_, ?_, ?_⟩
    · rw [after_of_ok hrun]
      exact hrestored.spared
    · rw [List.take_of_length_le (Nat.le_succ _)]
    · exact ⟨fun _ => rfl, fun _ => ⟨results, outcome_of_ok hrun⟩⟩
  · obtain ⟨before, later, rfl, rfl, hlater⟩ := List.map_eq_append_iff.1 hsplit
    obtain ⟨⟨start, e⟩, later, rfl, rfl, rfl⟩ := List.map_eq_cons_iff.1 hlater
    obtain ⟨hwell, hrest⟩ := List.forall_mem_append.1 hforms
    obtain ⟨failure, env', hspared, hrun⟩ := P.run_of_refused hwell hbefore start
      (List.forall_mem_cons.1 hrest).1 hrefused
    refine ⟨before, (start, e) :: later, rfl, hbefore, fun es hes h => ?_, ?_, ?_, ?_⟩
    · rw [hsplit] at hes
      exact h.prefix_of_refused hes hrefused
    · rw [after_of_error (hrun later), outcome_of_error (hrun later)]
      exact hspared.imp fun h => congrArg Except.error (Except.error.inj h)
    · have htake : (before ++ (start, e) :: later).take (before.length + 1) =
          before ++ [(start, e)] := by
        rw [List.take_append, List.take_of_length_le (Nat.le_succ _), Nat.add_sub_cancel_left]
        rfl
      rw [htake, after_of_error (hrun later), after_of_error (hrun [])]
    · rw [outcome_of_error (hrun later)]
      constructor
      · rintro ⟨_, ⟨⟩⟩
      · rintro ⟨⟩

end

theorem Loads.exists_define {env : Environment} {e : Expr} (h : Loads env e) :
    ∃ f params body, e = .define f params body := by
  cases h
  exact ⟨_, _, _, rfl⟩

theorem Loads.of_restored {e : Expr} {env env' : Environment} (hrestored : Restored env env') :
    Loads env' e ↔ Loads env e := by
  constructor
  · rintro ⟨hf⟩
    rw [hrestored.functions] at hf
    exact .definition hf
  · rintro ⟨hf⟩
    rw [← hrestored.functions] at hf
    exact .definition hf

theorem processes_loadForm [Machine] (source : String) : Processes (loadForm source) Loads where
  taken := by
    intro start e env _ htakes
    cases htakes with
    | @definition f params body hf =>
      refine ⟨[], _, run_bind_of_ok _ (defineAt_of_none hf), ?_⟩
      exact Environment.restored_notices (env.withFunction f ⟨params, body⟩) _
  refused := by
    intro start e env _ htakes
    cases e with
    | define f params body =>
      have hf : env.functions.lookup f ≠ none := fun hf => htakes (.definition hf)
      exact ⟨_, env, run_bind_of_error _ (defineAt_of_defined hf), (Restored.refl env).spared⟩
    | _ => exact ⟨_, env, rfl, (Restored.refl env).spared⟩
  restored := Loads.of_restored

theorem evaluateExpr_run [Machine] {e : Expr} (he : e.WellFormed .any) (env : Environment) :
    (evaluateExpr e).outcome env = (DynLisp.evaluate Machine.calls e).outcome env ∧
      Spared ((evaluateExpr e).outcome env) env ((evaluateExpr e).after env) := by
  obtain ⟨lines, hlines⟩ := he.exists_display 0
  have hrun : evaluateExpr e env = DynLisp.evaluate Machine.calls e (env.noted (.tree lines)) := by
    rw [evaluateExpr, hlines]
    rfl
  have hspared := (restores_evaluate Machine.calls e).spared (env.noted (.tree lines))
  rw [Action.outcome, Action.after, hrun]
  exact ⟨outcome_evaluate_noted env (.tree lines) _ e,
    (Environment.restored_notices env _).trans_spared hspared⟩

theorem processes_executeForm [Machine] (source : String) :
    Processes (executeForm source) Executes where
  taken := by
    intro start e env he htakes
    cases htakes with
    | definition hloads =>
      cases hloads with
      | @definition f params body hf =>
        refine ⟨[], _, run_bind_of_ok _ (defineAt_of_none hf), ?_⟩
        exact Environment.restored_notices (env.withFunction f ⟨params, body⟩) _
    | @value v hdefinition hv =>
      obtain ⟨hout, hspared⟩ := evaluateExpr_run he env
      have hrun := run_of_outcome_eq_ok (hout.trans hv)
      have hafter := hspared.restored (.inr (by simp [hout.trans hv]))
      have hsame : env.withForms [e] = env := by
        rw [Environment.withForms, definitions, List.filterMap_cons_none hdefinition]
        exact Environment.withForms_nil env
      rw [hsame, executeForm_of_ne (Expr.definition?_eq_none_iff.1 hdefinition)]
      exact ⟨[v], _, run_bind_of_ok _ hrun, hafter⟩
  refused := by
    intro start e env he htakes
    by_cases hdefinition : e.definition? = none
    · obtain ⟨hout, hspared⟩ := evaluateExpr_run he env
      cases hv : (DynLisp.evaluate Machine.calls e).outcome env with
      | ok v => exact absurd (.value hdefinition hv) htakes
      | error failure =>
        have hrun := run_of_outcome_eq_error (hout.trans hv)
        rw [executeForm_of_ne (Expr.definition?_eq_none_iff.1 hdefinition)]
        rw [hout.trans hv] at hspared
        exact ⟨failure, _, run_bind_of_error _ hrun,
          hspared.imp fun h => congrArg Except.error (Except.error.inj h)⟩
    · cases e with
      | define f params body =>
        have hf : env.functions.lookup f ≠ none := fun hf => htakes (.definition (.definition hf))
        exact ⟨_, env, run_bind_of_error _ (defineAt_of_defined hf), (Restored.refl env).spared⟩
      | _ => exact absurd rfl hdefinition
  restored := by
    intro e env env' hrestored
    have hvalue : (DynLisp.evaluate Machine.calls e).outcome env' =
        (DynLisp.evaluate Machine.calls e).outcome env :=
      outcome_evaluate_congr hrestored.scope (fun f => by rw [hrestored.functions]) _ e
    constructor
    · rintro (hloads | ⟨hdefinition, hv⟩)
      · exact .definition ((Loads.of_restored hrestored).1 hloads)
      · exact .value hdefinition (hvalue ▸ hv)
    · rintro (hloads | ⟨hdefinition, hv⟩)
      · exact .definition ((Loads.of_restored hrestored).2 hloads)
      · exact .value hdefinition (hvalue.symm ▸ hv)

/-! ## Texts -/

/-- After a text that was taken in `env` there is what the forms `es` have done, which are the
longest leading run of its tokens, and nothing else. -/
structure Keeps (takes : Environment → Expr → Prop) (env : Environment) (ts : List Token)
    (es : List Expr) (after : Environment) : Prop where
  run : LeadingRun takes env ts es
  longest : ∀ es', LeadingRun takes env ts es' → es' <+: es
  functions : after.functions = env.functions ++ definitions es
  function : ∀ f definition, env.functions.lookup f = some definition →
    after.functions.lookup f = some definition
  stack : ∀ x, env.bindings.stack x <:+ after.bindings.stack x

theorem Keeps.of_covered {takes : Environment → Expr → Prop} {env after : Environment}
    {ts : List Token} {es : List Expr} (hrun : LeadingRun takes env ts es)
    (hlongest : ∀ es', LeadingRun takes env ts es' → es' <+: es)
    (hcovered : (env.withForms es).Covered after) : Keeps takes env ts es after where
  run := hrun
  longest := hlongest
  functions := hcovered.functions
  function f definition hf := by
    rw [hcovered.functions]
    exact (List.lookup_append ..).trans (by rw [hf, Option.some_or])
  stack := hcovered.stack

section

variable {α : Type} [Machine] {act : String → Token → Expr → Action (List α)}
  {takes : Environment → Expr → Prop} {source : String} {ts : List Token}

/-- A text does what its longest leading run does. -/
theorem keeps_of_processes (P : ∀ source, Processes (act source) takes)
    (h : tokens (blankComments source) = .ok ts) (env : Environment) :
    ∃ es, Keeps takes env ts es ((takeText source act).after env) ∧
      Spared ((takeText source act).outcome env) (env.withForms es)
        ((takeText source act).after env) ∧
      (takeText source act).after env =
        (takeForms (act (blankComments source)) ((readForms ts).1.take (es.length + 1))).after
          (env.noted (.tokens ts)) ∧
      ((∃ results, (takeText source act).outcome env = .ok results) ↔ ReadAs ts es) := by
  have hlex := isLexical_of_mem_tokens h
  have hnoted : Restored env (env.noted (.tokens ts)) := Environment.restored_notices env _
  obtain ⟨before, later, hforms, hruns, hlongest, hspared, hafter, hok⟩ :=
    (P (blankComments source)).exists_run (wellFormed_of_mem_readForms hlex)
      (env.noted (.tokens ts))
  rw [(P source).runsThrough_iff hnoted] at hruns
  have hfront : before.map Prod.snd <+: (readForms ts).1.map Prod.snd := by
    rw [hforms, List.map_append]
    exact List.prefix_append _ _
  have htext : Spared ((takeText source act).outcome env) (env.withForms (before.map Prod.snd))
      ((takeText source act).after env) := by
    rw [after_takeText h]
    exact ((hnoted.withForms _).trans_spared hspared).imp (outcome_takeText_of_error h)
  refine ⟨before.map Prod.snd,
    .of_covered ⟨(startsWith_iff hlex).2 hfront, hruns⟩ ?_ htext.covered, htext, ?_, ?_⟩
  · intro es hes
    refine hlongest es ((startsWith_iff hlex).1 hes.startsWith) ?_
    rw [(P source).runsThrough_iff hnoted]
    exact hes.runsThrough
  · rw [after_takeText h, hafter, List.length_map]
  · rw [outcome_takeText_iff h env, hok, ← readForms_iff hlex, and_congr_right_iff]
    intro _
    rw [hforms, List.map_append, List.append_right_eq_self, List.map_eq_nil_iff]

end

/-- A text that is executed leaves its functions after those that there were, in an environment that
is spared. -/
theorem exists_spared_execute [Machine] (source : String) (env : Environment) :
    ∃ es,
      Spared ((execute source).outcome env) (env.withForms es) ((execute source).after env) := by
  cases htokens : tokens (blankComments source) with
  | error failure =>
    have hrun : execute source env = .error failure env := takeText_of_refused htokens env
    refine ⟨[], ?_⟩
    rw [after_of_error hrun, Environment.withForms_nil]
    exact (Restored.refl env).spared
  | ok ts =>
    obtain ⟨es, -, hspared, -⟩ := keeps_of_processes processes_executeForm htokens env
    exact ⟨es, hspared⟩

theorem concat_prefix_map_snd {forms before later : List (Token × Expr)} {start : Token} {e : Expr}
    (h : forms = before ++ (start, e) :: later) :
    before.map Prod.snd ++ [e] <+: forms.map Prod.snd := by
  rw [h, List.map_append, List.map_cons, List.prefix_append_right_inj]
  exact List.prefix_append [e] _

section

variable {takes : Environment → Expr → Prop} {env after : Environment} {ts : List Token}
  {es : List Expr} {before later : List (Token × Expr)} {start : Token} {e : Expr}
  (h : Keeps takes env ts es after) (hlex : ∀ t ∈ ts, t.IsLexical)
  (hforms : (readForms ts).1 = before ++ (start, e) :: later)
  (hruns : RunsThrough takes env (before.map Prod.snd))
include h hlex hforms hruns

/-- What can be taken after forms that can be taken belongs to the run as well. -/
theorem Keeps.prefix_of_takes (htakes : takes (env.withForms (before.map Prod.snd)) e) :
    before.map Prod.snd ++ [e] <+: es := by
  have hread := (startsWith_iff hlex).2 (concat_prefix_map_snd hforms)
  exact h.longest _ ⟨hread, runsThrough_append.2 ⟨hruns, htakes, trivial⟩⟩

/-- The run ends where a form cannot be taken. -/
theorem Keeps.eq_of_refused (hrefused : ¬ takes (env.withForms (before.map Prod.snd)) e) :
    es = before.map Prod.snd := by
  have hread : (readForms ts).1.map Prod.snd =
      before.map Prod.snd ++ e :: later.map Prod.snd := by
    rw [hforms, List.map_append, List.map_cons]
  have hforward : before.map Prod.snd <+: es := by
    refine h.longest _ ⟨(startsWith_iff hlex).2 ?_, hruns⟩
    rw [hread]
    exact List.prefix_append _ _
  have hback : es <+: before.map Prod.snd :=
    h.run.runsThrough.prefix_of_refused (hread ▸ (startsWith_iff hlex).1 h.run.startsWith) hrefused
  exact hback.eq_of_length_le hforward.length_le

end

/-! ## Evaluations -/

theorem outcome_of_begins [Machine] {e : Expr} {env : Environment} {c : Evaluation}
    (h : Begins e env c) :
    c.expr = e ∧ c.outcome = (DynLisp.evaluate Machine.calls e).outcome env := by
  obtain ⟨lines, -, rfl⟩ := h
  exact ⟨rfl, outcome_evaluate_noted env _ _ e⟩

/-- A text that is executed evaluates expressions of its longest leading run, which have values, and
then at most the form that follows, whose failure is that of the text. -/
theorem Keeps.starts [Machine] {source : String} {ts : List Token} {env after : Environment}
    {es : List Expr} {c : Evaluation} (h : Keeps Executes env ts es after)
    (htokens : tokens (blankComments source) = .ok ts) (hc : (Job.execute source).Starts env c) :
    c.expr.definition? = none ∧
      ((∃ earlier later v, es = earlier ++ c.expr :: later ∧ c.outcome = .ok v) ∨
        ∃ failure, StartsWith ts (es ++ [c.expr]) ∧ c.outcome = .error failure ∧
          (execute source).outcome env = .error failure) := by
  have P := processes_executeForm (blankComments source)
  have hlex := isLexical_of_mem_tokens htokens
  have hwell := wellFormed_of_mem_readForms hlex
  cases hc with
  | @execute _ ts' before later start e results _ env' _ htokens' hforms hbefore hdefine hbegins =>
    obtain rfl := Except.ok.inj (htokens.symm.trans htokens')
    obtain ⟨rfl, hout⟩ := outcome_of_begins hbegins
    obtain ⟨hfirst, hrest⟩ := List.forall_mem_append.1 (hforms ▸ hwell)
    have he := (List.forall_mem_cons.1 hrest).1
    -- the forms before the expression are a leading run, in the environment of which it starts
    obtain ⟨hruns, hrestored⟩ := P.runsThrough_of_run hfirst hbefore
    have hnoted : Restored env (env.noted (.tokens ts)) := Environment.restored_notices env _
    have hsame : Restored (env.withForms (before.map Prod.snd)) env' :=
      (hnoted.withForms _).trans hrestored
    rw [P.runsThrough_iff hnoted] at hruns
    have hnone : c.expr.definition? = none := Expr.definition?_eq_none_iff.2 hdefine
    refine ⟨hnone, ?_⟩
    cases hv : c.outcome with
    | ok v =>
      have htakes : Executes (env.withForms (before.map Prod.snd)) c.expr :=
        (P.restored hsame).1 (.value hnone (hout ▸ hv))
      obtain ⟨more, rfl⟩ := h.prefix_of_takes hlex hforms hruns htakes
      exact .inl ⟨before.map Prod.snd, more, v, List.append_assoc .., rfl⟩
    | error failure =>
      have hrefused : ¬ Executes (env.withForms (before.map Prod.snd)) c.expr := by
        rw [← P.restored hsame]
        rintro (hloads | ⟨-, hvalue⟩)
        · obtain ⟨f, params, body, hdefinition⟩ := hloads.exists_define
          exact hdefine f params body hdefinition
        · rw [← hout, hv] at hvalue
          cases hvalue
      obtain rfl := h.eq_of_refused hlex hforms hruns hrefused
      have hfront := (startsWith_iff hlex).2 (concat_prefix_map_snd hforms)
      have hform : (executeForm (blankComments source) start c.expr).outcome env' =
          .error failure := by
        rw [executeForm_of_ne hdefine]
        exact outcome_bind_eq_error_iff.2 (.inl ((evaluateExpr_run he env').1.trans (hout ▸ hv)))
      refine .inr ⟨failure, hfront, rfl, ?_⟩
      refine outcome_takeText_of_error htokens ?_
      rw [hforms, takeForms_append]
      refine (outcome_bind_of_ok _ hbefore).trans ?_
      exact outcome_bind_eq_error_iff.2 (.inl (outcome_bind_eq_error_iff.2 (.inl hform)))

/-- A text that is loaded binds nothing. -/
theorem bindings_load (source : String) (env : Environment) :
    ((load source).after env).bindings = env.bindings := by
  have hform : ∀ (s : String) (start : Token) (e : Expr), e.WellFormed .any →
      Maintains (·.bindings = env.bindings) (fun results => ∀ a ∈ results, True)
        (loadForm s start e) := by
    intro s start e _ env' henv'
    refine ⟨?_, fun _ _ _ _ => trivial⟩
    cases e with
    | define f params body =>
      by_cases hf : env'.functions.lookup f = none
      · rw [loadForm, after_bind_of_ok _ (defineAt_of_none hf)]
        exact henv'
      · rw [loadForm, after_of_error (run_bind_of_error _ (defineAt_of_defined hf))]
        exact henv'
    | _ => exact henv'
  rw [load_eq, after_discard]
  exact (maintains_takeText (fun ts => maintains_modify fun _ henv => henv) hform source env rfl).1

/-! ## Work that is kept -/

/-- **A text that fails keeps exactly the work done before it fails.**  A text that does not cut
into tokens changes nothing.  Any other text, whether it fails or not, leaves the functions that
there were, as they were, and after them those that its longest leading run defines, and the
bindings as they were; only if calls were nested too deeply on a machine that is not steady, some
may have stayed above those.  The form that follows the run and all that comes after it define
nothing: the environment, with all that was noted on the way, is what the run leaves and one more
form.  A text that is loaded evaluates nothing; one that is executed evaluates expressions of the
run, which have values, and at most that form, if it is an expression, with whose failure the text
fails.  The text ends in a result if and only if it reads as the run. -/
theorem work_kept [Machine] (source : String) (env : Environment) :
    (∀ failure, tokens (blankComments source) = .error failure →
      load source env = .error failure env ∧ execute source env = .error failure env) ∧
    ∀ ts, tokens (blankComments source) = .ok ts →
      (∃ es, Keeps Loads env ts es ((load source).after env) ∧
        ((load source).after env).bindings = env.bindings ∧
        (load source).after env =
          (takeForms (loadForm (blankComments source))
            ((readForms ts).1.take (es.length + 1))).after (env.noted (.tokens ts)) ∧
        ((load source).outcome env = .ok () ↔ ReadAs ts es) ∧
        ∀ c, ¬ (Job.load source).Starts env c) ∧
      ∃ es, Keeps Executes env ts es ((execute source).after env) ∧
        (Machine.Steady ∨ (execute source).outcome env ≠ .error .depthExceeded →
          (∀ x, ((execute source).after env).bindings.stack x = env.bindings.stack x) ∧
            ((∀ entry ∈ env.bindings.entries, entry.2 ≠ []) →
              ((execute source).after env).bindings = env.bindings)) ∧
        (execute source).after env =
          (takeForms (executeForm (blankComments source))
            ((readForms ts).1.take (es.length + 1))).after (env.noted (.tokens ts)) ∧
        ((∃ vs, (execute source).outcome env = .ok vs) ↔ ReadAs ts es) ∧
        ∀ c, (Job.execute source).Starts env c → c.expr.definition? = none ∧
          ((∃ earlier later v, es = earlier ++ c.expr :: later ∧ c.outcome = .ok v) ∨
            ∃ failure, StartsWith ts (es ++ [c.expr]) ∧ c.outcome = .error failure ∧
              (execute source).outcome env = .error failure) := by
  refine ⟨fun failure h => ?_, fun ts h => ⟨?_, ?_⟩⟩
  · have hrefused : ∀ {α : Type} (act : String → Token → Expr → Action (List α)),
        takeText source act env = .error failure env := by
      intro α act
      rw [takeText, h]
      rfl
    exact ⟨by rw [load_eq, discard_eq]; exact run_bind_of_error _ (hrefused _), hrefused _⟩
  · obtain ⟨es, hkeeps, -, hafter, hok⟩ := keeps_of_processes processes_loadForm h env
    refine ⟨es, ?_, bindings_load source env, ?_, ?_, ?_⟩
    · rwa [load_eq, after_discard]
    · rwa [load_eq, after_discard]
    · rwa [load_eq, outcome_discard_eq_ok_iff]
    · rintro c ⟨⟩
  · obtain ⟨es, hkeeps, hspared, hafter, hok⟩ := keeps_of_processes processes_executeForm h env
    refine ⟨es, hkeeps, fun hdeep => ?_, hafter, hok, fun c => hkeeps.starts h⟩
    have hrestored := hspared.restored hdeep
    exact ⟨hrestored.stack, hrestored.pruned.bindings_eq⟩

/-- A text whose last character starts no token; and a text that defines `f`, calls it, divides by
zero in a second call and would define `g`. -/
theorem work_kept_division :
    let _ : Machine := .ofCalls 5
    let refused := "(define (f) 1) $"
    let source := "(define (f x) (/ 6 x)) (f 3) (f 0) (define (g) 1)"
    let f : String × Definition := ("f", ⟨["x"], .arith .div (.number 6) (.var "x")⟩)
    execute refused .empty =
        .error (.error (.illegalCharacter '$') ⟨some refused, some 15, some 16⟩) .empty ∧
      ∃ ts, tokens (blankComments source) = .ok ts ∧
        (∃ es, Keeps Loads .empty ts es ((load source).after .empty) ∧ definitions es = [f]) ∧
        ∃ es, Keeps Executes .empty ts es ((execute source).after .empty) ∧
          definitions es = [f] ∧ ((execute source).after .empty).bindings = .empty ∧
          ¬ ReadAs ts es := by
  intro _ refused source f
  have hrefused : tokens (blankComments refused) =
      .error (.error (.illegalCharacter '$') ⟨some refused, some 15, some 16⟩) := by
    decide +kernel
  have hcut : (tokens (blankComments source)).map (fun _ => ()) = .ok () := by decide +kernel
  obtain ⟨ts, htokens, -⟩ := Except.map_eq_ok_iff.1 hcut
  have hloaded : ((load source).after .empty).functions = [f] := by decide +kernel
  have hexecuted : ((execute source).after .empty).functions = [f] := by decide +kernel
  have hfails : (execute source).outcome .empty =
      .error (Fault.arithmetic (.divisionByZero 6)).failure := by decide +kernel
  obtain ⟨es, hload, -⟩ := ((work_kept source .empty).2 ts htokens).1
  obtain ⟨es', hexecute, hbindings, -, hok, -⟩ := ((work_kept source .empty).2 ts htokens).2
  refine ⟨((work_kept refused .empty).1 _ hrefused).2, ts, htokens, ⟨es, hload, ?_⟩,
    es', hexecute, ?_, ?_, ?_⟩
  · exact hload.functions.symm.trans hloaded
  · exact hexecute.functions.symm.trans hexecuted
  · exact (hbindings (.inl fun _ => rfl)).2 nofun
  · rw [← hok, hfails]
    rintro ⟨_, ⟨⟩⟩

end Session

end DynLisp
