import DynLisp.Proofs.Session.Join
import DynLisp.Proofs.Session.Midway
import DynLisp.Proofs.Session.Order
import DynLisp.Proofs.Session.Program

/-!
# The ways into a session

A text can be loaded, it can be executed, and one expression can be evaluated; a program is loaded
and then run.  These ways agree where they meet.

Loading and executing do the same with a definition, so they do the same with definitions in a row
(`Session.takeForms_executeForm`), and they come apart only at a form that is no definition.  To
execute an expression after definitions is to evaluate it with their functions
(`Session.outcome_execute_of_forms`).  With no definitions before it, that is what `evaluate` does
with a text of one expression; and with those of a program before it, a call of the function that
programs start at is what `run` evaluates.
-/

namespace DynLisp

open DynLisp.Action

namespace Session

open Environment (Restored)

variable {source : String} {env env' : Environment} {start : Token} {e : Expr}
  {ts : List Token} {forms before later : List (Token × Expr)}

/-! ## Definitions are loaded as they are executed -/

theorem Loads.definition?_ne_none (h : Loads env e) : e.definition? ≠ none := by
  obtain ⟨f, params, body, rfl⟩ := h.exists_define
  rintro ⟨⟩

theorem RunsThrough.definition?_ne_none {es : List Expr} (h : RunsThrough Loads env es) :
    ∀ e ∈ es, e.definition? ≠ none := by
  induction es generalizing env with
  | nil => exact List.forall_mem_nil _
  | cons e es ih => exact List.forall_mem_cons.2 ⟨h.1.definition?_ne_none, ih h.2⟩

section

variable [Machine]

/-- A definition is executed as it is loaded. -/
theorem executeForm_eq_loadForm (h : e.definition? ≠ none) :
    executeForm source start e = do
      let _ ← loadForm source start e
      return [] := by
  cases e with
  | define f params body => simp only [executeForm, loadForm, bind_assoc, pure_bind]
  | _ => exact absurd rfl h

/-- So are definitions one after the other. -/
theorem takeForms_executeForm (h : ∀ e ∈ forms.map Prod.snd, e.definition? ≠ none) :
    takeForms (executeForm source) forms = do
      let _ ← takeForms (loadForm source) forms
      return [] := by
  induction forms with
  | nil => simp only [takeForms, pure_bind]
  | cons form forms ih =>
    obtain ⟨start, e⟩ := form
    obtain ⟨he, hforms⟩ := List.forall_mem_cons.1 h
    simp only [takeForms, executeForm_eq_loadForm he, ih hforms, bind_assoc, pure_bind,
      List.append_nil]

/-- So is a text that reads as definitions, to its end or not. -/
theorem execute_eq_load (htokens : tokens (blankComments source) = .ok ts)
    (h : ∀ e ∈ (readForms ts).1.map Prod.snd, e.definition? ≠ none) :
    execute source = do
      load source
      return [] := by
  rw [execute_eq, load_eq, discard_eq, takeText, takeText, htokens]
  simp only [takeForms_executeForm h, bind_assoc, pure_bind]
  cases (readForms ts).2 with
  | none => simp only [pure_bind]
  | some fault => rfl

/-- Definitions of new functions are loaded, whatever was noted before. -/
theorem takeForms_of_runsThrough (hwell : ∀ form ∈ forms, form.2.WellFormed .any)
    (hruns : RunsThrough Loads env (forms.map Prod.snd)) (notice : Notice) :
    ∃ results env', takeForms (loadForm source) forms (env.noted notice) = .ok results env' ∧
      Restored (env.withForms (forms.map Prod.snd)) env' := by
  have P := processes_loadForm source
  have hnoted : Restored env (env.noted notice) := Environment.restored_notices env _
  obtain ⟨results, env', hrun, hrestored⟩ :=
    P.run_of_runsThrough hwell ((P.runsThrough_iff hnoted).2 hruns)
  exact ⟨results, env', hrun, (hnoted.withForms _).trans hrestored⟩

/-! ## Where loading stops -/

/-- Loading stops before the end of the text: at a form that cannot be loaded, or at text that does
not cut into tokens or reads as no form, where there is none.  The forms before are definitions of
new functions. -/
inductive Stops (source : String) (env : Environment) : Option Expr → Prop
  | text {failure : Failure} :
      tokens (blankComments source) = .error failure → Stops source env none
  | form {ts : List Token} {before later : List (Token × Expr)} {start : Token} {e : Expr} :
      tokens (blankComments source) = .ok ts → (readForms ts).1 = before ++ (start, e) :: later →
      RunsThrough Loads env (before.map Prod.snd) →
      ¬ Loads (env.withForms (before.map Prod.snd)) e → Stops source env (some e)
  | remainder {ts : List Token} {fault : ReadError} :
      tokens (blankComments source) = .ok ts → (readForms ts).2 = some fault →
      RunsThrough Loads env ((readForms ts).1.map Prod.snd) → Stops source env none

/-- A text that is loaded consists of definitions of new functions, and leaves these. -/
theorem runsThrough_of_load (h : load source env = .ok () env') :
    ∃ ts, tokens (blankComments source) = .ok ts ∧ (readForms ts).2 = none ∧
      RunsThrough Loads env ((readForms ts).1.map Prod.snd) ∧
      Restored (env.withForms ((readForms ts).1.map Prod.snd)) env' := by
  have P := processes_loadForm (blankComments source)
  rw [load_eq, discard_eq] at h
  obtain ⟨results, env₁, htext, hreturn⟩ := run_bind_eq_ok h
  obtain rfl : env₁ = env' := (EStateM.Result.ok.inj hreturn).2
  obtain ⟨ts, htokens, hnone⟩ := exists_tokens_of_takeText htext
  rw [takeText_run htokens, hnone] at htext
  obtain ⟨results', env₂, hforms, hreturn⟩ := run_bind_eq_ok htext
  obtain rfl : env₂ = env₁ := (EStateM.Result.ok.inj hreturn).2
  have hnoted : Restored env (env.noted (.tokens ts)) := Environment.restored_notices env _
  obtain ⟨hruns, hrestored⟩ :=
    P.runsThrough_of_run (wellFormed_of_mem_readForms (isLexical_of_mem_tokens htokens)) hforms
  exact ⟨ts, htokens, hnone, (P.runsThrough_iff hnoted).1 hruns,
    (hnoted.withForms _).trans hrestored⟩

/-- Loading fails where it stops, and executing fails there in the same way, unless it is a form
that is no definition. -/
theorem Stops.load_fails {place : Option Expr} (h : Stops source env place) :
    ∃ failure env', load source env = .error failure env' ∧
      ((∀ e ∈ place, e.definition? ≠ none) → execute source env = .error failure env') := by
  cases h with
  | @text failure htokens =>
    exact ⟨failure, env, load_of_error (takeText_of_refused htokens env),
      fun _ => takeText_of_refused htokens env⟩
  | @remainder ts fault htokens hfault hruns =>
    have hwell := wellFormed_of_mem_readForms (isLexical_of_mem_tokens htokens)
    obtain ⟨results, env', hrun, -⟩ := takeForms_of_runsThrough hwell hruns (.tokens ts)
    have hload : load source env =
        .error (fault.failure (some (blankComments source))) env' := by
      refine load_of_error ?_
      rw [takeText_run htokens, hfault]
      exact run_bind_of_ok _ hrun
    refine ⟨_, env', hload, fun _ => ?_⟩
    rw [execute_eq_load htokens hruns.definition?_ne_none]
    exact run_bind_of_error _ hload
  | @form ts before later start e htokens hforms hruns hrefused =>
    have P := processes_loadForm (blankComments source)
    have hwell := wellFormed_of_mem_readForms (isLexical_of_mem_tokens htokens)
    have hnoted : Restored env (env.noted (.tokens ts)) := Environment.restored_notices env _
    obtain ⟨hfirst, hrest⟩ := List.forall_mem_append.1 (hforms ▸ hwell)
    obtain ⟨failure, env', -, hrun⟩ := P.run_of_refused hfirst
      ((P.runsThrough_iff hnoted).2 hruns) start (List.forall_mem_cons.1 hrest).1
      (mt (P.restored (hnoted.withForms _)).1 hrefused)
    have hload : load source env = .error failure env' := by
      refine load_of_error ?_
      rw [takeText_run htokens, hforms]
      exact run_bind_of_error _ (hrun later)
    refine ⟨failure, env', hload, fun he => ?_⟩
    -- up to the form that is refused there are definitions only
    have hdefinitions : ∀ e' ∈ (before ++ [(start, e)]).map Prod.snd, e'.definition? ≠ none := by
      rw [List.map_append]
      exact List.forall_mem_append.2
        ⟨hruns.definition?_ne_none, List.forall_mem_singleton.2 (he e rfl)⟩
    rw [execute_eq, takeText_run htokens, hforms, List.append_cons, takeForms_append,
      takeForms_executeForm hdefinitions]
    exact run_bind_of_error _ (run_bind_of_error _ (run_bind_of_error _ (hrun [])))

/-- If loading fails, then it stops somewhere. -/
theorem exists_stops {failure : Failure} (h : load source env = .error failure env') :
    ∃ place, Stops source env place := by
  cases htokens : tokens (blankComments source) with
  | error failure => exact ⟨none, .text htokens⟩
  | ok ts =>
    rcases runsThrough_or_exists Loads env ((readForms ts).1.map Prod.snd) with
      hruns | ⟨before, e, after, hsplit, hruns, hrefused⟩
    · cases hfault : (readForms ts).2 with
      | some fault => exact ⟨none, .remainder htokens hfault hruns⟩
      | none =>
        have hwell := wellFormed_of_mem_readForms (isLexical_of_mem_tokens htokens)
        obtain ⟨results, env₁, hrun, -⟩ := takeForms_of_runsThrough hwell hruns (.tokens ts)
        have htext : takeText source loadForm env = .ok results env₁ := by
          rw [takeText_run htokens, hfault]
          exact run_bind_of_ok _ hrun
        rw [load_eq, discard_eq, run_bind_of_ok _ htext] at h
        cases h
    · obtain ⟨before, later, hforms, rfl, hlater⟩ := List.map_eq_append_iff.1 hsplit
      obtain ⟨⟨start, e⟩, later, rfl, rfl, rfl⟩ := List.map_eq_cons_iff.1 hlater
      exact ⟨some e, .form htokens hforms hruns hrefused⟩

/-- A text that is loaded is executed with the same result, which is none. -/
theorem execute_of_load (h : load source env = .ok () env') :
    execute source env = .ok [] env' := by
  obtain ⟨ts, htokens, -, hruns, -⟩ := runsThrough_of_load h
  rw [execute_eq_load htokens hruns.definition?_ne_none]
  exact run_bind_of_ok _ h

/-! ## An expression after definitions -/

theorem outcome_executeForm (he : e.WellFormed .any) (hdefinition : e.definition? = none)
    (env : Environment) :
    (executeForm source start e).outcome env =
      ((DynLisp.evaluate Machine.calls e).outcome env).map fun v => [v] := by
  rw [executeForm_of_ne (Expr.definition?_eq_none_iff.1 hdefinition), outcome_bind,
    (evaluateExpr_run he env).1]
  cases (DynLisp.evaluate Machine.calls e).outcome env <;> rfl

/-- To execute a text of definitions with one expression at the end is to evaluate the expression
with their functions. -/
theorem outcome_execute_of_forms (htokens : tokens (blankComments source) = .ok ts)
    (hforms : readForms ts = (before ++ [(start, e)], none))
    (hruns : RunsThrough Loads env (before.map Prod.snd)) (hdefinition : e.definition? = none) :
    (execute source).outcome env =
      ((DynLisp.evaluate Machine.calls e).outcome (env.withForms (before.map Prod.snd))).map
        fun v => [v] := by
  have hwell := wellFormed_of_mem_readForms (isLexical_of_mem_tokens htokens)
  rw [hforms] at hwell
  obtain ⟨hfirst, hlast⟩ := List.forall_mem_append.1 hwell
  obtain ⟨results, env', hrun, hsame⟩ := takeForms_of_runsThrough hfirst hruns (.tokens ts)
  have hbefore : takeForms (executeForm (blankComments source)) before (env.noted (.tokens ts)) =
      .ok [] env' := by
    rw [takeForms_executeForm hruns.definition?_ne_none]
    exact run_bind_of_ok _ hrun
  have htext : (execute source).outcome env =
      (executeForm (blankComments source) start e).outcome env' := by
    rw [Action.outcome, execute_eq, takeText_run htokens, hforms, ← Action.outcome,
      takeForms_append, bind_pure, outcome_bind_of_ok _ hbefore]
    simp only [takeForms, pure_bind, List.append_nil, List.nil_append, bind_pure]
  rw [htext, outcome_executeForm (hlast (start, e) List.mem_cons_self) hdefinition,
    outcome_evaluate_congr hsame.scope fun f => by rw [hsame.functions]]

/-- A text without comments that is one expression is executed as it is evaluated, also if a number
in it has too many digits. -/
theorem outcome_execute_of_derives (htokenize : tokenize source = .ok ts)
    (hderives : Derives .any ts e) (hdefinition : e.definition? = none) :
    (execute source).outcome env = ((evaluate source).outcome env).map fun v => [v] := by
  have hblanked : blankComments source = source := by
    rw [blankComments, blankFrom_of_not_mem (semicolon_not_mem_of_lex htokenize),
      String.ofList_toList]
  have htokens : tokens (blankComments source) = .ok ts := by
    rw [hblanked]
    exact tokens_eq_ok_iff.2 htokenize
  obtain ⟨start, later, rfl⟩ := List.exists_cons_of_ne_nil hderives.ne_nil
  rcases expr_of_derives (isLexical_of_mem_tokens htokens) hderives with
    hread | ⟨fault, left, hread⟩
  · have hforms : readForms (start :: later) = ([] ++ [(start, e)], none) := by
      rw [readForms, hread]
      simp [readForms]
    have hparse : parse source = .ok e := by
      rw [parse_of_tokenize htokenize, Parser.program_cons, Parser.bind_of_eq_ok hread]
      rfl
    have hevaluate : (evaluate source).outcome env =
        (DynLisp.evaluate Machine.calls e).outcome env := by
      rw [evaluate, hparse]
      exact (evaluateExpr_run (wellFormed_of_parse hparse) env).1
    rw [outcome_execute_of_forms htokens hforms trivial hdefinition, List.map_nil,
      Environment.withForms_nil, hevaluate]
  · have hforms : readForms (start :: later) = ([], some fault) := by
      rw [readForms, hread]
    have hparse : parse source = .error (fault.failure (some source)) := by
      rw [parse_of_tokenize htokenize, Parser.program_cons, Parser.bind_of_eq_error hread]
    rw [evaluate, hparse, Action.outcome, execute_eq, takeText_run htokens, hforms, hblanked]
    rfl

/-! ## Programs -/

/-- A program with a call of the function that programs start at on a line after it is executed as
the program is run. -/
theorem outcome_execute_entry {body : Expr} (hload : load source .empty = .ok () env')
    (hentry : env'.functions.lookup entry = some ⟨[], body⟩) :
    (execute (source ++ "\n(main)")).outcome .empty =
      ((runProgram source).outcome .empty).map fun v => [v] := by
  obtain ⟨ts₁, h₁, hnone, hruns, hrestored⟩ := runsThrough_of_load hload
  obtain ⟨ts₂, h₂, hread⟩ : ∃ ts₂, tokens (blankComments "(main)") = .ok ts₂ ∧
      ((readForms ts₂).1.map Prod.snd, (readForms ts₂).2) = ([.call entry []], none) :=
    Except.map_eq_ok_iff.1 (by decide +kernel)
  obtain ⟨hcall, hend⟩ := Prod.mk.inj hread
  obtain ⟨ts, htokens, hts⟩ := tokens_join h₁ h₂
  obtain ⟨forms₁, forms₂, hforms, hforms₁, hforms₂, hfault⟩ := readForms_join
    (List.forall_mem_append.2 ⟨isLexical_of_mem_tokens h₁, isLexical_of_mem_tokens h₂⟩) hts hnone
  -- the forms of the join are those of the program and the call
  rw [← hforms₂.map_snd_eq] at hcall
  obtain ⟨⟨start, e⟩, rest, rfl, rfl, hrest⟩ := List.map_eq_cons_iff.1 hcall
  obtain rfl := List.map_eq_nil_iff.1 hrest
  rw [hend] at hfault
  have hall : readForms ts = (forms₁ ++ [(start, .call entry [])], none) := by
    refine Prod.ext hforms ?_
    generalize (readForms ts).2 = fault at hfault
    cases hfault
    rfl
  rw [← hforms₁.map_snd_eq] at hruns hrestored
  have hrun : (runProgram source).outcome .empty =
      (DynLisp.evaluate Machine.calls (.call entry [])).outcome env' := by
    rw [runProgram, outcome_bind_of_ok _ hload, outcome_run hentry]
  rw [hrun, outcome_evaluate_congr hrestored.scope fun f => by rw [hrestored.functions]]
  have hsource : source ++ "\n(main)" = source ++ "\n" ++ "(main)" := by
    rw [String.append_assoc]
    rfl
  rw [hsource]
  exact outcome_execute_of_forms htokens hall hruns rfl

/-! ## Agreement -/

/-- **The ways into a session agree.**  A text that is loaded is executed with no results and leaves
the same environment.  Loading fails exactly if it stops before the end of the text; where it stops
at a definition, or at text that does not cut into tokens or reads as no form, executing fails with
the same failure and leaves the same environment.  A text without comments that is one expression
and no definition is executed as it is evaluated.  A program, with a call of the function that
programs start at on a line of its own after it, is executed as it is run. -/
theorem paths_agree :
    (∀ source env env', load source env = .ok () env' → execute source env = .ok [] env') ∧
    (∀ source env, (∃ failure env', load source env = .error failure env') ↔
      ∃ place, Stops source env place) ∧
    (∀ source env place, Stops source env place → (∀ e ∈ place, e.definition? ≠ none) →
      ∃ failure env', load source env = .error failure env' ∧
        execute source env = .error failure env') ∧
    (∀ source env ts e, tokenize source = .ok ts → Derives .any ts e → e.definition? = none →
      (execute source).outcome env = ((evaluate source).outcome env).map fun v => [v]) ∧
    ∀ source env' body, load source .empty = .ok () env' →
      env'.functions.lookup entry = some ⟨[], body⟩ →
      (execute (source ++ "\n(main)")).outcome .empty =
        ((runProgram source).outcome .empty).map fun v => [v] := by
  refine ⟨fun source env env' => execute_of_load, fun source env => ⟨?_, ?_⟩, ?_,
    fun source env ts e => outcome_execute_of_derives,
    fun source env' body => outcome_execute_entry⟩
  · rintro ⟨failure, env', h⟩
    exact exists_stops h
  · rintro ⟨place, h⟩
    obtain ⟨failure, env', hload, -⟩ := h.load_fails
    exact ⟨failure, env', hload⟩
  · intro source env place h hplace
    obtain ⟨failure, env', hload, hexecute⟩ := h.load_fails
    exact ⟨failure, env', hload, hexecute hplace⟩

end

/-- A text that defines `f` is loaded; one that defines `g`, then `f` again, and goes on with a call
stops at the second definition; and there are an expression that divides by zero, and a program that
does and ends in a comment. -/
theorem paths_agree_programs :
    let _ : Machine := .ofCalls 5
    let first := "(define (f x) (/ 6 x)) ; ("
    let again := "(define (g) 1) (define (f) 2) (g)"
    let program := "(define (main) (f 0)) (define (f x) (/ 6 x)) ; end"
    let env := (load first).after .empty
    let division : Failure := (Fault.arithmetic (.divisionByZero 6)).failure
    execute first .empty = .ok [] env ∧
      Stops again env (some (.define "f" [] (.number 2))) ∧
      (∃ env', execute again env = .error ((Fault.alreadyDefined "f").failureAt again 15) env' ∧
        env'.functions.map Prod.fst = ["f", "g"]) ∧
      (execute "(f 0)").outcome env = .error division ∧
      (execute (program ++ "\n(main)")).outcome .empty = .error division := by
  intro _ first again program env division
  obtain ⟨hloaded, -, hstops, hevaluated, hprogram⟩ := paths_agree
  have hfirst : load first .empty = .ok () env := run_of_outcome_eq_ok (by decide +kernel)
  have hagain : Stops again env (some (.define "f" [] (.number 2))) := by
    obtain ⟨ts, htokens, hread⟩ : ∃ ts, tokens (blankComments again) = .ok ts ∧
        (readForms ts).1.map Prod.snd =
          [.define "g" [] (.number 1), .define "f" [] (.number 2), .call "g" []] :=
      Except.map_eq_ok_iff.1 (by decide +kernel)
    obtain ⟨⟨t₁, _⟩, rest, hforms, rfl, hrest⟩ := List.map_eq_cons_iff.1 hread
    obtain ⟨⟨t₂, _⟩, later, rfl, rfl, -⟩ := List.map_eq_cons_iff.1 hrest
    have hnew : env.functions.lookup "g" = none := by decide +kernel
    have hdefined : (env.withForms [.define "g" [] (.number 1)]).functions.lookup "f" ≠ none := by
      decide +kernel
    refine @Stops.form _ _ ts [(t₁, _)] later t₂ _ htokens hforms ⟨.definition hnew, trivial⟩ ?_
    rintro ⟨hnone⟩
    exact hdefined hnone
  have hrefused : (load again).outcome env =
      .error ((Fault.alreadyDefined "f").failureAt again 15) := by decide +kernel
  have hcall : parse "(f 0)" = .ok (.call "f" [.number 0]) := by decide +kernel
  obtain ⟨ts, htokenize, hderives, -⟩ := parse_eq_ok_iff.1 hcall
  have hdivision : (evaluate "(f 0)").outcome env = .error division := by decide +kernel
  have hmain : (load program).outcome .empty = .ok () := by decide +kernel
  have hentry : ((load program).after .empty).functions.lookup entry =
      some ⟨[], .call "f" [.number 0]⟩ := by decide +kernel
  have hfails : (runProgram program).outcome .empty = .error division := by decide +kernel
  refine ⟨hloaded _ _ _ hfirst, hagain, ?_, ?_, ?_⟩
  · obtain ⟨failure, env', hload, hexecute⟩ := hstops again env _ hagain (by rintro e ⟨⟩ ⟨⟩)
    have hfailure := (outcome_of_error hload).symm.trans hrefused
    obtain rfl := Except.error.inj hfailure
    have hafter : ((execute again).after env).functions.map Prod.fst = ["f", "g"] := by
      decide +kernel
    rw [after_of_error hexecute] at hafter
    exact ⟨env', hexecute, hafter⟩
  · rw [hevaluated _ _ _ _ htokenize hderives rfl, hdivision]
    rfl
  · rw [hprogram _ _ _ (run_of_outcome_eq_ok hmain) hentry, hfails]
    rfl

end Session

end DynLisp
