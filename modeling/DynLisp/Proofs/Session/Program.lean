import DynLisp.Proofs.Evaluation.Extension
import DynLisp.Proofs.Session.Definitions

/-!
# Programs and their runs

A program is a text of definitions of different functions, one of which is the function that
programs start at and has no parameters.  Whether a text is one is settled before anything is
evaluated: if it is not, the text is refused, or a number in it has too many digits, and no function
has been called.  If it is, the run ends in what the body of that function ends in, with the
functions of the text and nothing bound.  The call that starts it cannot fail by itself where any
call may be active, so every failure is one that a form raises on the way of the body
(`runProgram_phases`).
-/

namespace DynLisp

open DynLisp.Action

/-! ## The call that starts a program -/

section

variable [Machine] {env : Environment} {f : String} {e : Expr}

/-- A call of a function without parameters binds nothing, and ends as the body does. -/
theorem outcome_callWith_nil {body : Expr → Action Value} (hbody : (body e).Restores)
    (h : env.functions.lookup f = some ⟨[], e⟩) (kept : Nat) :
    (callWith kept body f []).outcome env = (body e).outcome (env.noted (.calling f [])) := by
  have hresolve : resolveCall f [] env = .ok ⟨[], e⟩ (env.noted (.calling f [])) :=
    resolveCall_of_length h rfl
  have hcall : (callWith kept body f []).outcome env =
      (Environment.binding kept [] (body e)).outcome (env.noted (.calling f [])) :=
    outcome_bind_of_ok _ hresolve
  rw [hcall, Environment.outcome_binding_of_restores hbody]
  rfl

/-- A call of a function without parameters ends as the body does with one call less. -/
theorem outcome_call_nil (h : env.functions.lookup f = some ⟨[], e⟩) (limit : Nat) :
    (evaluate (limit + 1) (.call f [])).outcome env = (evaluate limit e).outcome env :=
  (outcome_callWith_nil (restores_evaluate limit e) h _).trans
    (outcome_evaluate_noted env _ limit e)

theorem outcome_call_nil_zero (h : env.functions.lookup f = some ⟨[], e⟩) :
    (evaluate 0 (.call f [])).outcome env = .error .depthExceeded := by
  have hthrow : Restores (throw Failure.depthExceeded : Action Value) := restores_throw _
  exact @outcome_callWith_nil _ env f e (fun _ => throw Failure.depthExceeded) hthrow h
    (Machine.kept 0)

end

namespace Session

/-- A run ends in what the call ends in of the function that programs start at. -/
theorem outcome_run [Machine] {env : Environment} {body : Expr}
    (h : env.functions.lookup entry = some ⟨[], body⟩) :
    run.outcome env = (DynLisp.evaluate Machine.calls (.call entry [])).outcome env := by
  obtain ⟨lines, hlines⟩ : ∃ lines, (Expr.call entry []).display 0 = .ok lines := ⟨_, rfl⟩
  have hrun : run.outcome env =
      (DynLisp.evaluate Machine.calls (.call entry [])).outcome (env.noted (.tree lines)) := by
    rw [run, outcome_bind_of_ok _ (checkEntry_of_eq_nil h rfl), evaluate, parse_entry]
    simp only [evaluateExpr, hlines]
    rfl
  rw [hrun, outcome_evaluate_noted]

/-- A run depends on the functions and on what names stand for, and on nothing else. -/
theorem outcome_run_congr [Machine] {env env' : Environment} (hscope : env'.scope = env.scope)
    (hfunctions : ∀ f, env'.functions.lookup f = env.functions.lookup f) :
    run.outcome env' = run.outcome env := by
  have hrefused : ∀ {env : Environment} {failure : Failure},
      checkEntry env = .error failure env → run.outcome env = .error failure := by
    intro env failure h
    exact outcome_of_error (run_bind_of_error _ h)
  have hentry := hfunctions entry
  cases h : env.functions.lookup entry with
  | none =>
    rw [h] at hentry
    rw [hrefused (checkEntry_of_none h), hrefused (checkEntry_of_none hentry)]
  | some definition =>
    rw [h] at hentry
    obtain ⟨params, body⟩ := definition
    by_cases hparams : params = []
    · obtain rfl := hparams
      rw [outcome_run h, outcome_run hentry]
      exact outcome_evaluate_congr hscope hfunctions _ _
    · rw [hrefused (checkEntry_of_ne_nil h hparams),
        hrefused (checkEntry_of_ne_nil hentry hparams)]

theorem checkEntry_eq_ok {env env' : Environment} (h : checkEntry env = .ok () env') :
    env' = env ∧ ∃ body, env.functions.lookup entry = some ⟨[], body⟩ := by
  cases hentry : env.functions.lookup entry with
  | none =>
    rw [checkEntry_of_none hentry] at h
    cases h
  | some definition =>
    obtain ⟨params, body⟩ := definition
    by_cases hparams : params = []
    · obtain rfl := hparams
      rw [checkEntry_of_eq_nil hentry rfl] at h
      cases h
      exact ⟨rfl, body, rfl⟩
    · rw [checkEntry_of_ne_nil hentry hparams] at h
      cases h

end Session

/-! ## Programs -/

open Session (entry)

/-- A text is a program: it defines functions with different names, and one of them is the function
that programs start at, without parameters and with this body. -/
structure IsProgram (source : String) (functions : List (String × Definition)) (body : Expr) :
    Prop where
  defines : DefinesAll source functions
  distinct : (functions.map Prod.fst).Nodup
  starts : (entry, ⟨[], body⟩) ∈ functions

instance (source : String) (functions : List (String × Definition)) (body : Expr) :
    Decidable (IsProgram source functions body) :=
  decidable_of_iff
    (DefinesAll source functions ∧ (functions.map Prod.fst).Nodup ∧ (entry, ⟨[], body⟩) ∈ functions)
    ⟨fun h => ⟨h.1, h.2.1, h.2.2⟩, fun h => ⟨h.defines, h.distinct, h.starts⟩⟩

/-- A program is loaded, and the function that it starts at can be called. -/
theorem IsProgram.exists_load {source : String} {functions : List (String × Definition)}
    {body : Expr} (h : IsProgram source functions body) :
    ∃ env, Session.load source .empty = .ok () env ∧ env.functions = functions ∧
      env.bindings = .empty ∧ env.functions.lookup entry = some ⟨[], body⟩ := by
  obtain ⟨env, hload, hfunctions, hbindings⟩ :=
    @Session.load_of_definesAll source functions .empty h.defines h.distinct
  refine ⟨env, hload, hfunctions, hbindings, ?_⟩
  rw [hfunctions]
  exact (Environment.lookup_eq_some_iff h.distinct).2 h.starts

/-- A text of definitions of different functions ends as a run with these functions does. -/
theorem DefinesAll.outcome_runProgram [Machine] {source : String}
    {functions : List (String × Definition)} (h : DefinesAll source functions)
    (hdistinct : (functions.map Prod.fst).Nodup) :
    (runProgram source).outcome .empty = Session.run.outcome (.ofFunctions functions) := by
  obtain ⟨env, hload, hfunctions, hbindings⟩ :=
    @Session.load_of_definesAll source functions .empty h hdistinct
  have hrun : (runProgram source).outcome .empty = Session.run.outcome env :=
    outcome_bind_of_ok _ hload
  rw [hrun]
  refine Session.outcome_run_congr (congrArg Bindings.lookup? hbindings) fun f => ?_
  rw [hfunctions]
  rfl

/-- A program ends as the call does that starts it. -/
theorem IsProgram.outcome_runProgram [Machine] {source : String}
    {functions : List (String × Definition)} {body : Expr} (h : IsProgram source functions body) :
    (runProgram source).outcome .empty =
      (evaluate Machine.calls (.call entry [])).outcome (.ofFunctions functions) := by
  rw [h.defines.outcome_runProgram h.distinct]
  exact Session.outcome_run ((Environment.lookup_eq_some_iff h.distinct).2 h.starts)

/-- A text that is loaded and can be run is a program. -/
theorem exists_isProgram {source : String} {env env' : Environment}
    (hload : Session.load source .empty = .ok () env)
    (hcheck : Session.checkEntry env = .ok () env') :
    ∃ functions body, IsProgram source functions body := by
  obtain ⟨functions, hdefines, hdistinct, hfunctions, -⟩ :=
    Session.definesAll_of_load hload List.nodup_nil
  obtain ⟨-, body, hentry⟩ := Session.checkEntry_eq_ok hcheck
  rw [hfunctions] at hentry
  exact ⟨functions, body, hdefines, hdistinct,
    (Environment.lookup_eq_some_iff hdistinct).1 hentry⟩

/-- What forms raise is no fault of a text, and about no digits. -/
theorem Expr.Raises.not_syntactic {e : Expr} {failure : Failure} {among : Token → Prop}
    (h : e.Raises failure) : ¬ (failure.Syntactic ∨ failure.Exceeds among) := by
  rintro (hsyntactic | hexceeds)
  · obtain ⟨fault, location, rfl, hkind⟩ := hsyntactic.exists_fault
    rcases h.kind with ⟨⟨⟩⟩ | ⟨fault', hfault, hlexical, hgrammar, -⟩
    obtain ⟨rfl, -⟩ := Failure.error.inj hfault
    exact hkind.elim hlexical hgrammar
  · cases hexceeds with
    | intro =>
      rcases h.kind with ⟨⟨⟩⟩ | ⟨_, ⟨⟩, -⟩

/-! ## Texts that are no programs -/

/-- No notice was given of a call. -/
def Environment.Uncalled (env : Environment) : Prop := ∀ f args, .calling f args ∉ env.notices

open Environment (Uncalled)

theorem uncalled_note {notice : Notice} (h : ∀ f args, .calling f args ≠ notice) :
    Maintains Uncalled (fun _ => True) (Environment.note notice) :=
  maintains_modify fun _ henv f args hmem =>
    (List.mem_cons.1 hmem).elim (h f args) (henv f args)

/-- Loading calls nothing. -/
theorem uncalled_load (source : String) :
    Maintains Uncalled (fun _ => True) (Session.load source) := by
  have hform : ∀ s t (e : Expr), Maintains Uncalled (fun _ => True) (Session.loadForm s t e) := by
    intro s t e
    cases e with
    | define f params body =>
      have hadd : Maintains Uncalled (fun _ => True) (do
          modify fun env => { env with functions := env.functions ++ [(f, ⟨params, body⟩)] }
          Environment.note (.defined f params)) :=
        (maintains_modify fun _ henv => henv).bind fun _ _ => uncalled_note (by nofun)
      have hdefine :
          Maintains Uncalled (fun _ => True) (Environment.define (.define f params body)) := by
        refine maintains_get_bind fun env _ => ?_
        dsimp only
        split
        · exact (maintains_throw _).bind fun (_ : PUnit) (_ : True) => hadd
        · exact hadd
      exact (Session.maintains_defineAt hdefine s t).bind fun _ _ => maintains_pure trivial
    | _ => exact (maintains_throw _).bind fun (_ : PUnit) (_ : True) => maintains_pure trivial
  rw [Session.load_eq, discard_eq]
  refine Maintains.bind (Session.maintains_takeText (fun ts => uncalled_note nofun)
    (fun s t e _ => (hform s t e).mono fun _ _ _ _ => trivial) source)
    fun _ (_ : ∀ a ∈ _, True) => maintains_pure trivial

theorem uncalled_checkEntry : Maintains Uncalled (fun _ => True) Session.checkEntry := by
  refine maintains_get_bind fun env _ => ?_
  cases env.functions.lookup entry with
  | none => exact maintains_throw _
  | some definition =>
    dsimp only
    split
    · exact maintains_throw _
    · exact maintains_pure trivial

/-- Definitions that are no program are refused for their grammar, by the check of the function that
programs start at. -/
theorem exists_checkEntry [Machine] {source : String} {env : Environment}
    (h : ¬ ∃ functions body, IsProgram source functions body)
    (hload : Session.load source .empty = .ok () env) :
    ∃ failure env', Session.checkEntry env = .error failure env' ∧
      runProgram source .empty = .error failure env' ∧ failure.kind? = some .grammar := by
  cases hcheck : Session.checkEntry env with
  | ok _ env' => exact absurd (exists_isProgram hload hcheck) h
  | error failure env' =>
    have hrun : runProgram source .empty = Session.run env := run_bind_of_ok _ hload
    exact ⟨failure, env', rfl, hrun.trans (run_bind_of_error _ hcheck),
      Session.kind_of_checkEntry (outcome_of_error hcheck)⟩

/-- How a text ends that is no program, on any machine: it does not cut into tokens, or it fails for
its grammar or for a number of too many digits, and nothing has been called then. -/
theorem exists_refusal [Machine] {source : String}
    (h : ¬ ∃ functions body, IsProgram source functions body) :
    ∃ failure env, runProgram source .empty = .error failure env ∧
      (tokens (blankComments source) = .error failure ∨ failure.kind? = some .grammar ∨
        failure.Exceeds (Job.runProgram source).Holds) ∧ env.Uncalled := by
  have hempty : Environment.empty.Uncalled := fun f args => List.not_mem_nil
  cases hload : Session.load source .empty with
  | error failure env =>
    exact ⟨failure, env, run_bind_of_error _ hload,
      Session.tokens_or_kind_of_load (outcome_of_error hload),
      (uncalled_load source).of_error hempty hload⟩
  | ok _ env =>
    have huncalled := ((uncalled_load source).of_ok hempty hload).1
    obtain ⟨failure, env', hcheck, hrun, hkind⟩ := exists_checkEntry h hload
    exact ⟨failure, env', hrun, .inr (.inl hkind), uncalled_checkEntry.of_error huncalled hcheck⟩

/-- A text that is no program is refused, or a number in it has too many digits, and nothing has
been called then. -/
theorem refused_of_not_isProgram [Machine] {source : String}
    (h : ¬ ∃ functions body, IsProgram source functions body) :
    ∃ failure env, runProgram source .empty = .error failure env ∧
      (failure.Syntactic ∨ failure.Exceeds (Job.runProgram source).Holds) ∧ env.Uncalled := by
  obtain ⟨failure, env, hrun, hrefused, huncalled⟩ := exists_refusal h
  refine ⟨failure, env, hrun, ?_, huncalled⟩
  rcases hrefused with htokens | hkind | hexceeds
  · exact .inl (.inl (kind_of_tokens htokens))
  · exact .inl (.inr hkind)
  · exact .inr hexceeds

/-! ## Phases -/

/-- **The phases of a program are separate.**  The text of a program is refused, or fails for a
number of too many digits, exactly if it is no program: if it does not cut into tokens, or they do
not read as a sequence of definitions, or two of these have the same name, or none is of the
function that programs start at, without parameters.  Then no evaluation has been started, and
nothing has been called.  A program ends in whatever the body ends in of the function that it starts
at, with its functions and with nothing bound, where the call that starts it counts as one.  That
call finds its function with as many parameters as it has arguments, and every failure is raised by
a form on the way of the body, unless not even that call may be active. -/
theorem runProgram_phases [Machine] (source : String) :
    ((∃ failure, (runProgram source).outcome .empty = .error failure ∧
        (failure.Syntactic ∨ failure.Exceeds (Job.runProgram source).Holds)) ↔
      ¬ ∃ functions body, IsProgram source functions body) ∧
    ((¬ ∃ functions body, IsProgram source functions body) →
      (∀ c, ¬ (Job.runProgram source).Starts .empty c) ∧
        ∀ f args, .calling f args ∉ ((runProgram source).after .empty).notices) ∧
    ∀ functions body, IsProgram source functions body →
      (∃ env env', Session.load source .empty = .ok () env ∧ env.functions = functions ∧
        env.bindings = .empty ∧ resolveCall entry [] env = .ok ⟨[], body⟩ env') ∧
      (Machine.calls = 0 → (runProgram source).outcome .empty = .error .depthExceeded) ∧
      ∀ limit, Machine.calls = limit + 1 →
        (runProgram source).outcome .empty =
          (evaluate limit body).outcome (.ofFunctions functions) ∧
        ∀ failure, (runProgram source).outcome .empty = .error failure →
          ∃ c, Relation.ReflTransGen Enters ⟨limit, .ofFunctions functions, body⟩ c ∧
            c.expr.Raises failure := by
  have hentry : ∀ {functions body}, IsProgram source functions body →
      (Environment.ofFunctions functions).functions.lookup entry = some ⟨[], body⟩ :=
    fun h => (Environment.lookup_eq_some_iff h.distinct).2 h.starts
  refine ⟨⟨?_, fun h => ?_⟩, fun h => ⟨?_, ?_⟩,
    fun functions body h => ⟨?_, fun hzero => ?_, fun limit hlimit => ?_⟩⟩
  · rintro ⟨failure, hfails, hrefused⟩ ⟨functions, body, h⟩
    rw [h.outcome_runProgram] at hfails
    obtain ⟨c, -, hraises, -⟩ :=
      @exists_origin _ ⟨Machine.calls, .ofFunctions functions, .call entry []⟩ failure hfails
    exact hraises.not_syntactic hrefused
  · obtain ⟨failure, env, hrun, hrefused, -⟩ := refused_of_not_isProgram h
    exact ⟨failure, outcome_of_error hrun, hrefused⟩
  · intro c hstarts
    cases hstarts with
    | runProgram hload hrun =>
      cases hrun with
      | run hcheck _ => exact h (exists_isProgram hload hcheck)
  · obtain ⟨failure, env, hrun, -, huncalled⟩ := refused_of_not_isProgram h
    rw [after_of_error hrun]
    exact huncalled
  · obtain ⟨env, hload, hfunctions, hbindings, hfound⟩ := h.exists_load
    exact ⟨env, _, hload, hfunctions, hbindings, resolveCall_of_length hfound rfl⟩
  · rw [h.outcome_runProgram, hzero]
    exact outcome_call_nil_zero (hentry h)
  · have hrun : (runProgram source).outcome .empty =
        (evaluate limit body).outcome (.ofFunctions functions) := by
      rw [h.outcome_runProgram, hlimit]
      exact outcome_call_nil (hentry h) limit
    refine ⟨hrun, fun failure hfails => ?_⟩
    obtain ⟨c, hway, hraises, -⟩ :=
      @exists_origin _ ⟨limit, .ofFunctions functions, body⟩ failure (hrun.symm.trans hfails)
    exact ⟨c, hway, hraises⟩

/-- A program that calls a function defined after it and divides by zero, and a text with two
functions to start at. -/
theorem runProgram_phases_division :
    let _ : Machine := .ofCalls 2
    let source := "(define (main) (f 0)) ; first\n(define (f x) (/ 6 x))"
    let functions : List (String × Definition) :=
      [("main", ⟨[], .call "f" [.number 0]⟩),
        ("f", ⟨["x"], .arith .div (.number 6) (.var "x")⟩)]
    let twice := "(define (main) 1) (define (main) (/ 1 0))"
    IsProgram source functions (.call "f" [.number 0]) ∧
      (runProgram source).outcome .empty =
        .error (Fault.arithmetic (.divisionByZero 6)).failure ∧
      (∃ c, Relation.ReflTransGen Enters
          ⟨1, .ofFunctions functions, .call "f" [.number 0]⟩ c ∧
        c.expr.Raises (Fault.arithmetic (.divisionByZero 6)).failure) ∧
      (¬ ∃ functions body, IsProgram twice functions body) ∧
      ∀ c, ¬ (Job.runProgram twice).Starts .empty c := by
  intro _ source functions twice
  have hprogram : IsProgram source functions (.call "f" [.number 0]) := by decide +kernel
  have hout : (runProgram source).outcome .empty =
      .error (Fault.arithmetic (.divisionByZero 6)).failure := by decide +kernel
  have htwice : (runProgram twice).outcome .empty =
      .error ((Fault.alreadyDefined "main").failureAt twice 18) := by decide +kernel
  obtain ⟨-, -, hphases⟩ := runProgram_phases source
  obtain ⟨-, -, hbody⟩ := hphases functions _ hprogram
  obtain ⟨hrefused, hnothing, -⟩ := runProgram_phases twice
  have hnone := hrefused.1 ⟨_, htwice, .inl (.inr rfl)⟩
  exact ⟨hprogram, hout, (hbody 1 rfl).2 _ hout, hnone, (hnothing hnone).1⟩

/-- A text of 4301 digits is one token, so it is no sequence of definitions, and yet it is not
refused. -/
theorem runProgram_phases_ones :
    let _ : Machine := .ofCalls 1
    let source := (Token.repeated '1' 4301).text
    tokens (blankComments source) = .ok [Token.repeated '1' 4301] ∧
      (∀ functions : List (String × Definition),
        ¬ Sequence (Derives .any) [Token.repeated '1' 4301] (functions.map defining)) ∧
      (runProgram source).outcome .empty = .error (.oversized 4301) ∧
      ¬ (Failure.oversized 4301).Syntactic := by
  intro _ source
  have htokens : tokens (blankComments source) = .ok [Token.repeated '1' 4301] :=
    Session.tokens_repeated rfl (by decide)
  refine ⟨htokens, fun functions hseq => ?_, ?_, fun h => h.elim nofun nofun⟩
  · generalize hone : [Token.repeated '1' 4301] = ts at hseq
    generalize hes : functions.map defining = es at hseq
    cases hseq with
    | nil => cases hone
    | cons hd _ =>
      -- a definition starts with an opening delimiter
      obtain ⟨⟨f, params, body⟩, _, rfl, rfl, -⟩ := List.map_eq_cons_iff.1 hes
      rw [defining] at hd
      cases hd with
      | define ho =>
        obtain ⟨rfl, -⟩ := List.cons.inj hone
        cases ho
  · have hload := Session.load_of_error
      (Session.takeText_repeated (c := '1') (n := 4301) rfl (by decide) Session.loadForm .empty)
    exact outcome_of_error (run_bind_of_error _ hload)

end DynLisp
