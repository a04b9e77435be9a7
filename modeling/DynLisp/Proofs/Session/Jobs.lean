import DynLisp.Proofs.Evaluation.Origin
import DynLisp.Proofs.Outline
import DynLisp.Proofs.Parser.Progress
import DynLisp.Proofs.Session.Invariant

/-!
# What jobs start

The jobs of a session, and of the interpreter without one, are to load, to execute or to evaluate a
text, to run what is loaded, and to run a program or a snippet.  `Job.Starts` says which
evaluations a job starts, and in which environments: those of expressions that its texts hold, and
of the call of the function that programs start at.  Definitions are never evaluated.

If a job fails, then its text is refused, or an evaluation that it starts fails in the same way
(`Job.syntactic_or_starts`).  A text is refused for its characters or for its grammar, or because a
number in it has too many digits.
-/

namespace DynLisp

open DynLisp.Action

/-! ## Jobs -/

/-- What a session or the interpreter can be asked to do. -/
inductive Job where
  | load (source : String)
  | execute (source : String)
  | evaluate (source : String)
  | run
  | runProgram (source : String)
  | runSnippet (source : String)

namespace Job

/-- What a job has as its result. -/
def Result : Job → Type
  | load _ => Unit
  | execute _ => List Value
  | _ => Value

/-- What a job does in the environment of a session. -/
def act [Machine] : (job : Job) → Action job.Result
  | load source => Session.load source
  | execute source => Session.execute source
  | evaluate source => Session.evaluate source
  | run => Session.run
  | runProgram source => DynLisp.runProgram source
  | runSnippet source => DynLisp.runSnippet source

/-- A token stands in the text that a job is given. -/
def Holds : Job → Token → Prop
  | load source, t | execute source, t | runProgram source, t =>
    ∃ ts, tokens (blankComments source) = .ok ts ∧ t ∈ ts
  | evaluate source, t | runSnippet source, t => ∃ ts, tokens source = .ok ts ∧ t ∈ ts
  | run, _ => False

end Job

namespace Session

/-- The evaluation of an expression, with at most as many calls active as sessions allow, after a
notice of its tree. -/
def Begins [Machine] (e : Expr) (env : Environment) (c : Evaluation) : Prop :=
  ∃ lines, e.display 0 = .ok lines ∧ c = ⟨Machine.calls, env.noted (.tree lines), e⟩

end Session

open Session

/-- A job starts an evaluation. -/
inductive Job.Starts [Machine] : Job → Environment → Evaluation → Prop
  | execute {source : String} {ts : List Token} {before after : List (Token × Expr)} {start : Token}
      {e : Expr} {results : List Value} {env env' : Environment} {c : Evaluation} :
      tokens (blankComments source) = .ok ts → (readForms ts).1 = before ++ (start, e) :: after →
      takeForms (executeForm (blankComments source)) before (env.noted (.tokens ts)) =
        .ok results env' →
      (∀ f params body, e ≠ .define f params body) → Session.Begins e env' c →
      Starts (.execute source) env c
  | evaluate {source : String} {e : Expr} {env : Environment} {c : Evaluation} :
      parse source = .ok e → Session.Begins e env c → Starts (.evaluate source) env c
  | run {env env' : Environment} {c : Evaluation} :
      checkEntry env = .ok () env' → Starts (.evaluate ("(" ++ entry ++ ")")) env' c →
      Starts .run env c
  | runProgram {source : String} {env env' : Environment} {c : Evaluation} :
      Session.load source env = .ok () env' → Starts .run env' c → Starts (.runProgram source) env c
  | runSnippet {source : String} {e : Expr} {env : Environment} :
      parse source = .ok e → Starts (.runSnippet source) env ⟨Machine.calls, env, e⟩

/-! ## Texts that are refused -/

/-- The kind of error that a failure is, if it is a fault. -/
def Failure.kind? : Failure → Option ErrorKind
  | .error fault _ => some fault.kind
  | _ => none

/-- A text is refused: it does not cut into tokens, or the tokens are not what they should be. -/
def Failure.Syntactic (failure : Failure) : Prop :=
  failure.kind? = some .lexical ∨ failure.kind? = some .grammar

theorem Failure.Syntactic.exists_fault {failure : Failure} (h : failure.Syntactic) :
    ∃ fault location, failure = .error fault location ∧
      (fault.kind = .lexical ∨ fault.kind = .grammar) := by
  cases failure with
  | error fault location => exact ⟨fault, location, rfl, h.imp Option.some.inj Option.some.inj⟩
  | _ => exact h.elim nofun nofun

/-- A failure is about a number of too many digits, one of some tokens. -/
inductive Failure.Exceeds (among : Token → Prop) : Failure → Prop
  | intro {t : Token} : among t → t.kind = .number → ¬ t.Convertible →
      Exceeds among (.oversized t.text.length)

theorem Failure.Exceeds.mono {among among' : Token → Prop} {failure : Failure}
    (h : failure.Exceeds among) (himp : ∀ t, among t → among' t) : failure.Exceeds among' := by
  cases h with
  | intro ht hk hconv => exact .intro (himp _ ht) hk hconv

/-- What keeps a reader from reading is a fault of the grammar, or a number of too many digits. -/
theorem Parser.Result.Takes.kind_or_exceeds {α : Type} {k : Nat} {us left : List Token}
    {e : ReadError} (h : Takes k us (.error e left : Result α)) (source? : Option String) :
    (e.failure source?).kind? = some .grammar ∨ (e.failure source?).Exceeds (· ∈ us) := by
  cases h with
  | error _ => exact .inl rfl
  | oversized hk hconv hleft => exact .inr (.intro (hleft.subset List.mem_cons_self) hk hconv)

theorem kind_or_exceeds_of_readForms {us : List Token} {e : ReadError}
    (h : (readForms us).2 = some e) (source? : Option String) :
    (e.failure source?).kind? = some .grammar ∨ (e.failure source?).Exceeds (· ∈ us) := by
  fun_induction readForms us with
  | case1 => cases h
  | case2 start later fault left hread =>
    cases h
    exact (hread ▸ Parser.takes_expr .any (start :: later)).kind_or_exceeds source?
  | case3 start later _ rest hread hle forms fault hrec ih =>
    rw [hrec] at ih
    have htakes := Parser.takes_expr .any (start :: later)
    rw [hread] at htakes
    cases htakes with
    | ok hleft _ => exact (ih h).imp_right fun hexceeds => hexceeds.mono fun t ht => hleft.subset ht
  | case4 => cases h

theorem kind_of_tokens {source : String} {failure : Failure} (h : tokens source = .error failure) :
    failure.kind? = some .lexical := by
  obtain ⟨bad, -, rfl⟩ := tokens_eq_error_iff.1 h
  rfl

/-- A text that is no expression is refused, or a number in it has too many digits. -/
theorem syntactic_of_parse {source : String} {failure : Failure}
    (h : parse source = .error failure) :
    failure.Syntactic ∨
      failure.Exceeds fun t => ∃ ts, tokens source = .ok ts ∧ t ∈ ts := by
  cases htokenize : tokenize source with
  | error bad =>
    obtain rfl := Except.error.inj ((parse_of_refused htokenize).symm.trans h)
    exact .inl (.inl rfl)
  | ok ts =>
    rw [parse_of_tokenize htokenize] at h
    have htakes := Parser.takes_program ts
    cases hread : Parser.program ts with
    | ok e left =>
      rw [hread] at h
      cases h
    | error e left =>
      rw [hread] at h htakes
      obtain rfl := Except.error.inj h
      refine (htakes.kind_or_exceeds (some source)).imp .inr fun hexceeds => ?_
      exact hexceeds.mono fun t ht => ⟨ts, tokens_eq_ok_iff.2 htokenize, ht⟩

namespace Session

variable {env : Environment} {failure : Failure}

theorem kind_of_define {e : Expr} (h : (Environment.define e).outcome env = .error failure) :
    failure.kind? = some .grammar := by
  cases e with
  | define f params body =>
    by_cases hf : env.functions.lookup f = none
    · rw [outcome_of_ok (Environment.define_of_none params body hf)] at h
      cases h
    · rw [outcome_of_error (Environment.define_of_defined params body hf)] at h
      obtain rfl := Except.error.inj h
      rfl
  | _ =>
    obtain rfl := Except.error.inj h
    rfl

theorem kind_of_defineAt {source : String} {start : Token} {e : Expr}
    (h : (defineAt source start e).outcome env = .error failure) :
    failure.kind? = some .grammar := by
  rw [Action.outcome, defineAt] at h
  cases hrun : Environment.define e env with
  | ok _ env' =>
    rw [hrun] at h
    cases h
  | error failure' env' =>
    have hkind := kind_of_define (outcome_of_error hrun)
    rw [hrun] at h
    cases failure' with
    | error fault location =>
      obtain rfl := Except.error.inj h
      exact hkind
    | _ => cases hkind

theorem kind_of_loadForm {source : String} {start : Token} {e : Expr}
    (h : (loadForm source start e).outcome env = .error failure) :
    failure.kind? = some .grammar := by
  cases e with
  | define f params body =>
    rw [loadForm, outcome_bind_eq_error_iff] at h
    rcases h with h | ⟨_, env', -, h⟩
    · exact kind_of_defineAt h
    · cases h
  | _ =>
    obtain rfl := Except.error.inj h
    rfl

theorem checkEntry_of_none (h : env.functions.lookup entry = none) :
    checkEntry env = .error (Fault.noEntry entry).failure env := by
  rw [checkEntry, run_get_bind, h]
  rfl

theorem checkEntry_of_ne_nil {definition : Definition}
    (h : env.functions.lookup entry = some definition) (hne : definition.params ≠ []) :
    checkEntry env =
      .error (Fault.entryTakesArguments entry definition.params.length).failure env := by
  rw [checkEntry, run_get_bind, h]
  exact congrFun (if_pos hne) env

theorem checkEntry_of_eq_nil {definition : Definition}
    (h : env.functions.lookup entry = some definition) (heq : definition.params = []) :
    checkEntry env = .ok () env := by
  rw [checkEntry, run_get_bind, h]
  exact congrFun (if_neg (not_not.2 heq)) env

theorem kind_of_checkEntry (h : checkEntry.outcome env = .error failure) :
    failure.kind? = some .grammar := by
  cases hentry : env.functions.lookup entry with
  | none =>
    rw [outcome_of_error (checkEntry_of_none hentry)] at h
    obtain rfl := Except.error.inj h
    rfl
  | some definition =>
    by_cases hparams : definition.params = []
    · rw [outcome_of_ok (checkEntry_of_eq_nil hentry hparams)] at h
      cases h
    · rw [outcome_of_error (checkEntry_of_ne_nil hentry hparams)] at h
      obtain rfl := Except.error.inj h
      rfl

/-! ## Texts of forms -/

variable {α : Type}

/-- Forms are taken in order up to one that fails. -/
theorem takeForms_fails {act : Token → Expr → Action (List α)} {forms : List (Token × Expr)}
    (h : (takeForms act forms).outcome env = .error failure) :
    ∃ before start e after results env', forms = before ++ (start, e) :: after ∧
      takeForms act before env = .ok results env' ∧
      (act start e).outcome env' = .error failure := by
  induction forms generalizing env with
  | nil => cases h
  | cons form forms ih =>
    obtain ⟨start, e⟩ := form
    rw [takeForms, outcome_bind_eq_error_iff] at h
    rcases h with h | ⟨results, env', hresults, h⟩
    · exact ⟨[], start, e, forms, [], env, rfl, rfl, h⟩
    · rw [outcome_bind_eq_error_iff] at h
      rcases h with h | ⟨_, env'', -, h⟩
      · obtain ⟨before, start', e', after, later, env'', rfl, hlater, hfails⟩ := ih h
        refine ⟨(start, e) :: before, start', e', after, results ++ later, env'', rfl, ?_, hfails⟩
        rw [takeForms]
        exact (run_bind_of_ok _ hresults).trans (run_bind_of_ok _ hlater)
      · cases h

theorem kind_of_takeForms_loadForm {source : String} {forms : List (Token × Expr)}
    (h : (takeForms (loadForm source) forms).outcome env = .error failure) :
    failure.kind? = some .grammar := by
  obtain ⟨_, _, _, _, _, _, -, -, hform⟩ := takeForms_fails h
  exact kind_of_loadForm hform

theorem takeText_run {act : String → Token → Expr → Action (List α)} {source : String}
    {ts : List Token} (h : tokens (blankComments source) = .ok ts) (env : Environment) :
    takeText source act env = (do
      let results ← takeForms (act (blankComments source)) (readForms ts).1
      match (readForms ts).2 with
      | none => return results
      | some e => throw (e.failure (some (blankComments source))) : Action (List α))
        (env.noted (.tokens ts)) := by
  rw [takeText, h]
  rfl

/-- A text that does not cut into tokens is refused at once. -/
theorem takeText_of_refused {act : String → Token → Expr → Action (List α)} {source : String}
    {failure : Failure} (h : tokens (blankComments source) = .error failure) (env : Environment) :
    takeText source act env = .error failure env := by
  rw [takeText, h]
  rfl

/-- A text of forms fails if it does not cut into tokens, and otherwise where one of its forms fails
or, when all of them have been taken, where what is left reads as no form. -/
theorem takeText_fails_at {act : String → Token → Expr → Action (List α)} {source : String}
    (h : (takeText source act).outcome env = .error failure) :
    tokens (blankComments source) = .error failure ∨
      ∃ ts, tokens (blankComments source) = .ok ts ∧
        ((∃ e, (readForms ts).2 = some e ∧ failure = e.failure (some (blankComments source))) ∨
          ∃ before start e after results env', (readForms ts).1 = before ++ (start, e) :: after ∧
            takeForms (act (blankComments source)) before (env.noted (.tokens ts)) =
              .ok results env' ∧
            (act (blankComments source) start e).outcome env' = .error failure) := by
  cases htokens : tokens (blankComments source) with
  | error failure' =>
    rw [takeText, htokens] at h
    obtain rfl := Except.error.inj h
    exact .inl rfl
  | ok ts =>
    refine .inr ⟨ts, rfl, ?_⟩
    rw [Action.outcome, takeText_run htokens] at h
    rcases outcome_bind_eq_error_iff.1 h with h | ⟨results, env', -, h⟩
    · exact .inr (takeForms_fails h)
    · cases hfault : (readForms ts).2 with
      | none =>
        rw [hfault] at h
        cases h
      | some e =>
        rw [hfault] at h
        exact .inl ⟨e, rfl, (Except.error.inj h).symm⟩

/-- A text of forms is refused, or a number in it has too many digits, or one of its forms
fails. -/
theorem takeText_fails {act : String → Token → Expr → Action (List α)} {source : String}
    (h : (takeText source act).outcome env = .error failure) :
    tokens (blankComments source) = .error failure ∨
      (failure.kind? = some .grammar ∨
        failure.Exceeds fun t => ∃ ts, tokens (blankComments source) = .ok ts ∧ t ∈ ts) ∨
      ∃ ts before start e after results env',
        tokens (blankComments source) = .ok ts ∧ (readForms ts).1 = before ++ (start, e) :: after ∧
          takeForms (act (blankComments source)) before (env.noted (.tokens ts)) =
            .ok results env' ∧
          (act (blankComments source) start e).outcome env' = .error failure := by
  rcases takeText_fails_at h with htokens | ⟨ts, htokens, ⟨e, he, rfl⟩ | ⟨before, start, e, after,
    results, env', hforms, hbefore, hfails⟩⟩
  · exact .inl htokens
  · refine .inr (.inl ((kind_or_exceeds_of_readForms he _).imp_right fun hexceeds => ?_))
    exact hexceeds.mono fun t ht => ⟨ts, htokens, ht⟩
  · exact .inr (.inr ⟨ts, before, start, e, after, results, env', htokens, hforms, hbefore, hfails⟩)

/-! ## Failures of jobs -/

/-- A text that is loaded cuts into no tokens, or it fails for its grammar or for a number of too
many digits. -/
theorem tokens_or_kind_of_load {source : String} (h : (load source).outcome env = .error failure) :
    tokens (blankComments source) = .error failure ∨ failure.kind? = some .grammar ∨
      failure.Exceeds (Job.load source).Holds := by
  rw [load_eq, discard_eq, outcome_bind_eq_error_iff] at h
  rcases h with h | ⟨_, env', -, h⟩
  · refine (takeText_fails h).imp_right ?_
    rintro (hgrammar | ⟨_, _, _, _, _, _, _, -, -, -, hform⟩)
    · exact hgrammar
    · exact .inl (kind_of_loadForm hform)
  · cases h

theorem syntactic_of_load {source : String} (h : (load source).outcome env = .error failure) :
    failure.Syntactic ∨ failure.Exceeds (Job.load source).Holds := by
  rcases tokens_or_kind_of_load h with htokens | hkind | hexceeds
  · exact .inl (.inl (kind_of_tokens htokens))
  · exact .inl (.inr hkind)
  · exact .inr hexceeds

theorem parse_entry : parse ("(" ++ entry ++ ")") = .ok (.call entry []) := by decide +kernel

variable [Machine]

/-- An expression that is well-formed fails as its evaluation does. -/
theorem begins_of_evaluateExpr {e : Expr} (he : e.WellFormed .any)
    (h : (evaluateExpr e).outcome env = .error failure) :
    ∃ c, Begins e env c ∧ c.outcome = .error failure := by
  obtain ⟨lines, hlines⟩ := he.exists_display 0
  refine ⟨_, ⟨lines, hlines, rfl⟩, ?_⟩
  rw [evaluateExpr, hlines] at h
  exact h

theorem starts_of_run (h : run.outcome env = .error failure) :
    failure.Syntactic ∨ ∃ c, Job.run.Starts env c ∧ c.outcome = .error failure := by
  rcases outcome_bind_eq_error_iff.1 h with h | ⟨_, env', hcheck, h⟩
  · exact .inl (.inr (kind_of_checkEntry h))
  · rw [evaluate, parse_entry] at h
    obtain ⟨c, hc, hfails⟩ := begins_of_evaluateExpr (wellFormed_of_parse parse_entry) h
    exact .inr ⟨c, .run hcheck (.evaluate parse_entry hc), hfails⟩

end Session

/-- A job that fails has a text that is refused, or a number in its text has too many digits, or it
starts an evaluation that fails. -/
theorem Job.syntactic_or_starts [Machine] {job : Job} {env : Environment} {failure : Failure}
    (h : job.act.outcome env = .error failure) :
    (failure.Syntactic ∨ failure.Exceeds job.Holds) ∨
      ∃ c, job.Starts env c ∧ c.outcome = .error failure := by
  cases job with
  | load source => exact .inl (syntactic_of_load h)
  | execute source =>
    have h : (takeText source executeForm).outcome env = .error failure := h
    rcases takeText_fails h with hlexical | hrefused | ⟨ts, before, start, e, after, results, env',
      htokens, hforms, hbefore, hform⟩
    · exact .inl (.inl (.inl (kind_of_tokens hlexical)))
    · exact .inl (hrefused.imp_left .inr)
    have he : e.WellFormed .any :=
      wellFormed_of_mem_readForms (isLexical_of_mem_tokens htokens) (start, e)
        (by rw [hforms]; exact List.mem_append_cons_self)
    by_cases hdefine : ∃ f params body, e = .define f params body
    · obtain ⟨f, params, body, rfl⟩ := hdefine
      rw [executeForm, outcome_bind_eq_error_iff] at hform
      rcases hform with hform | ⟨_, _, -, hform⟩
      · exact .inl (.inl (.inr (kind_of_defineAt hform)))
      · cases hform
    · simp only [not_exists] at hdefine
      rw [executeForm_of_ne hdefine, outcome_bind_eq_error_iff] at hform
      rcases hform with hform | ⟨_, _, -, hform⟩
      · obtain ⟨c, hc, hfails⟩ := begins_of_evaluateExpr he hform
        exact .inr ⟨c, .execute htokens hforms hbefore hdefine hc, hfails⟩
      · cases hform
  | evaluate source =>
    have h : (Session.evaluate source).outcome env = .error failure := h
    rw [Session.evaluate] at h
    cases hparse : parse source with
    | error failure' =>
      rw [hparse] at h
      obtain rfl := Except.error.inj h
      exact .inl (syntactic_of_parse hparse)
    | ok e =>
      rw [hparse] at h
      obtain ⟨c, hc, hfails⟩ := begins_of_evaluateExpr (wellFormed_of_parse hparse) h
      exact .inr ⟨c, .evaluate hparse hc, hfails⟩
  | run => exact (starts_of_run h).imp_left .inl
  | runProgram source =>
    rcases outcome_bind_eq_error_iff.1 h with h | ⟨_, env', hload, h⟩
    · exact .inl (syntactic_of_load h)
    · refine (starts_of_run h).imp .inl ?_
      rintro ⟨c, hc, hfails⟩
      exact ⟨c, .runProgram hload hc, hfails⟩
  | runSnippet source =>
    have h : (DynLisp.runSnippet source).outcome env = .error failure := h
    rw [DynLisp.runSnippet] at h
    cases hparse : parse source with
    | error failure' =>
      rw [hparse] at h
      obtain rfl := Except.error.inj h
      exact .inl (syntactic_of_parse hparse)
    | ok e =>
      rw [hparse] at h
      exact .inr ⟨_, .runSnippet hparse, h⟩

end DynLisp
