import DynLisp.Proofs.Evaluation.Kinds
import DynLisp.Proofs.RoundTrip
import DynLisp.Proofs.Session.Jobs
import DynLisp.Proofs.Wording

/-!
# What jobs can end in

If all functions of a session were read from text, then so are the functions in whatever it is given
leaves, and all expressions that are evaluated on the way of any job are well-formed
(`Job.Starts.wellFormed`, `Enters.wellFormed`).  A failure comes from a form that raises it, and a
well-formed form raises only faults, or that calls are nested too deeply.  Of the faults a single
one is internal: that a definition is evaluated.  The form that raises it is then a definition
inside of an expression or of a body, where the grammar allows it and the evaluator has no value for
it.  Besides, a number of too many digits is no fault of the language, and it stands in the text of
the job.
-/

namespace DynLisp

open DynLisp.Action

/-! ## Functions that were read -/

namespace Environment

/-- Every function is a definition that some text consists of. -/
def FromText (env : Environment) : Prop :=
  ∀ f ∈ env.functions, ∃ source, parse source = .ok (.define f.1 f.2.params f.2.body)

theorem FromText.bodiesWellFormed {env : Environment} (h : env.FromText) :
    env.BodiesWellFormed := by
  intro f hf
  obtain ⟨source, hparse⟩ := h f hf
  have hwell := wellFormed_of_parse hparse
  rw [Expr.WellFormed] at hwell
  exact hwell.2.2.2.2

end Environment

open Environment (FromText)

section

variable [Machine]

/-- The text of a well-formed definition is one that consists of it. -/
theorem fromText_invariant : Session.Invariant FromText fun _ => True where
  restored hrestored h := by
    rw [FromText, hrestored.functions]
    exact h
  defined {env f params body} he _ h := by
    obtain ⟨ts, hd, hconv, htokenize⟩ := (spells_text _ he).tokenize
    have hread : ∃ source, parse source = .ok (.define f params body) :=
      ⟨_, parse_eq_ok_iff.2 ⟨ts, htokenize, hd, hconv⟩⟩
    exact List.forall_mem_append.2 ⟨h, List.forall_mem_singleton.2 hread⟩
  evaluated {limit e} _ env h := by
    rw [FromText, (restores_evaluate limit e).functions env]
    exact ⟨h, fun _ _ => trivial⟩

theorem TextFed.fromText {env : Environment} (h : TextFed env) : env.FromText :=
  fromText_invariant.textFed nofun h

theorem Job.fromText_after (job : Job) {env : Environment}
    (h : env.FromText) : (job.act.after env).FromText := by
  cases job with
  | load source => exact (fromText_invariant.load source env h).1
  | execute source => exact (fromText_invariant.execute source env h).1
  | evaluate source => exact (fromText_invariant.evaluate source env h).1
  | run => exact (fromText_invariant.run env h).1
  | runProgram source => exact (fromText_invariant.runProgram source env h).1
  | runSnippet source => exact (fromText_invariant.runSnippet source env h).1

/-! ## Jobs -/

theorem Session.Begins.wellFormed {e : Expr} {env : Environment} {c : Evaluation}
    (h : Begins e env c) (he : e.WellFormed .any) (henv : env.FromText) : c.WellFormed := by
  obtain ⟨lines, -, rfl⟩ := h
  have hbodies : (env.noted (.tree lines)).BodiesWellFormed := henv.bodiesWellFormed
  exact ⟨hbodies, _, he⟩

/-- Jobs start well-formed evaluations. -/
theorem Job.Starts.wellFormed {job : Job} {env : Environment} {c : Evaluation}
    (h : job.Starts env c) (henv : env.FromText) : c.WellFormed := by
  induction h with
  | @execute source ts before after start e results env env' c htokens hforms hbefore _ hc =>
    have hwell := wellFormed_of_mem_readForms (isLexical_of_mem_tokens htokens)
    rw [hforms] at hwell
    obtain ⟨hfirst, hrest⟩ := List.forall_mem_append.1 hwell
    have htaken := Session.maintains_takeForms
      (fun t e he => fromText_invariant.executeForm (blankComments source) t he) hfirst
    have hnoted : (env.noted (.tokens ts)).FromText := henv
    exact hc.wellFormed (hrest (start, e) List.mem_cons_self) (htaken.of_ok hnoted hbefore).1
  | evaluate hparse hc => exact hc.wellFormed (wellFormed_of_parse hparse) henv
  | run hcheck _ ih =>
    exact ih (Session.maintains_checkEntry.of_ok henv hcheck).1
  | runProgram hload _ ih => exact ih ((fromText_invariant.load _).of_ok henv hload).1
  | runSnippet hparse => exact ⟨henv.bodiesWellFormed, _, wellFormed_of_parse hparse⟩

/-! ## Failures -/

/-- A failure of a job with functions that were read is that calls are nested too deeply, that a
number in its text has too many digits, or a fault.  If the fault is internal, then a definition was
evaluated on the way of the job. -/
theorem Job.closed {job : Job} {env : Environment} {failure : Failure}
    (henv : env.FromText) (h : job.act.outcome env = .error failure) :
    failure = .depthExceeded ∨ failure.Exceeds job.Holds ∨
      ∃ fault location, failure = .error fault location ∧
        (fault.kind = .internal → ∃ f params body c c', fault = .definitionEvaluated f ∧
          job.Starts env c ∧ Relation.ReflTransGen Enters c c' ∧
          c'.expr = .define f params body) := by
  rcases job.syntactic_or_starts h with (hsyntactic | hexceeds) | ⟨c, hstarts, hfails⟩
  · obtain ⟨fault, location, rfl, hkind⟩ := hsyntactic.exists_fault
    refine .inr (.inr ⟨fault, location, rfl, fun hinternal => ?_⟩)
    rw [hinternal] at hkind
    exact hkind.elim nofun nofun
  · exact .inr (.inl hexceeds)
  · obtain ⟨c', hway, hraises, -⟩ := exists_origin hfails
    refine hraises.kind.imp_right fun hfault => .inr ?_
    obtain ⟨fault, rfl, -⟩ := hfault
    refine ⟨fault, _, rfl, fun hinternal => ?_⟩
    rcases hraises.internal hinternal with ⟨f, params, body, he, hfault⟩ | ⟨condition, result, he⟩
    · exact ⟨f, params, body, c, c', hfault, hstarts, hway, he⟩
    · exact absurd he (ne_case_of_reaches (hstarts.wellFormed henv) hway condition result)

end

/-- **The failures of the language are closed.**  In a session all of whose functions were read
from text, whatever is asked for with a text whose numbers have not too many digits ends in its
result, in too many nested calls, or in a fault; the snippets of the fault fill the holes of its
template, and the fault is internal only if a definition was evaluated where a value is needed.  A
number of too many digits is the only other way to fail.  A case is never evaluated outside of its
conditional.  All functions are from text afterwards too, as they are in every session that was
given nothing else. -/
theorem failures_closed [Machine] :
    (∀ (job : Job) (env : Environment), env.FromText →
      ((∃ a, job.act.outcome env = .ok a) ∨
        job.act.outcome env = .error .depthExceeded ∨
        (∃ t, job.Holds t ∧ t.kind = .number ∧ Decimal.maxDigits < t.text.length ∧
          job.act.outcome env = .error (.oversized t.text.length)) ∨
        ∃ fault location, job.act.outcome env = .error (.error fault location) ∧
          (∃ m, (Template.ofString fault.template).fill fault.message.snippets = .ok m ∧
            ∀ emphasise, m.write emphasise = fault.message.write emphasise) ∧
          (fault.kind = .internal → ∃ f params body c c', fault = .definitionEvaluated f ∧
            job.Starts env c ∧ Relation.ReflTransGen Enters c c' ∧
            c'.expr = .define f params body)) ∧
      (∀ c c', job.Starts env c → Relation.ReflTransGen Enters c c' →
        ∀ condition result, c'.expr ≠ .case condition result) ∧
      (job.act.after env).FromText) ∧
    ∀ env, TextFed env → env.FromText := by
  refine ⟨fun job env henv => ⟨?_, fun c c' hstarts hway => ?_, job.fromText_after henv⟩,
    fun env henv => henv.fromText⟩
  · cases hout : job.act.outcome env with
    | ok a => exact .inl ⟨a, rfl⟩
    | error failure =>
      rcases Job.closed henv hout with rfl | hexceeds | ⟨fault, location, rfl, hinternal⟩
      · exact .inr (.inl rfl)
      · cases hexceeds with
        | intro ht hk hconv =>
          exact .inr (.inr (.inl ⟨_, ht, hk, Nat.lt_of_not_le fun hle => hconv fun _ => hle, rfl⟩))
      · exact .inr (.inr (.inr ⟨fault, location, rfl, fault.worded, hinternal⟩))
  · exact ne_case_of_reaches (hstarts.wellFormed henv) hway

/-- A function whose body is a definition: a call of it ends in an internal fault, and the
definition is what was evaluated. -/
theorem failures_closed_nested_definition :
    let _ : Machine := .ofCalls 1
    let session := (Session.load "(define (f) (define (g) 1))").after .empty
    TextFed session ∧ session.FromText ∧
      (Session.evaluate "(f)").outcome session =
        .error (Fault.definitionEvaluated "g").failure ∧
      ∃ params body c c', (Job.evaluate "(f)").Starts session c ∧
        Relation.ReflTransGen Enters c c' ∧ c'.expr = .define "g" params body := by
  intro _ session
  have hfed : TextFed session := .load _ .empty
  have hread : session.FromText := failures_closed.2 session hfed
  have hout : (Session.evaluate "(f)").outcome session =
      .error (Fault.definitionEvaluated "g").failure := by decide +kernel
  refine ⟨hfed, hread, hout, ?_⟩
  have hclosed := (failures_closed.1 (.evaluate "(f)") session hread).1
  rw [show (Job.evaluate "(f)").act.outcome session = _ from hout] at hclosed
  rcases hclosed with ⟨_, ⟨⟩⟩ | ⟨⟨⟩⟩ | ⟨_, -, -, -, ⟨⟩⟩ | ⟨fault, location, hfault, -, hinternal⟩
  obtain ⟨rfl, -⟩ := Failure.error.inj (Except.error.inj hfault)
  obtain ⟨f, params, body, c, c', hf, hstarts, hway, he⟩ := hinternal rfl
  obtain rfl := Fault.definitionEvaluated.inj hf
  exact ⟨params, body, c, c', hstarts, hway, he⟩

end DynLisp
