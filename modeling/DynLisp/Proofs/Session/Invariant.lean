import DynLisp.Proofs.Environment.Extension
import DynLisp.Proofs.Evaluation.Restored
import DynLisp.Proofs.Parser.Acceptance
import DynLisp.Proofs.WellFormed
import DynLisp.Shell

/-!
# What sessions keep up

An invariant of environments is kept up by a whole text if it does not depend on notices and if
every form keeps it up that can stand in a text.  The forms of a text are well-formed, since each
of them is what some of its tokens derive (`wellFormed_of_mem_readForms`).  What becomes of one form
of a text that is loaded or executed is `loadForm` and `executeForm`.

An invariant that restored environments keep, that a well-formed definition of a new function keeps
and that the evaluation of a well-formed expression keeps (`Session.Invariant`), is kept up by
everything that sessions and shells are given, in whatever that ends.  Environments that come of
nothing but text are `TextFed`, and they have the invariants that the empty environment has
(`Session.Invariant.textFed`).
-/

namespace DynLisp

open DynLisp.Action

/-- The forms that are read from tokens are well-formed. -/
theorem wellFormed_of_mem_readForms {us : List Token} (hlex : ∀ t ∈ us, t.IsLexical) :
    ∀ form ∈ (readForms us).1, form.2.WellFormed .any := by
  have hform : ∀ {us : List Token} {e : Expr} {rest : List Token}, (∀ t ∈ us, t.IsLexical) →
      Parser.expr .any us = .ok e rest → e.WellFormed .any ∧ ∀ t ∈ rest, t.IsLexical := by
    intro us e rest hlex hread
    obtain ⟨ts, rfl, hd, -⟩ := (Parser.expr_eq_ok_iff hlex).1 hread
    rw [List.forall_mem_append] at hlex
    exact ⟨hd.wellFormed hlex.1, hlex.2⟩
  fun_induction readForms us with
  | case1 => exact nofun
  | case2 => exact nofun
  | case3 start later e rest hread hle forms fault hrec ih =>
    obtain ⟨he, hrest⟩ := hform hlex hread
    rw [hrec] at ih
    exact List.forall_mem_cons.2 ⟨he, ih hrest⟩
  | case4 start later e rest hread hle =>
    exact List.forall_mem_singleton.2 (hform hlex hread).1

theorem wellFormed_of_parse {source : String} {e : Expr} (h : parse source = .ok e) :
    e.WellFormed .any := by
  obtain ⟨ts, htokens, hd, -⟩ := parse_eq_ok_iff.1 h
  exact hd.wellFormed (isLexical_of_mem_tokenize htokens)

theorem tokens_eq_ok_iff {source : String} {ts : List Token} :
    tokens source = .ok ts ↔ tokenize source = .ok ts := by
  rw [tokens]
  cases tokenize source with
  | ok us => exact ⟨fun h => congrArg _ (Except.ok.inj h), fun h => congrArg _ (Except.ok.inj h)⟩
  | error bad =>
    constructor
    · rintro ⟨⟩
    · rintro ⟨⟩

theorem tokens_eq_error_iff {source : String} {failure : Failure} :
    tokens source = .error failure ↔
      ∃ bad, tokenize source = .error bad ∧ failure = bad.failure source := by
  rw [tokens]
  cases tokenize source with
  | ok ts =>
    constructor
    · rintro ⟨⟩
    · rintro ⟨_, ⟨⟩, -⟩
  | error bad =>
    constructor
    · rintro ⟨⟩
      exact ⟨bad, rfl, rfl⟩
    · rintro ⟨_, ⟨⟩, rfl⟩
      rfl

theorem isLexical_of_mem_tokens {source : String} {ts : List Token} (h : tokens source = .ok ts) :
    ∀ t ∈ ts, t.IsLexical :=
  isLexical_of_mem_tokenize (tokens_eq_ok_iff.1 h)

namespace Session

variable {α : Type} {I : Environment → Prop} {Q : α → Prop}

theorem maintains_takeForms {act : Token → Expr → Action (List α)}
    (hact : ∀ t e, e.WellFormed .any → Maintains I (∀ a ∈ ·, Q a) (act t e))
    {forms : List (Token × Expr)} (hforms : ∀ form ∈ forms, form.2.WellFormed .any) :
    Maintains I (∀ a ∈ ·, Q a) (takeForms act forms) := by
  induction forms with
  | nil => exact maintains_pure nofun
  | cons form forms ih =>
    obtain ⟨t, e⟩ := form
    obtain ⟨he, hforms⟩ := List.forall_mem_cons.1 hforms
    refine (hact t e he).bind fun results hresults => ?_
    refine (ih hforms).bind fun later hlater => maintains_pure ?_
    exact List.forall_mem_append.2 ⟨hresults, hlater⟩

/-- What every well-formed form keeps up, a text does. -/
theorem maintains_takeText
    (hnote : ∀ ts, Maintains I (fun _ => True) (Environment.note (.tokens ts)))
    {act : String → Token → Expr → Action (List α)}
    (hact : ∀ s t e, e.WellFormed .any → Maintains I (∀ a ∈ ·, Q a) (act s t e))
    (source : String) : Maintains I (∀ a ∈ ·, Q a) (takeText source act) := by
  rw [takeText]
  cases htokens : tokens (blankComments source) with
  | error failure => exact maintains_throw failure
  | ok ts =>
    have hforms := wellFormed_of_mem_readForms (isLexical_of_mem_tokens htokens)
    refine (hnote _).bind fun _ _ => ?_
    refine (maintains_takeForms (fun t e => hact _ t e) hforms).bind fun results hresults => ?_
    cases (readForms ts).2 with
    | none => exact maintains_pure hresults
    | some e => exact maintains_throw _

/-- Where a definition stands does not matter to an invariant. -/
theorem maintains_defineAt {e : Expr} (h : Maintains I (fun _ => True) (Environment.define e))
    (source : String) (start : Token) :
    Maintains I (fun _ => True) (defineAt source start e) := by
  intro env henv
  have hafter := (h env henv).1
  refine ⟨?_, fun _ _ => trivial⟩
  unfold Action.after at hafter ⊢
  rw [defineAt]
  cases hrun : Environment.define e env with
  | ok _ env' =>
    rw [hrun] at hafter
    exact hafter
  | error failure env' =>
    rw [hrun] at hafter
    cases failure <;> exact hafter

/-! ## Forms -/

/-- What becomes of a form of a text that is loaded. -/
def loadForm (source : String) (start : Token) (e : Expr) : Action (List Unit) := do
  match e with
  | .define .. => defineAt source start e
  | _ => throw (.error (.notDefinition e) ((Place.token start).locate (some source)))
  return []

theorem load_eq (source : String) : load source = discard (takeText source loadForm) := rfl

theorem maintains_checkEntry : Maintains I (fun _ => True) checkEntry := by
  refine maintains_get_bind fun env _ => ?_
  cases env.functions.lookup entry with
  | none => exact maintains_throw _
  | some definition =>
    dsimp only
    split
    · exact maintains_throw _
    · exact maintains_pure trivial

variable [Machine]

/-- What becomes of a form of a text that is executed. -/
def executeForm (source : String) (start : Token) (e : Expr) : Action (List Value) := do
  match e with
  | .define .. =>
    defineAt source start e
    return []
  | _ => return [← evaluateExpr e]

theorem executeForm_of_ne {source : String} {start : Token} {e : Expr}
    (h : ∀ f params body, e ≠ .define f params body) :
    executeForm source start e = do return [← evaluateExpr e] := by
  rw [executeForm]
  exact h

theorem execute_eq (source : String) : execute source = takeText source executeForm := rfl

/-! ## Invariants of sessions -/

/-- What environments keep that are restored, to which well-formed definitions of new functions are
added, or in which well-formed expressions are evaluated, and what the values of these satisfy. -/
structure Invariant (I : Environment → Prop) (V : Value → Prop) : Prop where
  restored {env env' : Environment} : Environment.Restored env env' → I env → I env'
  defined {env : Environment} {f : String} {params : List String} {body : Expr} :
    (Expr.define f params body).WellFormed .any → env.functions.lookup f = none → I env →
    I (env.withFunction f ⟨params, body⟩)
  evaluated {limit : Nat} {e : Expr} : e.WellFormed .any →
    Maintains I V (DynLisp.evaluate limit e)

namespace Invariant

variable {V : Value → Prop} (hI : Invariant I V)
include hI

theorem note (notice : Notice) : Maintains I (fun _ => True) (Environment.note notice) :=
  fun env henv => ⟨hI.restored (Environment.restored_notices env _) henv, fun _ _ => trivial⟩

theorem define {e : Expr} (he : e.WellFormed .any) :
    Maintains I (fun _ => True) (Environment.define e) := by
  cases e with
  | define f params body =>
    intro env henv
    refine ⟨?_, fun _ _ => trivial⟩
    unfold Action.after
    cases hf : env.functions.lookup f with
    | some definition =>
      rw [Environment.define_of_defined params body (by simp [hf])]
      exact henv
    | none =>
      rw [Environment.define_of_none params body hf]
      exact hI.restored (Environment.restored_notices _ _) (hI.defined he hf henv)
  | _ => exact maintains_throw _

theorem evaluateExpr {e : Expr} (he : e.WellFormed .any) :
    Maintains I V (evaluateExpr e) := by
  rw [Session.evaluateExpr]
  cases e.display 0 with
  | ok lines => exact (hI.note _).bind fun _ _ => hI.evaluated he
  | error part => exact (maintains_throw _).bind fun (_ : PUnit) (_ : True) => hI.evaluated he

theorem loadForm (source : String) (start : Token) {e : Expr} (he : e.WellFormed .any) :
    Maintains I (fun _ => True) (loadForm source start e) := by
  cases e with
  | define f params body =>
    exact (maintains_defineAt (hI.define he) source start).bind fun _ _ => maintains_pure trivial
  | _ => exact (maintains_throw _).bind fun (_ : PUnit) (_ : True) => maintains_pure trivial

theorem executeForm (source : String) (start : Token) {e : Expr} (he : e.WellFormed .any) :
    Maintains I (fun vs => ∀ v ∈ vs, V v) (executeForm source start e) := by
  cases e with
  | define f params body =>
    exact (maintains_defineAt (hI.define he) source start).bind fun _ _ =>
      maintains_pure (List.forall_mem_nil _)
  | _ =>
    exact (hI.evaluateExpr he).bind fun v hv =>
      maintains_pure (List.forall_mem_singleton.2 hv)

theorem load (source : String) : Maintains I (fun _ => True) (load source) := by
  rw [load_eq, discard_eq]
  refine Maintains.bind (Q := fun results => ∀ a ∈ results, True)
    (maintains_takeText (fun ts => hI.note _) (fun s t e he => ?_) source)
    fun _ _ => maintains_pure trivial
  exact (hI.loadForm s t he).mono fun _ _ _ _ => trivial

theorem execute (source : String) : Maintains I (fun vs => ∀ v ∈ vs, V v) (execute source) := by
  rw [execute_eq]
  exact maintains_takeText (fun ts => hI.note _) (fun s t e he => hI.executeForm s t he) source

theorem evaluate (source : String) : Maintains I V (evaluate source) := by
  rw [Session.evaluate]
  cases hparse : parse source with
  | ok e => exact hI.evaluateExpr (wellFormed_of_parse hparse)
  | error failure => exact maintains_throw failure

theorem run : Maintains I V run :=
  maintains_checkEntry.bind fun _ _ => hI.evaluate _

theorem loadBytes (path : String) (bytes : Option (List UInt8)) :
    Maintains I (fun _ => True) (match bytes with
      | none => throw (Fault.unreadableFile path).failure
      | some bytes =>
        match Utf8.decode bytes with
        | .error fault => throw (.undecodable fault)
        | .ok source => Session.load (Newline.unify source)) := by
  cases bytes with
  | none => exact maintains_throw _
  | some bytes =>
    dsimp only
    cases Utf8.decode bytes with
    | error fault => exact maintains_throw _
    | ok source => exact hI.load _

theorem loadFile (path : String) (bytes : Option (List UInt8)) :
    Maintains I (fun _ => True) (loadFile path bytes) := by
  unfold Session.loadFile
  dsimp only
  split
  · exact (maintains_throw _).bind fun (_ : PUnit) (_ : True) => hI.loadBytes path bytes
  · exact hI.loadBytes path bytes

theorem runProgram (source : String) : Maintains I V (runProgram source) :=
  (hI.load source).bind fun _ _ => hI.run

theorem runSnippet (source : String) : Maintains I V (runSnippet source) := by
  rw [DynLisp.runSnippet]
  cases hparse : parse source with
  | ok e => exact hI.evaluated (wellFormed_of_parse hparse)
  | error failure => exact maintains_throw failure

/-- A line leaves the environment of the shell as it is, or as the execution of some text does. -/
theorem feed {s : Shell} (h : I s.session.environment) (line : String) :
    I (s.feed line).1.session.environment := by
  have hexecute : ∀ (s : Shell) (text : String), I s.session.environment →
      I (s.executeText text).1.session.environment := by
    intro s text h
    have hafter := (hI.execute text { s.session.environment with notices := [] }
      (hI.restored (Environment.restored_notices _ _) h)).1
    unfold Action.after at hafter
    unfold Shell.executeText
    cases hrun : Session.execute text { s.session.environment with notices := [] } with
    | ok values env =>
      rw [hrun] at hafter
      exact hafter
    | error failure env =>
      rw [hrun] at hafter
      exact hafter
  have htake : ∀ text, I (s.takeText text).1.session.environment := by
    intro text
    simp only [Shell.takeText]
    split
    · exact h
    · split
      · exact h
      · exact hexecute _ _ h
  rw [Shell.feed]
  split
  · exact htake _
  · cases Command.ofLine line with
    | forms line => exact htake line
    | _ => exact h

end Invariant

end Session

/-! ## Sessions that are given text -/

/-- A session, or a shell with whatever unfinished text, is given something: the environment before
and the one after, in whatever it ended. -/
inductive Given [Machine] : Environment → Environment → Prop
  | load {env : Environment} (source : String) : Given env ((Session.load source).after env)
  | loadFile {env : Environment} (path : String) (bytes : Option (List UInt8)) :
      Given env ((Session.loadFile path bytes).after env)
  | execute {env : Environment} (source : String) : Given env ((Session.execute source).after env)
  | evaluate {env : Environment} (source : String) :
      Given env ((Session.evaluate source).after env)
  | run {env : Environment} : Given env (Session.run.after env)
  | feed {s : Shell} (line : String) :
      Given s.session.environment (s.feed line).1.session.environment

/-- The environments of sessions that were given nothing but text, in whatever that ended. -/
inductive TextFed [Machine] : Environment → Prop
  | empty : TextFed .empty
  | load {env : Environment} (source : String) :
      TextFed env → TextFed ((Session.load source).after env)
  | loadFile {env : Environment} (path : String) (bytes : Option (List UInt8)) :
      TextFed env → TextFed ((Session.loadFile path bytes).after env)
  | execute {env : Environment} (source : String) :
      TextFed env → TextFed ((Session.execute source).after env)
  | evaluate {env : Environment} (source : String) :
      TextFed env → TextFed ((Session.evaluate source).after env)
  | run {env : Environment} : TextFed env → TextFed (Session.run.after env)
  | feed {s : Shell} (line : String) :
      TextFed s.session.environment → TextFed (s.feed line).1.session.environment

namespace Session.Invariant

variable [Machine] {I : Environment → Prop} {V : Value → Prop} (hI : Session.Invariant I V)
include hI

theorem given {env env' : Environment} (h : Given env env') (henv : I env) : I env' := by
  cases h with
  | load source => exact (hI.load source _ henv).1
  | loadFile path bytes => exact (hI.loadFile path bytes _ henv).1
  | execute source => exact (hI.execute source _ henv).1
  | evaluate source => exact (hI.evaluate source _ henv).1
  | run => exact (hI.run _ henv).1
  | feed line => exact hI.feed henv line

/-- What is kept up from the empty environment on holds in sessions that were given text. -/
theorem textFed (hempty : I .empty) {env : Environment} (h : TextFed env) : I env := by
  induction h with
  | empty => exact hempty
  | load source _ ih => exact hI.given (.load source) ih
  | loadFile path bytes _ ih => exact hI.given (.loadFile path bytes) ih
  | execute source _ ih => exact hI.given (.execute source) ih
  | evaluate source _ ih => exact hI.given (.evaluate source) ih
  | run _ ih => exact hI.given .run ih
  | feed line _ ih => exact hI.given (.feed line) ih

end Session.Invariant

end DynLisp
