import DynLisp.Proofs.Environment.Stacks
import DynLisp.Proofs.Evaluation.Agreement
import DynLisp.Proofs.Evaluation.Induction

/-!
# The environment as a table of stacks

Whoever uses an environment pushes, pops, looks names up, asks for their depth, evaluates and opens
blocks, and sees the answers.  A `Script` says what is done, and a `Table` says how.  Two tables
answer alike: the environment itself (`Table.environment`) and plain stacks, one for each name
(`Table.stacked`), where a pop that fails changes nothing and an evaluation ends as the rules have
it and changes nothing either.  Only if calls get nested too deeply on a machine that is not steady
some values may stay that the plain stacks do not have.

The simulation (`Tracks`) looks at the stacks of the environment and at nothing else of its
bindings.  What it does not see, the empty stacks and the order of the names, follows from the
pushes and pops that were made on the way, `Makes`.  An evaluation makes some too, so this is said
of actions, along the ways in which they are put together.
-/

namespace DynLisp

open DynLisp.Action

variable {α β σ : Type}

/-! ## Scripts and tables -/

/-- What may be done to a table of values. -/
inductive Operation where
  | push (x : String) (v : Value)
  | pop (x : String)
  | lookup (x : String)
  | depth (x : String)
  | evaluate (e : Expr)
  deriving DecidableEq, Repr

/-- What is answered to an operation that does not fail. -/
inductive Answer where
  | done
  | value (v : Value)
  | count (n : Nat)
  deriving DecidableEq, Repr

/-- What is done one after the other.  The first failure ends it, unless it happens in an
attempt. -/
inductive Script where
  | done
  | fail (failure : Failure)
  | operation (op : Operation) (next : Script)
  | block (names : List String) (values : List Value) (body next : Script)
  | attempt (body next : Script)
  deriving DecidableEq, Repr

/-- How operations are carried out, what a block has bound once it is entered, and how a block is
carried out as a whole. -/
structure Table (σ : Type) where
  perform : Operation → EStateM Failure σ Answer
  enter : List (String × Value) → σ → σ
  block : List (String × Value) → EStateM Failure σ Unit → EStateM Failure σ Unit

/-- A computation whose failure is no failure. -/
def attempt (act : EStateM Failure σ Unit) : EStateM Failure σ Unit := fun s =>
  match act s with
  | .ok _ s => .ok () s
  | .error _ s => .ok () s

theorem attempt_of_ok {act : EStateM Failure σ Unit} {s s' : σ} (h : act s = .ok () s') :
    attempt act s = .ok () s' := by
  rw [attempt, h]

theorem attempt_of_error {act : EStateM Failure σ Unit} {s s' : σ} {failure : Failure}
    (h : act s = .error failure s') : attempt act s = .ok () s' := by
  rw [attempt, h]

theorem outcome_attempt (act : Action Unit) (env : Environment) :
    Action.outcome (attempt act) env = .ok () := by
  rw [Action.outcome, attempt]
  cases act env <;> rfl

/-- An attempt leaves what is left where the computation ends, however it ends. -/
theorem after_attempt (act : Action Unit) (env : Environment) :
    Action.after (attempt act) env = act.after env := by
  rw [Action.after, Action.after, attempt]
  cases act env <;> rfl

namespace Script

/-- A script as one computation. -/
def act (table : Table σ) : Script → EStateM Failure σ Unit
  | done => return
  | fail failure => throw failure
  | operation op next => do
    let _ ← table.perform op
    next.act table
  | block names values body next => do
    table.block (names.zip values) (body.act table)
    next.act table
  | attempt body next => do
    DynLisp.attempt (body.act table)
    next.act table

/-- The answers in a script, in their order, and the failures that end parts of it. -/
def transcript (table : Table σ) : Script → σ → List (Except Failure Answer)
  | done, _ => []
  | fail failure, _ => [.error failure]
  | operation op next, s =>
    match table.perform op s with
    | .ok answer s => .ok answer :: next.transcript table s
    | .error failure _ => [.error failure]
  | block names values body next, s =>
    body.transcript table (table.enter (names.zip values) s) ++
      match table.block (names.zip values) (body.act table) s with
      | .ok _ s => .ok .done :: next.transcript table s
      | .error failure _ => [.error failure]
  | attempt body next, s =>
    body.transcript table s ++
      match body.act table s with
      | .ok _ s => next.transcript table s
      | .error _ s => next.transcript table s

/-- The answer to a step and the answers after it, or the failure that the step ends in. -/
def followed (r : EStateM.Result Failure σ α) (answer : α → Answer)
    (rest : σ → List (Except Failure Answer)) : List (Except Failure Answer) :=
  match r with
  | .ok a s => .ok (answer a) :: rest s
  | .error failure _ => [.error failure]

theorem transcript_operation (table : Table σ) (op : Operation) (next : Script) (s : σ) :
    (operation op next).transcript table s =
      followed (table.perform op s) id (next.transcript table) := by
  rw [transcript]
  cases table.perform op s <;> rfl

theorem transcript_block (table : Table σ) (names : List String) (values : List Value)
    (body next : Script) (s : σ) :
    (block names values body next).transcript table s =
      body.transcript table (table.enter (names.zip values) s) ++
        followed (table.block (names.zip values) (body.act table) s) (fun _ => .done)
          (next.transcript table) := by
  rw [transcript]
  cases table.block (names.zip values) (body.act table) s <;> rfl

theorem transcript_attempt (table : Table Environment) (body next : Script) (env : Environment) :
    (attempt body next).transcript table env =
      body.transcript table env ++ next.transcript table (Action.after (body.act table) env) := by
  rw [transcript, Action.after]
  cases body.act table env <;> rfl

/-- The failure of a step, or of what is done after it, is among the answers. -/
theorem mem_followed {act : Action α} {next : Action Unit} {answer : α → Answer}
    {rest : Environment → List (Except Failure Answer)} {env : Environment} {failure : Failure}
    (h : Action.outcome (act >>= fun _ => next) env = .error failure)
    (hnext : ∀ env', next.outcome env' = .error failure → .error failure ∈ rest env') :
    .error failure ∈ followed (act env) answer rest := by
  rw [outcome_bind] at h
  cases hrun : act env with
  | ok a env' =>
    rw [outcome_of_ok hrun, after_of_ok hrun] at h
    exact List.mem_cons_of_mem _ (hnext env' h)
  | error failure' env' =>
    rw [outcome_of_error hrun] at h
    obtain rfl := Except.error.inj h
    exact List.mem_singleton_self _

/-- The failure that a script ends in is among its answers. -/
theorem mem_transcript_of_outcome {table : Table Environment} {script : Script}
    {env : Environment} {failure : Failure}
    (h : Action.outcome (script.act table) env = .error failure) :
    .error failure ∈ script.transcript table env := by
  induction script generalizing env with
  | done => cases h
  | fail =>
    obtain rfl := Except.error.inj h
    exact List.mem_singleton_self _
  | operation op next ih =>
    rw [transcript_operation]
    exact mem_followed h fun _ => ih
  | block names values body next _ ih =>
    rw [transcript_block]
    exact List.mem_append_right _ (mem_followed h fun _ => ih)
  | attempt body next _ ih =>
    rw [act, outcome_bind, outcome_attempt, after_attempt] at h
    rw [transcript_attempt]
    exact List.mem_append_right _ (ih h)

end Script

/-- The environment as a table. -/
def Table.environment [Machine] (limit : Nat) : Table Environment where
  perform
    | .push x v => do
      Environment.push x v
      return .done
    | .pop x => return .value (← Environment.pop x)
    | .lookup x => return .value (← Environment.lookup x)
    | .depth x => return .count ((← get).bindings.depth x)
    | .evaluate e => return .value (← DynLisp.evaluate limit e)
  enter pairs env := env.bound pairs
  block := Environment.binding (Machine.kept limit)

/-! ## Plain stacks -/

namespace Stacks

/-- What the names stand for. -/
def scope (s : Stacks) : Scope := fun x => (s x).head?

/-- The stacks with one more value for each pair. -/
def pushAll (s : Stacks) (pairs : List (String × Value)) : Stacks :=
  pairs.foldl (fun s pair => Function.update s pair.1 (pair.2 :: s pair.1)) s

/-- The value that a name stands for. -/
def lookup (x : String) : EStateM Failure Stacks Value := fun s =>
  match s.scope x with
  | some v => .ok v s
  | none => .error (Fault.unboundVariable x).failure s

/-- Takes the topmost value of a name.  Where there is none nothing changes. -/
def pop (x : String) : EStateM Failure Stacks Value := fun s =>
  match s x with
  | [] => .error .emptyStack s
  | v :: vs => .ok v (Function.update s x vs)

/-- Takes the topmost value of each name, up to the first that has none. -/
def popAll : List String → EStateM Failure Stacks Unit
  | [] => return
  | x :: xs => do
    let _ ← pop x
    popAll xs

/-- A computation, and after it another one on every way out.  If that one fails, its failure is
what remains. -/
def andFinally (body : EStateM Failure Stacks α) (finish : EStateM Failure Stacks Unit) :
    EStateM Failure Stacks α := fun s =>
  match body s with
  | .ok a s => (finish >>= fun _ => pure a : EStateM Failure Stacks α) s
  | .error failure s => (finish >>= fun _ => throw failure : EStateM Failure Stacks α) s

/-- A computation with values on top of the stacks, which are popped on the way out. -/
def block (pairs : List (String × Value)) (body : EStateM Failure Stacks Unit) :
    EStateM Failure Stacks Unit := fun s =>
  andFinally body (popAll (pairs.map Prod.fst).reverse) (s.pushAll pairs)

open Classical in
/-- How an expression ends by the rules of evaluation. -/
noncomputable def ending (functions : List (String × Definition)) (limit : Nat) (scope : Scope)
    (e : Expr) : Except Failure Value :=
  if h : ∃ r, Evaluates functions limit scope e r then h.choose.mapError Fault.failure
  else .error .depthExceeded

/-- Evaluates by the rules, which change nothing. -/
noncomputable def evaluate (functions : List (String × Definition)) (limit : Nat) (e : Expr) :
    EStateM Failure Stacks Value := fun s =>
  match ending functions limit s.scope e with
  | .ok v => .ok v s
  | .error failure => .error failure s

end Stacks

/-- One stack for each name as a table. -/
noncomputable def Table.stacked (functions : List (String × Definition)) (limit : Nat) :
    Table Stacks where
  perform
    | .push x v => fun s => .ok .done (Function.update s x (v :: s x))
    | .pop x => return .value (← Stacks.pop x)
    | .lookup x => return .value (← Stacks.lookup x)
    | .depth x => fun s => .ok (.count (s x).length) s
    | .evaluate e => return .value (← Stacks.evaluate functions limit e)
  enter pairs s := s.pushAll pairs
  block := Stacks.block

/-! ## The simulation -/

/-- The stacks of the environment that an action leaves, with how the action ends. -/
def shown : EStateM.Result Failure Environment α → EStateM.Result Failure Stacks α
  | .ok a env => .ok a env.bindings.stack
  | .error failure env => .error failure env.bindings.stack

/-- What an action does to the stacks of an environment is what another one does to stacks, and the
functions stay. -/
structure Tracks (act : Action α) (act' : EStateM Failure Stacks α) (env : Environment) :
    Prop where
  result : act' env.bindings.stack = shown (act env)
  functions : (act.after env).functions = env.functions

namespace Tracks

variable {act : Action α} {act' : EStateM Failure Stacks α} {env : Environment}

theorem pure (a : α) (env : Environment) : Tracks (Pure.pure a) (Pure.pure a) env :=
  ⟨rfl, rfl⟩

theorem throw (failure : Failure) (env : Environment) :
    Tracks (MonadExcept.throw failure : Action α) (MonadExcept.throw failure) env :=
  ⟨rfl, rfl⟩

section

variable {env' : Environment} {failure : Failure}

theorem of_ok {a : α} (h : Tracks act act' env) (hrun : act env = .ok a env') :
    act' env.bindings.stack = .ok a env'.bindings.stack ∧ env'.functions = env.functions := by
  obtain ⟨hresult, hfunctions⟩ := h
  rw [hrun] at hresult
  rw [after_of_ok hrun] at hfunctions
  exact ⟨hresult, hfunctions⟩

theorem of_error (h : Tracks act act' env) (hrun : act env = .error failure env') :
    act' env.bindings.stack = .error failure env'.bindings.stack ∧
      env'.functions = env.functions := by
  obtain ⟨hresult, hfunctions⟩ := h
  rw [hrun] at hresult
  rw [after_of_error hrun] at hfunctions
  exact ⟨hresult, hfunctions⟩

end

theorem bind {f : α → Action β} {f' : α → EStateM Failure Stacks β} (h : Tracks act act' env)
    (hf : ∀ a env', act env = .ok a env' → Tracks (f a) (f' a) env') :
    Tracks (act >>= f) (act' >>= f') env := by
  have hbind : ∀ s, (act' >>= f') s = EStateM.bind act' f' s := fun _ => rfl
  constructor
  · rw [hbind, EStateM.bind]
    cases hrun : act env with
    | ok a env' =>
      rw [(h.of_ok hrun).1, run_bind_of_ok f hrun]
      exact (hf a env' hrun).result
    | error failure env' =>
      rw [(h.of_error hrun).1, run_bind_of_error f hrun]
      rfl
  · cases hrun : act env with
    | ok a env' =>
      rw [after_bind_of_ok f hrun]
      exact (hf a env' hrun).functions.trans (h.of_ok hrun).2
    | error failure env' =>
      rw [after_of_error (run_bind_of_error f hrun)]
      exact (h.of_error hrun).2

theorem attempt {act : Action Unit} {act' : EStateM Failure Stacks Unit}
    (h : Tracks act act' env) : Tracks (DynLisp.attempt act) (DynLisp.attempt act') env := by
  refine ⟨?_, (congrArg Environment.functions (after_attempt act env)).trans h.functions⟩
  cases hrun : act env with
  | ok a env' =>
    have hattempt : DynLisp.attempt act env = .ok () env' := attempt_of_ok hrun
    rw [attempt_of_ok (h.of_ok hrun).1, hattempt]
    rfl
  | error failure env' =>
    have hattempt : DynLisp.attempt act env = .ok () env' := attempt_of_error hrun
    rw [attempt_of_error (h.of_error hrun).1, hattempt]
    rfl

theorem push (x : String) (v : Value) (env : Environment) :
    Tracks (Environment.push x v) (fun s => .ok () (Function.update s x (v :: s x))) env := by
  refine ⟨?_, rfl⟩
  show _ = EStateM.Result.ok () (env.bindings.push x v).stack
  rw [show (env.bindings.push x v).stack = _ from Change.stack_apply env.bindings (.push x v)]
  rfl

theorem lookup (x : String) (env : Environment) :
    Tracks (Environment.lookup x) (Stacks.lookup x) env := by
  have hstacks : Stacks.scope env.bindings.stack x = env.bindings.lookup? x := rfl
  constructor
  · rw [Environment.lookup, run_get_bind, Stacks.lookup, hstacks]
    cases env.bindings.lookup? x <;> rfl
  · rw [Action.after, Environment.lookup, run_get_bind]
    cases env.bindings.lookup? x <;> rfl

theorem pop (x : String) (env : Environment) :
    Tracks (Environment.pop x) (Stacks.pop x) env := by
  have hvalue : (env.bindings.pop x).1 = (env.bindings.stack x).head? := Bindings.pop_fst _ x
  have hstack : (env.bindings.pop x).2.stack =
      Function.update env.bindings.stack x (env.bindings.stack x).tail :=
    Change.stack_apply env.bindings (.pop x)
  cases hx : env.bindings.stack x with
  | nil =>
    rw [hx] at hvalue hstack
    have hrun : Environment.pop x env =
        .error .emptyStack { env with bindings := (env.bindings.pop x).2 } := by
      rw [Environment.pop, run_get_bind]
      generalize env.bindings.pop x = popped at hvalue
      obtain ⟨top, bindings⟩ := popped
      obtain rfl : top = none := hvalue
      rfl
    have hsame : (env.bindings.pop x).2.stack = env.bindings.stack := by
      rw [hstack]
      exact Function.update_eq_self_iff.2 hx.symm
    constructor
    · rw [hrun, Stacks.pop, hx, shown]
      exact congrArg _ hsame.symm
    · rw [after_of_error hrun]
  | cons v vs =>
    rw [hx] at hvalue hstack
    have hrun := Environment.pop_run hvalue
    constructor
    · rw [hrun, Stacks.pop, hx, shown]
      exact congrArg _ hstack.symm
    · rw [after_of_ok hrun]

theorem popAll (xs : List String) (env : Environment) :
    Tracks (Environment.popAll xs) (Stacks.popAll xs) env := by
  induction xs generalizing env with
  | nil => exact Tracks.pure () env
  | cons x xs ih =>
    rw [Environment.popAll, Stacks.popAll, discard_eq, bind_assoc]
    exact (Tracks.pop x env).bind fun _ env' _ => ih env'

theorem stack_bound (env : Environment) (pairs : List (String × Value)) :
    (env.bound pairs).bindings.stack = Stacks.pushAll env.bindings.stack pairs := by
  induction pairs generalizing env with
  | nil => rfl
  | cons pair pairs ih =>
    obtain ⟨x, v⟩ := pair
    refine (ih { env with bindings := env.bindings.push x v }).trans ?_
    exact congrArg (Stacks.pushAll · pairs) (Change.stack_apply env.bindings (.push x v))

theorem andFinally {finish : Option Failure → Action Unit}
    {finish' : EStateM Failure Stacks Unit} (h : Tracks act act' env)
    (hfinish : Tracks (finish (act.failure? env)) finish' (act.after env)) :
    Tracks (Environment.andFinally act finish) (Stacks.andFinally act' finish') env := by
  have hfunctions : ((Environment.andFinally act finish).after env).functions = env.functions := by
    rw [Environment.after_andFinally]
    exact hfinish.functions.trans h.functions
  refine ⟨?_, hfunctions⟩
  rw [Action.failure?] at hfinish
  cases hrun : act env with
  | ok a env' =>
    rw [outcome_of_ok hrun, after_of_ok hrun] at hfinish
    rw [Stacks.andFinally, (h.of_ok hrun).1, Environment.andFinally_of_ok hrun]
    exact (hfinish.bind fun _ _ _ => Tracks.pure a _).result
  | error failure env' =>
    rw [outcome_of_error hrun, after_of_error hrun] at hfinish
    rw [Stacks.andFinally, (h.of_error hrun).1, Environment.andFinally_of_error hrun]
    exact (hfinish.bind fun _ _ _ => Tracks.throw failure _).result

/-- Where a step does the same to stacks, and the answers after it are the same, all answers are. -/
theorem followed {answer : α → Answer} {rest : Environment → List (Except Failure Answer)}
    {rest' : Stacks → List (Except Failure Answer)} (h : Tracks act act' env)
    (hrest : ∀ a env', act env = .ok a env' → rest env' = rest' env'.bindings.stack) :
    Script.followed (act env) answer rest =
      Script.followed (act' env.bindings.stack) answer rest' := by
  rw [h.result]
  cases hrun : act env with
  | ok a env' => exact congrArg _ (hrest a env' hrun)
  | error failure env' => rfl

/-- A block takes back all that it has bound, unless some of it stays because calls are nested too
deeply. -/
theorem binding {body : Action Unit} {body' : EStateM Failure Stacks Unit} {kept : Nat}
    {pairs : List (String × Value)} (h : Tracks body body' (env.bound pairs))
    (hkept : kept = 0 ∨ body.outcome (env.bound pairs) ≠ .error .depthExceeded) :
    Tracks (Environment.binding kept pairs body) (Stacks.block pairs body') env := by
  let finish (failure : Option Failure) : Action Unit :=
    Environment.popAll (Environment.released kept (pairs.map Prod.fst) failure).reverse
  have hfinish : finish (body.failure? (env.bound pairs)) =
      Environment.popAll (pairs.map Prod.fst).reverse :=
    congrArg (fun names => Environment.popAll names.reverse) (Environment.released_eq _ hkept)
  have hpops : Tracks (finish (body.failure? (env.bound pairs)))
      (Stacks.popAll (pairs.map Prod.fst).reverse) (body.after (env.bound pairs)) :=
    hfinish ▸ Tracks.popAll _ _
  obtain ⟨hstacks, hfunctions⟩ := h.andFinally hpops
  constructor
  · rw [Environment.binding_run, Stacks.block, ← stack_bound]
    exact hstacks
  · rw [Action.after, Environment.binding_run]
    exact hfunctions

variable [Machine]

/-- An evaluation ends as the rules have it in the scope that the stacks make. -/
theorem evaluate {limit : Nat} {e : Expr}
    (h : Machine.Steady ∨ (DynLisp.evaluate limit e).outcome env ≠ .error .depthExceeded) :
    Tracks (DynLisp.evaluate limit e) (Stacks.evaluate env.functions limit e) env := by
  have hmeans := means_evaluate env.functions env.scope limit e
  have hending : Stacks.ending env.functions limit env.scope e =
      (DynLisp.evaluate limit e).outcome env := by
    by_cases hr : ∃ r, Evaluates env.functions limit env.scope e r
    · rw [Stacks.ending, dif_pos hr]
      exact ((hmeans.outcome_iff rfl rfl _).2 hr.choose_spec).symm
    · rw [Stacks.ending, dif_neg hr]
      exact ((hmeans.outcome_depthExceeded_iff rfl rfl).2 hr).symm
  have hrestored := (restores_evaluate limit e).restored env h
  have hstack : ((DynLisp.evaluate limit e).after env).bindings.stack = env.bindings.stack :=
    funext hrestored.stack
  refine ⟨?_, hrestored.functions⟩
  show (match Stacks.ending env.functions limit env.scope e with
    | .ok v => EStateM.Result.ok v env.bindings.stack
    | .error failure => .error failure env.bindings.stack) = _
  rw [hending, ← hstack]
  unfold Action.outcome Action.after
  cases DynLisp.evaluate limit e env <;> rfl

/-! ### Operations and scripts -/

theorem perform {limit : Nat} {op : Operation}
    (h : Machine.Steady ∨
      Action.outcome ((Table.environment limit).perform op) env ≠ .error .depthExceeded) :
    Tracks ((Table.environment limit).perform op)
      ((Table.stacked env.functions limit).perform op) env := by
  cases op with
  | push x v => exact (Tracks.push x v env).bind fun _ _ _ => Tracks.pure _ _
  | pop x => exact (Tracks.pop x env).bind fun _ _ _ => Tracks.pure _ _
  | evaluate e =>
    have hevaluate : Machine.Steady ∨
        (DynLisp.evaluate limit e).outcome env ≠ .error .depthExceeded :=
      h.imp_right fun hne hdeep => hne (outcome_bind_eq_error_iff.2 (.inl hdeep))
    exact (Tracks.evaluate hevaluate).bind fun _ _ _ => Tracks.pure _ _
  | depth x => exact ⟨rfl, rfl⟩
  | lookup x => exact (Tracks.lookup x env).bind fun _ _ _ => Tracks.pure _ _

end Tracks

section

variable [Machine]

/-- It is not among some answers that calls are nested too deeply, or the machine is steady. -/
def Undisturbed (answers : List (Except Failure Answer)) : Prop :=
  Machine.Steady ∨ .error .depthExceeded ∉ answers

theorem Undisturbed.of_subset {answers part : List (Except Failure Answer)}
    (h : Undisturbed answers) (hsubset : part ⊆ answers) : Undisturbed part :=
  h.imp_right (mt fun hmem => hsubset hmem)

/-- What does not disturb the answers to a step and after it disturbs neither. -/
theorem Undisturbed.of_followed {act : Action α} {answer : α → Answer}
    {rest : Environment → List (Except Failure Answer)} {env : Environment}
    (h : Undisturbed (Script.followed (act env) answer rest)) :
    (Machine.Steady ∨ act.outcome env ≠ .error .depthExceeded) ∧
      ∀ a env', act env = .ok a env' → Undisturbed (rest env') := by
  constructor
  · refine h.imp_right fun hne hdeep => hne ?_
    cases hrun : act env with
    | ok a env' =>
      rw [outcome_of_ok hrun] at hdeep
      cases hdeep
    | error failure env' =>
      rw [outcome_of_error hrun] at hdeep
      obtain rfl := Except.error.inj hdeep
      exact List.mem_singleton_self _
  · intro a env' hrun
    rw [hrun] at h
    exact h.of_subset (List.subset_cons_self _ _)

/-- A script has the same answers on an environment as on its stacks, and does the same to them,
while nothing disturbs it. -/
theorem Script.tracks (limit : Nat) (script : Script) (env : Environment)
    (h : Undisturbed (script.transcript (.environment limit) env)) :
    script.transcript (.environment limit) env =
        script.transcript (.stacked env.functions limit) env.bindings.stack ∧
      Tracks (script.act (.environment limit)) (script.act (.stacked env.functions limit)) env := by
  generalize hfunctions : env.functions = functions
  induction script generalizing env with
  | done => exact ⟨rfl, Tracks.pure () env⟩
  | fail failure => exact ⟨rfl, Tracks.throw failure env⟩
  | operation op next ih =>
    rw [transcript_operation] at h
    obtain ⟨hdeep, hlater⟩ := h.of_followed
    have hperform : Tracks ((Table.environment limit).perform op)
        ((Table.stacked functions limit).perform op) env := hfunctions ▸ Tracks.perform hdeep
    have hnext (answer : Answer) (env' : Environment)
        (hrun : (Table.environment limit).perform op env = .ok answer env') :=
      ih env' (hlater answer env' hrun) ((hperform.of_ok hrun).2.trans hfunctions)
    rw [transcript_operation, transcript_operation]
    exact ⟨hperform.followed fun answer env' hrun => (hnext answer env' hrun).1,
      hperform.bind fun answer env' hrun => (hnext answer env' hrun).2⟩
  | block names values body next ihbody ih =>
    rw [transcript_block] at h
    obtain ⟨hbody, htracks⟩ := ihbody (env.bound (names.zip values))
      (h.of_subset (List.subset_append_left _ _)) hfunctions
    obtain ⟨-, hlater⟩ := (h.of_subset (List.subset_append_right _ _)).of_followed
    have hkept : Machine.kept limit = 0 ∨
        Action.outcome (body.act (.environment limit)) (env.bound (names.zip values)) ≠
          .error .depthExceeded := by
      refine h.imp (fun hsteady => hsteady limit) fun hne hdeep => hne ?_
      exact List.mem_append_left _ (mem_transcript_of_outcome hdeep)
    have hblock : Tracks ((Table.environment limit).block (names.zip values) _)
        ((Table.stacked functions limit).block (names.zip values) _) env := htracks.binding hkept
    have hnext (a : Unit) (env' : Environment)
        (hrun : (Table.environment limit).block (names.zip values)
          (body.act (.environment limit)) env = .ok a env') :=
      ih env' (hlater a env' hrun) ((hblock.of_ok hrun).2.trans hfunctions)
    rw [Tracks.stack_bound] at hbody
    rw [transcript_block, transcript_block]
    exact ⟨congrArg₂ (· ++ ·) hbody (hblock.followed fun a env' hrun => (hnext a env' hrun).1),
      hblock.bind fun a env' hrun => (hnext a env' hrun).2⟩
  | attempt body next ihbody ih =>
    rw [transcript_attempt] at h
    obtain ⟨hbody, htracks⟩ := ihbody env (h.of_subset (List.subset_append_left _ _)) hfunctions
    have hnext := ih (Action.after (body.act (.environment limit)) env)
      (h.of_subset (List.subset_append_right _ _)) (htracks.functions.trans hfunctions)
    have hattempt : Tracks (DynLisp.attempt (body.act (.environment limit))) _ env :=
      htracks.attempt
    refine ⟨?_, hattempt.bind fun _ env' hrun => ?_⟩
    · rw [transcript_attempt, transcript, hbody]
      refine congrArg _ (hnext.1.trans ?_)
      rw [htracks.result, Action.after]
      cases body.act (.environment limit) env <;> rfl
    · obtain rfl : _ = env' := (after_attempt _ env).symm.trans (after_of_ok hrun)
      exact hnext.2

end

/-! ## What is pushed and popped on the way -/

open Environment in
/-- The pushes and the pops that an action makes in an environment, the most recent first. -/
inductive Makes : {α : Type} → Action α → Environment → History → Prop
  | pure {α : Type} (a : α) (env : Environment) : Makes (pure a) env []
  | throw {α : Type} (failure : Failure) (env : Environment) :
      Makes (throw failure : Action α) env []
  | get (env : Environment) : Makes get env []
  | note (notice : Notice) (env : Environment) : Makes (note notice) env []
  | push (x : String) (v : Value) (env : Environment) : Makes (push x v) env [.push x v]
  | pop (x : String) (env : Environment) : Makes (pop x) env [.pop x]
  | bind {α β : Type} {act : Action α} {f : α → Action β} {env env' : Environment} {a : α}
      {h h' : History} :
      act env = .ok a env' → Makes act env h → Makes (f a) env' h' → Makes (act >>= f) env (h' ++ h)
  | bindFailed {α β : Type} {act : Action α} {f : α → Action β} {env env' : Environment}
      {failure : Failure} {h : History} :
      act env = .error failure env' → Makes act env h → Makes (act >>= f) env h
  | andFinally {α : Type} {body : Action α} {finish : Option Failure → Action Unit}
      {env : Environment} {h h' : History} :
      Makes body env h → Makes (finish (body.failure? env)) (body.after env) h' →
      Makes (andFinally body finish) env (h' ++ h)
  | attempt {act : Action Unit} {env : Environment} {h : History} :
      Makes act env h → Makes (attempt act) env h

namespace Makes

/-- Nothing else changes the bindings. -/
theorem bindings_after {act : Action α} {env : Environment} {h : History}
    (hmakes : Makes act env h) : (act.after env).bindings = h.replayFrom env.bindings := by
  induction hmakes with
  | pure => rfl
  | throw => rfl
  | get => rfl
  | note => rfl
  | push => rfl
  | pop x env =>
    rw [Action.after, Environment.pop, run_get_bind]
    show _ = (env.bindings.pop x).2
    rcases env.bindings.pop x with ⟨_ | v, b⟩ <;> rfl
  | bind hrun hact hf ihact ih =>
    rw [after_of_ok hrun] at ihact
    rw [after_bind_of_ok _ hrun, ih, ihact, History.replayFrom_append]
  | bindFailed hrun hact ih =>
    rw [after_of_error hrun] at ih
    rw [after_of_error (run_bind_of_error _ hrun), ih]
  | andFinally hbody hfinish ihbody ih =>
    rw [History.replayFrom_append, ← ihbody, ← ih, Environment.after_andFinally]
  | attempt hact ih => rw [after_attempt, ih]

theorem exists_bind {act : Action α} {f : α → Action β}
    (hact : ∀ env, ∃ h, Makes act env h) (hf : ∀ a env, ∃ h, Makes (f a) env h) :
    ∀ env, ∃ h, Makes (act >>= f) env h := by
  intro env
  obtain ⟨h, hmakes⟩ := hact env
  cases hrun : act env with
  | ok a env' =>
    obtain ⟨h', hmakes'⟩ := hf a env'
    exact ⟨h' ++ h, .bind hrun hmakes hmakes'⟩
  | error failure env' => exact ⟨h, .bindFailed hrun hmakes⟩

theorem exists_pushAll (pairs : List (String × Value)) :
    ∀ env, ∃ h, Makes (Environment.pushAll pairs) env h := by
  induction pairs with
  | nil => exact fun env => ⟨[], .pure () env⟩
  | cons pair pairs ih =>
    obtain ⟨x, v⟩ := pair
    exact exists_bind (fun env => ⟨_, .push x v env⟩) fun _ => ih

theorem exists_popAll (xs : List String) : ∀ env, ∃ h, Makes (Environment.popAll xs) env h := by
  induction xs with
  | nil => exact fun env => ⟨[], .pure () env⟩
  | cons x xs ih =>
    rw [Environment.popAll, discard_eq, bind_assoc]
    exact exists_bind (fun env => ⟨_, .pop x env⟩) fun _ => ih

theorem exists_binding {body : Action α} (hbody : ∀ env, ∃ h, Makes body env h) (kept : Nat)
    (pairs : List (String × Value)) :
    ∀ env, ∃ h, Makes (Environment.binding kept pairs body) env h := by
  refine exists_bind (exists_pushAll pairs) fun _ env => ?_
  obtain ⟨h, hmakes⟩ := hbody env
  obtain ⟨h', hmakes'⟩ := exists_popAll
    (Environment.released kept (pairs.map Prod.fst) (body.failure? env)).reverse (body.after env)
  exact ⟨h' ++ h, .andFinally hmakes hmakes'⟩

theorem exists_lookup (x : String) : ∀ env, ∃ h, Makes (Environment.lookup x) env h := by
  refine exists_bind (fun env => ⟨[], .get env⟩) fun env => ?_
  cases env.bindings.lookup? x with
  | some v => exact fun env => ⟨[], .pure v env⟩
  | none => exact fun env => ⟨[], .throw _ env⟩

theorem exists_function (f : String) : ∀ env, ∃ h, Makes (Environment.function f) env h := by
  refine exists_bind (fun env => ⟨[], .get env⟩) fun env => ?_
  cases env.functions.lookup f with
  | some definition => exact fun env => ⟨[], .pure definition env⟩
  | none => exact fun env => ⟨[], .throw _ env⟩

variable [Machine]

/-- An evaluation pushes and pops for the calls that it makes. -/
theorem exists_evaluate (limit : Nat) (e : Expr) :
    ∀ env, ∃ h, Makes (evaluate limit e) env h :=
  Evaluative.evaluate (P := fun act => ∀ env, ∃ h, Makes act env h)
    { pure := fun a env => ⟨[], .pure a env⟩
      fault := fun fault env => ⟨[], .throw fault.failure env⟩
      depthExceeded := fun env => ⟨[], .throw .depthExceeded env⟩
      bind := exists_bind
      lookup := exists_lookup
      function := exists_function
      note := fun notice env => ⟨[], .note notice env⟩
      binding := fun room pairs hbody => exists_binding hbody (Machine.kept room) pairs } limit e

theorem exists_perform (limit : Nat) (op : Operation) :
    ∀ env, ∃ h, Makes ((Table.environment limit).perform op) env h := by
  have hanswer : ∀ (a : Answer) env, ∃ h, Makes (Pure.pure a) env h :=
    fun a env => ⟨[], .pure a env⟩
  cases op with
  | push x v => exact exists_bind (fun env => ⟨_, .push x v env⟩) fun _ => hanswer _
  | pop x => exact exists_bind (fun env => ⟨_, .pop x env⟩) fun _ => hanswer _
  | lookup x => exact exists_bind (exists_lookup x) fun _ => hanswer _
  | depth x => exact exists_bind (fun env => ⟨[], .get env⟩) fun _ => hanswer _
  | evaluate e => exact exists_bind (exists_evaluate limit e) fun _ => hanswer _

theorem exists_script (limit : Nat) (script : Script) :
    ∀ env, ∃ h, Makes (script.act (.environment limit)) env h := by
  induction script with
  | done => exact fun env => ⟨[], .pure () env⟩
  | fail failure => exact fun env => ⟨[], .throw failure env⟩
  | operation op next ih => exact exists_bind (exists_perform limit op) fun _ => ih
  | block names values body next ihbody ih =>
    exact exists_bind (exists_binding ihbody _ (names.zip values)) fun _ => ih
  | attempt body next ihbody ih =>
    refine exists_bind (fun env => ?_) fun _ => ih
    obtain ⟨h, hmakes⟩ := ihbody env
    exact ⟨h, .attempt hmakes⟩

end Makes

/-! ## The table -/

/-- **An environment is one stack for each name.**  Whatever is done to an environment in which
nothing is bound, the answers and the failures are those of plain stacks, on a steady machine always
and on any other one unless calls get nested too deeply; and what is pushed and popped on the way,
in evaluations and blocks too, makes the bindings that are left.  Bindings that
are made by any pushes and pops have no name twice, and under each name the stack that those of that
name make.  A name has an empty stack there if and only if its last push or pop was a pop that
failed.  The names come in the order in which they were put in, each since it was last not there. -/
theorem Script.answers_of_stacks [Machine] (functions : List (String × Definition)) (limit : Nat)
    (script : Script) :
    let env := Environment.ofFunctions functions
    let act : Action Unit := script.act (.environment limit)
    (Machine.Steady ∨ .error .depthExceeded ∉ script.transcript (.environment limit) env →
        script.transcript (.environment limit) env =
          script.transcript (.stacked functions limit) (fun _ => [])) ∧
      (∃ h, Makes act env h) ∧
      (∀ h, Makes act env h → (Action.after act env).bindings = h.replay) ∧
      ∀ h : History,
        (h.replay.entries.map Prod.fst).Nodup ∧
          h.replay.stack = h.stackOf ∧
          (∀ x, (x, []) ∈ h.replay.entries ↔ h.LastFailed x) ∧
          (∀ x, x ∈ h.replay.entries.map Prod.fst ↔ h.Present x) ∧
          (h.replay.entries.map Prod.fst).Pairwise h.InsertedBefore := by
  intro env act
  refine ⟨fun h => (script.tracks limit env h).1, Makes.exists_script limit script env,
    fun h hmakes => hmakes.bindings_after, fun h => ?_⟩
  have hdescribes := h.describes_replay
  exact ⟨h.replay.distinct, funext hdescribes.stack_eq, fun x => hdescribes.empty_mem_iff,
    fun x => hdescribes.mem_names_iff, hdescribes.order⟩

/-- `z` is popped without having a value and then `x` and `y` are bound.  Calling `f`, whose
parameter is `x`, puts a second value on `x` and takes it off again.  A block binds `x` twice and
`w` once; its body fails at `w`, so that leaving the block pops `w` without a value and stops there,
and both values of `x` stay. -/
theorem Script.answers_of_stacks_mixed :
    let _ : Machine := .ofCalls 10
    let functions := [("f", ⟨["x"], .arith .add (.var "x") (.var "y")⟩)]
    let script : Script :=
      .attempt (.operation (.pop "z") .done) <|
      .operation (.push "x" (.number 1)) <|
      .operation (.push "y" (.number 2)) <|
      .operation (.evaluate (.call "f" [.number 5])) <|
      .attempt (.block ["x", "x", "w"] [.number 3, .number 4, .boolean true]
        (.operation (.depth "x") <| .operation (.pop "w") <| .operation (.lookup "w") .done)
        .done) <|
      .operation (.lookup "x") .done
    let env := Environment.ofFunctions functions
    let act : Action Unit := script.act (.environment 10)
    script.transcript (.stacked functions 10) (fun _ => []) =
        [.error .emptyStack, .ok .done, .ok .done, .ok (.value (.number 7)), .ok (.count 3),
          .ok (.value (.boolean true)), .error (Fault.unboundVariable "w").failure,
          .error .emptyStack, .ok (.value (.number 4))] ∧
      (Action.after act env).bindings.entries =
        [("z", []), ("x", [.number 4, .number 3, .number 1]), ("y", [.number 2]), ("w", [])] ∧
      ∃ h, Makes act env h ∧ h.LastFailed "z" ∧ h.LastFailed "w" ∧ ¬ h.LastFailed "x" ∧
        h.stackOf "x" = [.number 4, .number 3, .number 1] ∧
        h.InsertedBefore "z" "x" ∧ h.InsertedBefore "x" "w" := by
  intro _ functions script env act
  obtain ⟨htracks, ⟨h, hmakes⟩, hafter, hhistory⟩ := answers_of_stacks functions 10 script
  have hanswers := htracks (.inl fun _ => rfl)
  have hentries : (Action.after act env).bindings.entries =
      [("z", []), ("x", [.number 4, .number 3, .number 1]), ("y", [.number 2]), ("w", [])] := rfl
  obtain ⟨-, hstack, hfailed, -, horder⟩ := hhistory h
  rw [← hafter h hmakes] at hstack hfailed horder
  rw [hentries] at hfailed horder
  have hbefore := List.pairwise_cons.1 horder
  refine ⟨hanswers.symm.trans rfl, hentries, h, hmakes, (hfailed "z").1 (by decide),
    (hfailed "w").1 (by decide), fun hx => ?_, hstack ▸ rfl, hbefore.1 "x" (by decide), ?_⟩
  · exact absurd ((hfailed "x").2 hx) (by decide)
  · exact (List.pairwise_cons.1 hbefore.2).1 "w" (by decide)

end DynLisp
