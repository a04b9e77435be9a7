import DynLisp.Proofs.Environment.Action

/-!
# Actions that go alike

Nothing that an action does depends on the notices given before, and the place that a failure lies
at is only carried along.  Two environments are the same for actions if they have the same bindings
and functions (`Environment.Same`).  Two actions go alike if in such environments they end alike, up
to the place of a failure, and leave such environments (`Action.Alike`).

The relation composes along a bind.  Here it is proved of what environments offer; forms of the
language and whole texts follow from these.
-/

namespace DynLisp

/-- The bindings and the functions are the same.  The notices may differ. -/
structure Environment.Same (env env' : Environment) : Prop where
  bindings : env.bindings = env'.bindings
  functions : env.functions = env'.functions

/-- A failure without the place where it lies. -/
def Failure.unlocated : Failure → Failure
  | .error fault _ => .error fault .unknown
  | failure => failure

namespace Action

variable {α β : Type}

/-- The same result, or failures that differ in their places only, in environments that are the
same. -/
inductive EndsAlike :
    EStateM.Result Failure Environment α → EStateM.Result Failure Environment α → Prop
  | ok {a : α} {env env' : Environment} : env.Same env' → EndsAlike (.ok a env) (.ok a env')
  | error {failure failure' : Failure} {env env' : Environment} :
      failure.unlocated = failure'.unlocated → env.Same env' →
      EndsAlike (.error failure env) (.error failure' env')

/-- The two actions end alike in environments that are the same. -/
def Alike (act act' : Action α) : Prop :=
  ∀ env env' : Environment, env.Same env' → EndsAlike (act env) (act' env')

section

variable {act act' : Action α} {env env' : Environment} (h : act.Alike act') (henv : env.Same env')
include h henv

theorem Alike.outcome_eq_ok {a : α} (ha : act'.outcome env' = .ok a) : act.outcome env = .ok a := by
  have hends := h env env' henv
  rw [run_of_outcome_eq_ok ha] at hends
  generalize hrun : act env = result at hends
  cases hends with
  | ok _ => exact outcome_of_ok hrun

theorem Alike.exists_outcome_eq_error {failure : Failure}
    (hfailure : act'.outcome env' = .error failure) :
    ∃ failure', act.outcome env = .error failure' ∧ failure'.unlocated = failure.unlocated := by
  have hends := h env env' henv
  rw [run_of_outcome_eq_error hfailure] at hends
  generalize hrun : act env = result at hends
  cases hends with
  | error hplace _ => exact ⟨_, outcome_of_error hrun, hplace⟩

theorem Alike.same_after : (act.after env).Same (act'.after env') := by
  have hends := h env env' henv
  unfold Action.after
  generalize act env = result, act' env' = result' at hends
  cases hends with
  | ok hsame => exact hsame
  | error _ hsame => exact hsame

end

theorem alike_pure (a : α) : Alike (pure a) (pure a) := fun _ _ h => .ok h

theorem alike_throw {failure failure' : Failure} (h : failure.unlocated = failure'.unlocated) :
    Alike (throw failure : Action α) (throw failure') := fun _ _ henv => .error h henv

theorem Alike.bind {act act' : Action α} {f f' : α → Action β} (hact : act.Alike act')
    (hf : ∀ a, (f a).Alike (f' a)) : Action.Alike (act >>= f) (act' >>= f') := by
  intro env env' henv
  show EndsAlike (EStateM.bind act f env) (EStateM.bind act' f' env')
  rw [EStateM.bind, EStateM.bind]
  have h := hact env env' henv
  generalize act env = result, act' env' = result' at h
  cases h with
  | ok hmid => exact hf _ _ _ hmid
  | error hfailure hmid => exact .error hfailure hmid

theorem alike_get_bind {f f' : Environment → Action α}
    (hf : ∀ env env', env.Same env' → (f env).Alike (f' env')) :
    Action.Alike (get >>= f) (get >>= f') := fun env env' henv => hf env env' henv env env' henv

theorem alike_modify {g g' : Environment → Environment}
    (hg : ∀ env env', env.Same env' → (g env).Same (g' env')) :
    Alike (modify g) (modify g') := fun env env' henv => .ok (hg env env' henv)

/-- What comes finally goes alike on every way out, if it does not look at the place of a
failure. -/
theorem Alike.andFinally {body body' : Action α} {finish finish' : Option Failure → Action Unit}
    (hbody : body.Alike body') (hok : (finish none).Alike (finish' none))
    (herror : ∀ failure failure' : Failure, failure.unlocated = failure'.unlocated →
      (finish (some failure)).Alike (finish' (some failure'))) :
    (Environment.andFinally body finish).Alike (Environment.andFinally body' finish') := by
  intro env env' henv
  unfold Environment.andFinally
  have h := hbody env env' henv
  generalize body env = result, body' env' = result' at h
  cases h with
  | @ok a mid mid' hmid =>
    have h := hok mid mid' hmid
    dsimp only
    generalize finish none mid = result, finish' none mid' = result' at h
    cases h with
    | ok hlast => exact .ok hlast
    | error hfailure hlast => exact .error hfailure hlast
  | @error failure failure' mid mid' hfailure hmid =>
    have h := herror failure failure' hfailure mid mid' hmid
    dsimp only
    generalize finish (some failure) mid = result, finish' (some failure') mid' = result' at h
    cases h with
    | ok hlast => exact .error hfailure hlast
    | error hfailure hlast => exact .error hfailure hlast

end Action

/-! ## What environments offer -/

namespace Environment

open DynLisp.Action

theorem alike_note (notice notice' : Notice) : (note notice).Alike (note notice') :=
  alike_modify fun _ _ h => ⟨h.bindings, h.functions⟩

theorem alike_lookup (x : String) : (lookup x).Alike (lookup x) := by
  refine alike_get_bind fun env env' h => ?_
  rw [h.bindings]
  cases env'.bindings.lookup? x with
  | none => exact alike_throw rfl
  | some v => exact alike_pure v

theorem alike_function (f : String) : (function f).Alike (function f) := by
  refine alike_get_bind fun env env' h => ?_
  rw [h.functions]
  cases env'.functions.lookup f with
  | none => exact alike_throw rfl
  | some definition => exact alike_pure definition

theorem alike_define (e : Expr) : (define e).Alike (define e) := by
  cases e with
  | define f params body =>
    refine alike_get_bind fun env env' h => ?_
    have hadd : Action.Alike
        (do
          modify fun env => { env with functions := env.functions ++ [(f, ⟨params, body⟩)] }
          note (.defined f params))
        (do
          modify fun env => { env with functions := env.functions ++ [(f, ⟨params, body⟩)] }
          note (.defined f params)) := by
      refine Alike.bind (alike_modify fun env env' h => ⟨h.bindings, ?_⟩) fun _ => alike_note _ _
      rw [h.functions]
    rw [h.functions]
    dsimp only
    split
    · exact (alike_throw rfl).bind fun _ => hadd
    · exact hadd
  | _ => exact alike_throw rfl

theorem alike_pushAll (pairs : List (String × Value)) : (pushAll pairs).Alike (pushAll pairs) := by
  induction pairs with
  | nil => exact alike_pure _
  | cons pair pairs ih =>
    obtain ⟨x, v⟩ := pair
    refine Alike.bind (alike_modify fun env env' h => ⟨?_, h.functions⟩) fun _ => ih
    rw [h.bindings]

theorem alike_pop (x : String) : (pop x).Alike (pop x) := by
  refine alike_get_bind fun env env' h => ?_
  rw [h.bindings]
  have hset : Action.Alike
      (modify fun env => { env with bindings := (env'.bindings.pop x).2 })
      (modify fun env => { env with bindings := (env'.bindings.pop x).2 }) :=
    alike_modify fun _ _ h => ⟨rfl, h.functions⟩
  refine hset.bind fun _ => ?_
  cases (Bindings.popEntry x env'.bindings.entries).1 with
  | none => exact alike_throw rfl
  | some v => exact alike_pure v

theorem alike_popAll (xs : List String) : (popAll xs).Alike (popAll xs) := by
  induction xs with
  | nil => exact alike_pure _
  | cons x xs ih =>
    rw [popAll, discard_eq]
    exact ((alike_pop x).bind fun _ => alike_pure _).bind fun _ => ih

/-- Whether calls are nested too deeply does not depend on the place of a failure. -/
theorem released_congr (kept : Nat) (names : List String) {failure failure' : Failure}
    (h : failure.unlocated = failure'.unlocated) :
    released kept names (some failure) = released kept names (some failure') := by
  cases failure <;> cases failure' <;> first | rfl | cases h

theorem alike_binding {α : Type} {body body' : Action α} (hbody : body.Alike body') (kept : Nat)
    (pairs : List (String × Value)) :
    (binding kept pairs body).Alike (binding kept pairs body') := by
  refine (alike_pushAll pairs).bind fun _ => hbody.andFinally (alike_popAll _) ?_
  intro failure failure' h
  rw [released_congr kept (pairs.map Prod.fst) h]
  exact alike_popAll _

end Environment

end DynLisp
