import DynLisp.Proofs.Environment.Action
import Mathlib.Data.List.Induction

/-!
# Bindings that are taken back

What `Environment.binding` leaves behind.  Values are pushed in order and popped in reverse, and a
pop undoes a push: it brings back the entries of before, in their order, except that a name whose
stack was empty is gone.  So entries are compared up to names with an empty stack that have
disappeared, `Bindings.Pruned`, and the comparison is an equality where no stack is empty.

A computation in between may prune the entries as well, but does not get at the values that were
pushed.  Hence no pop fails, the names may repeat, and what a computation with bindings ends in is
what its body ends in, `Environment.binding_spec`.  This is so unless calls are nested too deeply
and some bindings stay.
-/

namespace DynLisp
namespace Bindings

/-! ## Entries less some that are empty -/

/-- The same entries in the same order, less some whose stack is empty. -/
inductive Pruned : List (String × List Value) → List (String × List Value) → Prop
  | nil : Pruned [] []
  | keep {l m : List (String × List Value)} (entry : String × List Value) :
      Pruned l m → Pruned (entry :: l) (entry :: m)
  | drop {l m : List (String × List Value)} (x : String) : Pruned l m → Pruned ((x, []) :: l) m

namespace Pruned

variable {l m k : List (String × List Value)}

theorem refl (l : List (String × List Value)) : Pruned l l := by
  induction l with
  | nil => exact .nil
  | cons entry l ih => exact .keep entry ih

theorem trans (h : Pruned l m) (h' : Pruned m k) : Pruned l k := by
  induction h generalizing k with
  | nil => exact h'
  | keep entry _ ih =>
    cases h' with
    | keep _ h' => exact .keep entry (ih h')
    | drop x h' => exact .drop x (ih h')
  | drop x _ ih => exact .drop x (ih h')

/-- Entries none of which is empty are all there. -/
theorem eq_of_forall_ne_nil (h : Pruned l m) (hne : ∀ entry ∈ l, entry.2 ≠ []) : m = l := by
  induction h with
  | nil => rfl
  | keep entry _ ih => rw [ih (List.forall_mem_cons.1 hne).2]
  | drop x => exact absurd rfl (List.forall_mem_cons.1 hne).1

/-- What is left was there before. -/
theorem subset (h : Pruned l m) : m ⊆ l := by
  induction h with
  | nil => exact List.Subset.refl _
  | keep entry _ ih => exact List.cons_subset_cons entry ih
  | drop x _ ih => exact List.subset_cons_of_subset _ ih

/-- A push is undone by a pop, also if entries were pruned in between. -/
theorem popEntry {x : String} {v : Value} (h : Pruned (pushEntry x v l) m) :
    (Bindings.popEntry x m).1 = some v ∧ Pruned l (Bindings.popEntry x m).2 := by
  induction l generalizing m with
  | nil =>
    rw [pushEntry] at h
    cases h with
    | keep _ h =>
      cases h
      simp [Bindings.popEntry, Pruned.nil]
  | cons entry l ih =>
    obtain ⟨y, vs⟩ := entry
    rw [pushEntry] at h
    split at h
    · next heq =>
      obtain rfl := heq
      cases h with
      | keep _ h =>
        -- the name goes with its last value, and so an empty stack does not come back
        cases vs with
        | nil => simpa [Bindings.popEntry] using .drop y h
        | cons w vs => simpa [Bindings.popEntry] using .keep (y, w :: vs) h
    · next hne =>
      cases h with
      | keep _ h => simpa [Bindings.popEntry, hne] using ⟨(ih h).1, .keep (y, vs) (ih h).2⟩
      | drop _ h => exact ⟨(ih h).1, .drop y (ih h).2⟩

/-- Bindings none of which is empty are all there. -/
theorem bindings_eq {b b' : Bindings} (h : Pruned b.entries b'.entries)
    (hne : ∀ entry ∈ b.entries, entry.2 ≠ []) : b' = b :=
  Bindings.ext (h.eq_of_forall_ne_nil hne)

end Pruned

/-! ## Pushing several values -/

/-- Binds names to values, in order. -/
def pushAll (b : Bindings) (pairs : List (String × Value)) : Bindings :=
  pairs.foldl (fun b pair => b.push pair.1 pair.2) b

end Bindings

namespace Environment

/-- The environment in which names are bound to values anew. -/
def bound (env : Environment) (pairs : List (String × Value)) : Environment :=
  { env with bindings := env.bindings.pushAll pairs }

/-- The environment in which one more notice was given. -/
def noted (env : Environment) (notice : Notice) : Environment :=
  { env with notices := notice :: env.notices }

theorem pushAll_run (pairs : List (String × Value)) (env : Environment) :
    pushAll pairs env = .ok () (env.bound pairs) := by
  induction pairs generalizing env with
  | nil => rfl
  | cons pair pairs ih => exact ih _

theorem pop_run {x : String} {env : Environment} {v : Value}
    (h : (env.bindings.pop x).1 = some v) :
    pop x env = .ok v { env with bindings := (env.bindings.pop x).2 } := by
  rw [pop, Action.run_get_bind]
  generalize env.bindings.pop x = popped at h
  obtain ⟨top, bindings⟩ := popped
  obtain rfl : top = some v := h
  rfl

theorem popAll_run {pairs : List (String × Value)} {b : Bindings} {env : Environment}
    (h : Bindings.Pruned (b.pushAll pairs).entries env.bindings.entries) :
    ∃ b', Bindings.Pruned b.entries b'.entries ∧
      popAll (pairs.map Prod.fst).reverse env = .ok () { env with bindings := b' } := by
  -- from the end, since the name that was pushed last is popped first
  induction pairs using List.reverseRecOn generalizing env with
  | nil => exact ⟨env.bindings, h, rfl⟩
  | append_singleton pairs pair ih =>
    rw [Bindings.pushAll, List.foldl_append] at h
    obtain ⟨hv, hpruned⟩ := h.popEntry
    obtain ⟨b', hb', hrun⟩ :=
      @ih { env with bindings := (env.bindings.pop pair.1).2 } hpruned
    refine ⟨b', hb', ?_⟩
    rw [List.map_append, List.reverse_append]
    show EStateM.bind (EStateM.map (Function.const Value PUnit.unit) (pop pair.1))
      (fun _ => popAll (pairs.map Prod.fst).reverse) env = _
    rw [EStateM.bind]
    rw [EStateM.map, pop_run hv]
    exact hrun

end Environment

/-! ## What an evaluation leaves -/

/-- The functions and the bindings are as before, except that names with an empty stack may be
gone. -/
structure Environment.Restored (before after : Environment) : Prop where
  functions : after.functions = before.functions
  pruned : Bindings.Pruned before.bindings.entries after.bindings.entries

namespace Environment

theorem Restored.refl (env : Environment) : Restored env env := ⟨rfl, .refl _⟩

theorem Restored.trans {env env' env'' : Environment} (h : Restored env env')
    (h' : Restored env' env'') : Restored env env'' :=
  ⟨h'.functions.trans h.functions, h.pruned.trans h'.pruned⟩

/-! ## Leaving a block -/

/-- All names are taken back, unless calls are nested too deeply and some bindings stay. -/
theorem released_eq {α : Type} {body : Action α} {env : Environment} {kept : Nat}
    (names : List String) (h : kept = 0 ∨ body.outcome env ≠ .error .depthExceeded) :
    released kept names (body.failure? env) = names := by
  unfold Action.failure?
  cases houtcome : body.outcome env with
  | ok a => rfl
  | error failure =>
    cases failure with
    | depthExceeded =>
      obtain rfl := h.resolve_right fun hne => hne houtcome
      rfl
    | _ => rfl

section

variable {α : Type} {body : Action α} {finish : Option Failure → Action Unit}
  {env env' : Environment} {a : α} {failure : Failure} {kept : Nat}
  {pairs : List (String × Value)}

theorem andFinally_of_ok (h : body env = .ok a env') :
    andFinally body finish env = (finish none >>= fun _ => pure a : Action α) env' := by
  cases hfinish : finish none env' with
  | ok _ after =>
    rw [Action.run_bind_of_ok _ hfinish, andFinally, h]
    simp only [hfinish]
    rfl
  | error failure after =>
    rw [Action.run_bind_of_error _ hfinish, andFinally, h]
    simp only [hfinish]

theorem andFinally_of_error (h : body env = .error failure env') :
    andFinally body finish env =
      (finish (some failure) >>= fun _ => throw failure : Action α) env' := by
  cases hfinish : finish (some failure) env' with
  | ok _ after =>
    rw [Action.run_bind_of_ok _ hfinish, andFinally, h]
    simp only [hfinish]
    rfl
  | error failure after =>
    rw [Action.run_bind_of_error _ hfinish, andFinally, h]
    simp only [hfinish]

/-- Both parts run, however the first one ends. -/
theorem after_andFinally (body : Action α) (finish : Option Failure → Action Unit)
    (env : Environment) :
    Action.after (andFinally body finish) env =
      (finish (body.failure? env)).after (body.after env) := by
  cases hbody : body env with
  | ok a left =>
    rw [Action.after, andFinally_of_ok hbody, Action.after_of_ok hbody,
      Action.failure?_of_ok hbody]
    show Action.after (finish none >>= fun _ => pure a) left = _
    rw [Action.after_bind]
    cases (finish none).outcome left <;> rfl
  | error failure left =>
    rw [Action.after, andFinally_of_error hbody, Action.after_of_error hbody,
      Action.failure?_of_error hbody]
    show Action.after (finish (some failure) >>= fun _ => throw failure : Action α) left = _
    rw [Action.after_bind]
    cases (finish (some failure)).outcome left <;> rfl

/-- The way out, unless it fails itself, does not change how a computation ends. -/
theorem outcome_andFinally (h : finish (body.failure? env) (body.after env) = .ok () env') :
    Action.outcome (andFinally body finish) env = body.outcome env := by
  cases hbody : body env with
  | ok a left =>
    rw [Action.after_of_ok hbody, Action.failure?_of_ok hbody] at h
    rw [Action.outcome, andFinally_of_ok hbody, Action.run_bind_of_ok _ h,
      Action.outcome_of_ok hbody]
    rfl
  | error failure left =>
    rw [Action.after_of_error hbody, Action.failure?_of_error hbody] at h
    rw [Action.outcome, andFinally_of_error hbody, Action.run_bind_of_ok _ h,
      Action.outcome_of_error hbody]
    rfl

/-- What a computation and its way out maintain, both together do. -/
theorem maintains_andFinally {I : Environment → Prop} {Q : α → Prop}
    (hbody : Action.Maintains I Q body)
    (hfinish : ∀ failure, Action.Maintains I (fun _ => True) (finish failure)) :
    Action.Maintains I Q (andFinally body finish) := by
  intro env henv
  obtain ⟨hleft, hresult⟩ := hbody env henv
  refine ⟨?_, fun a ha => hresult a ?_⟩
  · rw [after_andFinally]
    exact (hfinish _ _ hleft).1
  · cases hrun : body env with
    | ok b left =>
      rw [Action.outcome, andFinally_of_ok hrun] at ha
      have hb : Action.outcome (finish none >>= fun _ => pure b : Action α) left = .ok a := ha
      rw [Action.outcome_bind] at hb
      rw [Action.outcome_of_ok hrun]
      cases hfinished : (finish none).outcome left with
      | ok _ =>
        rw [hfinished] at hb
        exact hb
      | error failure =>
        rw [hfinished] at hb
        cases hb
    | error failure left =>
      rw [Action.outcome, andFinally_of_error hrun] at ha
      have hb : Action.outcome (finish (some failure) >>= fun _ => throw failure : Action α) left =
        .ok a := ha
      rw [Action.outcome_bind] at hb
      cases hfinished : (finish (some failure)).outcome left with
      | ok _ =>
        rw [hfinished] at hb
        cases hb
      | error failure =>
        rw [hfinished] at hb
        cases hb

theorem binding_run (kept : Nat) (pairs : List (String × Value)) (body : Action α)
    (env : Environment) :
    binding kept pairs body env =
      andFinally body
        (fun failure => popAll (released kept (pairs.map Prod.fst) failure).reverse)
        (env.bound pairs) :=
  Action.run_bind_of_ok _ (pushAll_run pairs env)

theorem after_binding (kept : Nat) (pairs : List (String × Value)) (body : Action α)
    (env : Environment) :
    Action.after (binding kept pairs body) env =
      (popAll (released kept (pairs.map Prod.fst)
        (body.failure? (env.bound pairs))).reverse).after (body.after (env.bound pairs)) := by
  rw [← after_andFinally body
    fun failure => popAll (released kept (pairs.map Prod.fst) failure).reverse,
    Action.after, binding_run]
  rfl

theorem outcome_binding
    (h : popAll (released kept (pairs.map Prod.fst) (body.failure? (env.bound pairs))).reverse
      (body.after (env.bound pairs)) = .ok () env') :
    Action.outcome (binding kept pairs body) env = body.outcome (env.bound pairs) := by
  rw [Action.outcome, binding_run]
  exact outcome_andFinally h

/-- Bound values are taken back, whatever the body does, if it restores what it was given. -/
theorem binding_spec (hkept : kept = 0 ∨ body.outcome (env.bound pairs) ≠ .error .depthExceeded)
    (h : Restored (env.bound pairs) (body.after (env.bound pairs))) :
    Action.outcome (binding kept pairs body) env = body.outcome (env.bound pairs) ∧
      Restored env (Action.after (binding kept pairs body) env) := by
  obtain ⟨b, hb, hrun⟩ := popAll_run h.pruned
  rw [← released_eq (pairs.map Prod.fst) hkept] at hrun
  have hfunctions : (body.after (env.bound pairs)).functions = env.functions := h.functions
  refine ⟨outcome_binding hrun, ?_⟩
  rw [after_binding, Action.after_of_ok hrun]
  exact ⟨hfunctions, hb⟩

end

end Environment

end DynLisp
