import DynLisp.Proofs.Environment.Restored
import DynLisp.Proofs.Semantics

/-!
# The scope of an environment

What the names stand for in an environment, which is all that the rules of evaluation see of its
bindings.  A restored environment has the same scope, since a name with an empty stack stands for
nothing, as does one without a stack; and binding names anew overrides the scope.
-/

namespace DynLisp

/-! ## Lookup in entries -/

namespace Bindings

theorem lookup_cons (x y : String) (vs : List Value) (l : List (String × List Value)) :
    List.lookup x ((y, vs) :: l) = if x = y then some vs else l.lookup x := by
  rw [List.lookup_cons]
  by_cases h : x = y
  · rw [if_pos h, beq_iff_eq.2 h]
  · rw [if_neg h, beq_false_of_ne h]

theorem lookup_of_not_mem_names {x : String} {l : List (String × List Value)}
    (h : x ∉ l.map Prod.fst) : l.lookup x = none := by
  rw [List.lookup_eq_none_iff]
  intro entry hentry
  rw [bne_iff_ne]
  rintro rfl
  exact h (List.mem_map_of_mem hentry)

/-- A name with an empty stack that disappears had no values before. -/
theorem Pruned.stack_eq {l m : List (String × List Value)} (h : Pruned l m)
    (hdistinct : (l.map Prod.fst).Nodup) (x : String) :
    (m.lookup x).getD [] = (l.lookup x).getD [] := by
  induction h with
  | nil => rfl
  | keep entry h ih =>
    obtain ⟨y, vs⟩ := entry
    rw [lookup_cons, lookup_cons]
    by_cases hx : x = y
    · rw [if_pos hx, if_pos hx]
    · rw [if_neg hx, if_neg hx]
      exact ih (List.nodup_cons.1 hdistinct).2
  | drop y h ih =>
    have hrest := ih (List.nodup_cons.1 hdistinct).2
    rw [hrest, lookup_cons]
    by_cases hx : x = y
    · rw [if_pos hx, lookup_of_not_mem_names (hx ▸ (List.nodup_cons.1 hdistinct).1)]
      rfl
    · rw [if_neg hx]

/-- A value that a name stands for is on some stack. -/
theorem exists_of_lookup? {b : Bindings} {x : String} {v : Value} (h : b.lookup? x = some v) :
    ∃ vs, (x, vs) ∈ b.entries ∧ v ∈ vs := by
  rw [lookup?, stack] at h
  cases hx : b.entries.lookup x with
  | none =>
    rw [hx] at h
    cases h
  | some vs =>
    rw [hx, Option.getD_some] at h
    obtain ⟨before, after, hsplit, -⟩ := List.lookup_eq_some_iff.1 hx
    exact ⟨vs, by rw [hsplit]; simp, List.mem_of_mem_head? h⟩

/-- All values are of some sort if the one that is pushed is and all that were there are. -/
theorem forall_mem_pushEntry {P : Value → Prop} {x : String} {v : Value}
    {l : List (String × List Value)} (hv : P v) (hl : ∀ entry ∈ l, ∀ w ∈ entry.2, P w) :
    ∀ entry ∈ pushEntry x v l, ∀ w ∈ entry.2, P w := by
  fun_induction pushEntry x v l with
  | case1 => simpa using hv
  | case2 vs rest =>
    obtain ⟨hvs, hrest⟩ := List.forall_mem_cons.1 hl
    exact List.forall_mem_cons.2 ⟨List.forall_mem_cons.2 ⟨hv, hvs⟩, hrest⟩
  | case3 y vs rest hne ih =>
    obtain ⟨hvs, hrest⟩ := List.forall_mem_cons.1 hl
    exact List.forall_mem_cons.2 ⟨hvs, ih hrest⟩

theorem forall_mem_popEntry {P : Value → Prop} {x : String} {l : List (String × List Value)}
    (hl : ∀ entry ∈ l, ∀ w ∈ entry.2, P w) :
    ∀ entry ∈ (popEntry x l).2, ∀ w ∈ entry.2, P w := by
  fun_induction popEntry x l with
  | case1 => simp
  | case2 rest => exact hl
  | case3 rest v => exact (List.forall_mem_cons.1 hl).2
  | case4 rest v w vs =>
    obtain ⟨hvs, hrest⟩ := List.forall_mem_cons.1 hl
    exact List.forall_mem_cons.2 ⟨(List.forall_mem_cons.1 hvs).2, hrest⟩
  | case5 y vs rest hne w rest' heq ih =>
    obtain ⟨hvs, hrest⟩ := List.forall_mem_cons.1 hl
    rw [heq] at ih
    exact List.forall_mem_cons.2 ⟨hvs, ih hrest⟩

theorem stack_pushEntry (x y : String) (v : Value) (l : List (String × List Value)) :
    ((pushEntry x v l).lookup y).getD [] =
      if y = x then v :: (l.lookup y).getD [] else (l.lookup y).getD [] := by
  fun_induction pushEntry x v l with
  | case1 =>
    rw [lookup_cons]
    by_cases h : y = x
    · rw [if_pos h, if_pos h]
      rfl
    · rw [if_neg h, if_neg h]
  | case2 vs rest =>
    rw [lookup_cons, lookup_cons]
    by_cases h : y = x
    · rw [if_pos h, if_pos h, if_pos h]
      rfl
    · rw [if_neg h, if_neg h, if_neg h]
  | case3 z vs rest hne ih =>
    rw [lookup_cons, lookup_cons]
    by_cases h : y = z
    · rw [if_pos h, if_pos h, if_neg (h ▸ hne)]
    · rw [if_neg h, if_neg h, ih]

/-- A value that is pushed is what its name stands for, and nothing changes for other names. -/
theorem lookup?_push (b : Bindings) (x : String) (v : Value) :
    (b.push x v).lookup? = Function.update b.lookup? x (some v) := by
  funext y
  rw [Function.update_apply]
  show (((pushEntry x v b.entries).lookup y).getD []).head? = _
  rw [stack_pushEntry]
  by_cases h : y = x
  · rw [if_pos h, if_pos h]
    rfl
  · rw [if_neg h, if_neg h]
    rfl

end Bindings

/-! ## Scopes -/

namespace Environment

/-- What the names stand for. -/
def scope (env : Environment) : Scope := env.bindings.lookup?

theorem Restored.stack {before after : Environment} (h : Restored before after) (x : String) :
    after.bindings.stack x = before.bindings.stack x :=
  h.pruned.stack_eq before.bindings.distinct x

theorem Restored.scope {before after : Environment} (h : Restored before after) :
    after.scope = before.scope :=
  funext fun x => congrArg List.head? (h.stack x)

theorem scope_bound (env : Environment) (pairs : List (String × Value)) :
    (env.bound pairs).scope = env.scope.override pairs := by
  induction pairs generalizing env with
  | nil => rfl
  | cons pair pairs ih =>
    obtain ⟨x, v⟩ := pair
    show (bound { env with bindings := env.bindings.push x v } pairs).scope = _
    rw [ih, Scope.override]
    show Scope.override (env.bindings.push x v).lookup? pairs = _
    rw [Bindings.lookup?_push]
    rfl

theorem outcome_lookup (x : String) (env : Environment) :
    (lookup x).outcome env =
      match env.scope x with
      | some v => .ok v
      | none => .error (Fault.unboundVariable x).failure := by
  show (match env.scope x with
    | some v => (pure v : Action Value)
    | none => throw (Fault.unboundVariable x).failure).outcome env = _
  cases env.scope x <;> rfl

theorem outcome_function (f : String) (env : Environment) :
    (function f).outcome env =
      match env.functions.lookup f with
      | some definition => .ok definition
      | none => .error (Fault.undefinedFunction f).failure := by
  show (match env.functions.lookup f with
    | some definition => (pure definition : Action Definition)
    | none => throw (Fault.undefinedFunction f).failure).outcome env = _
  cases env.functions.lookup f <;> rfl

end Environment

end DynLisp
