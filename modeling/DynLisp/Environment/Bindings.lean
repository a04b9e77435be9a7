import DynLisp.Value

/-!
# Bindings

What variables stand for.  Every name has a stack of values, and it stands for the top one; pushing
binds a name anew and popping brings back what it stood for before.

The names that are bound are kept in order: a name comes last when it is first bound, and leaves
when its stack is popped empty.  Popping a name that is not bound fails, and leaves the name behind
with an empty stack, at the end of the order if it was not there yet; an empty stack binds nothing.

No name stands in the order twice.  `Bindings` carries this, and pushing and popping keep it.
-/

namespace DynLisp

/-- The stacks of values of some names, in the order of the names, each of which stands there once.
The top of a stack is its head. -/
@[ext]
structure Bindings where
  entries : List (String × List Value)
  distinct : (entries.map Prod.fst).Nodup
  deriving DecidableEq, Repr

namespace Bindings

/-- No name is bound. -/
def empty : Bindings := ⟨[], List.nodup_nil⟩

instance : Inhabited Bindings := ⟨empty⟩

/-! ## Looking up -/

/-- The values that a name is bound to, the most recent first. -/
def stack (b : Bindings) (x : String) : List Value := (b.entries.lookup x).getD []

/-- The value that a name stands for. -/
def lookup? (b : Bindings) (x : String) : Option Value := (b.stack x).head?

/-- How often a name is bound. -/
def depth (b : Bindings) (x : String) : Nat := (b.stack x).length

/-! ## Pushing -/

/-- The entries with one more value for a name. -/
def pushEntry (x : String) (v : Value) : List (String × List Value) → List (String × List Value)
  | [] => [(x, [v])]
  | (y, vs) :: rest =>
    if y = x then (y, v :: vs) :: rest else (y, vs) :: pushEntry x v rest

theorem mem_names_pushEntry {x y : String} {v : Value} {l : List (String × List Value)} :
    y ∈ (pushEntry x v l).map Prod.fst ↔ y = x ∨ y ∈ l.map Prod.fst := by
  fun_induction pushEntry x v l with
  | case1 => simp
  | case2 => simp
  | case3 z vs rest _ ih =>
    rw [List.map_cons, List.mem_cons, ih, List.map_cons, List.mem_cons, or_left_comm]

theorem nodup_names_pushEntry {x : String} {v : Value} {l : List (String × List Value)}
    (h : (l.map Prod.fst).Nodup) : ((pushEntry x v l).map Prod.fst).Nodup := by
  fun_induction pushEntry x v l with
  | case1 => simp
  | case2 => exact h
  | case3 z vs rest hne ih =>
    rw [List.map_cons, List.nodup_cons] at h ⊢
    refine ⟨fun hmem => ?_, ih h.2⟩
    exact (mem_names_pushEntry.1 hmem).elim hne h.1

/-- Binds a name to a value. -/
def push (b : Bindings) (x : String) (v : Value) : Bindings :=
  ⟨pushEntry x v b.entries, nodup_names_pushEntry b.distinct⟩

/-! ## Popping -/

/-- The value that a name stands for and the entries without it, or no value and the entries in
which the name has an empty stack. -/
def popEntry (x : String) :
    List (String × List Value) → Option Value × List (String × List Value)
  | [] => (none, [(x, [])])
  | (y, vs) :: rest =>
    if y = x then
      match vs with
      | [] => (none, (y, []) :: rest)
      | [v] => (some v, rest)
      | v :: w :: vs => (some v, (y, w :: vs) :: rest)
    else
      let (v, rest) := popEntry x rest
      (v, (y, vs) :: rest)

theorem eq_or_mem_of_mem_names_popEntry {x y : String} {l : List (String × List Value)}
    (h : y ∈ (popEntry x l).2.map Prod.fst) : y = x ∨ y ∈ l.map Prod.fst := by
  fun_induction popEntry x l with
  | case1 => simpa using h
  | case2 => exact .inr h
  | case3 => exact .inr (List.mem_cons_of_mem _ h)
  | case4 => exact .inr h
  | case5 z vs rest _ w rest' heq ih =>
    rw [heq] at ih
    rw [List.map_cons, List.mem_cons] at h ⊢
    exact h.elim (fun hz => .inr (.inl hz)) fun hy => (ih hy).imp_right .inr

theorem nodup_names_popEntry {x : String} {l : List (String × List Value)}
    (h : (l.map Prod.fst).Nodup) : ((popEntry x l).2.map Prod.fst).Nodup := by
  fun_induction popEntry x l with
  | case1 => simp
  | case2 => exact h
  | case3 => exact (List.nodup_cons.1 h).2
  | case4 => exact h
  | case5 z vs rest hne w rest' heq ih =>
    rw [heq] at ih
    rw [List.map_cons, List.nodup_cons] at h ⊢
    refine ⟨fun hmem => ?_, ih h.2⟩
    exact (eq_or_mem_of_mem_names_popEntry (heq ▸ hmem)).elim hne h.1

/-- Takes the value that a name stands for from its stack. -/
def pop (b : Bindings) (x : String) : Option Value × Bindings :=
  ((popEntry x b.entries).1, ⟨(popEntry x b.entries).2, nodup_names_popEntry b.distinct⟩)

end Bindings

end DynLisp
