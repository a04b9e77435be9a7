import DynLisp.Proofs.Environment.Scope
import Mathlib.Data.List.Zip

/-!
# Leaving a block

`Environment.binding` takes its bindings back by popping their names in reverse, and nothing keeps
the body from pushing and popping the same names in the meantime.  What leaving does is therefore
said without a word about what the body is: it takes as many values off each name as there were
pairs for that name, and nothing else happens (`Bindings.unbind`).  No pop fails as long as every
name still has that many values, and then the pops come to the same in whatever order they are made
(`popAll_of_count_le`).

The values that go are the topmost ones, which are those of the block only if the body has left them
where they were.  A body that leaves the bindings as it finds them does so, and then the bindings
are the ones before the block, in the same order (`Environment.binding_leaves`).
-/

namespace DynLisp

open DynLisp.Action

variable {α : Type} {xs ys : List String}

namespace Bindings

/-! ## Taking values off -/

/-- Entries less one value for every time that a name stands in `xs`.  A name goes with its last
value. -/
def unbindEntries (xs : List String) : List (String × List Value) → List (String × List Value)
  | [] => []
  | (x, vs) :: l =>
    if x ∈ xs ∧ vs.length ≤ xs.count x then unbindEntries xs l
    else (x, vs.drop (xs.count x)) :: unbindEntries xs l

section

variable {x : String} {vs : List Value} {l : List (String × List Value)}

theorem unbindEntries_cons_of_le (hx : x ∈ xs) (hle : vs.length ≤ xs.count x) :
    unbindEntries xs ((x, vs) :: l) = unbindEntries xs l :=
  if_pos ⟨hx, hle⟩

theorem unbindEntries_cons_of_lt (hlt : xs.count x < vs.length) :
    unbindEntries xs ((x, vs) :: l) = (x, vs.drop (xs.count x)) :: unbindEntries xs l :=
  if_neg fun h => absurd h.2 (Nat.not_le.2 hlt)

theorem unbindEntries_cons_of_not_mem (hx : x ∉ xs) :
    unbindEntries xs ((x, vs) :: l) = (x, vs) :: unbindEntries xs l := by
  rw [unbindEntries, if_neg fun h => hx h.1, List.count_eq_zero_of_not_mem hx, List.drop_zero]

/-- The names stay in their order, those without their last value left out. -/
theorem names_unbindEntries_sublist (xs : List String) (l : List (String × List Value)) :
    ((unbindEntries xs l).map Prod.fst).Sublist (l.map Prod.fst) := by
  induction l with
  | nil => exact .slnil
  | cons entry l ih =>
    obtain ⟨x, vs⟩ := entry
    by_cases hx : x ∈ xs
    · rcases Nat.lt_or_ge (xs.count x) vs.length with hlt | hle
      · rw [unbindEntries_cons_of_lt hlt]
        exact ih.cons_cons x
      · rw [unbindEntries_cons_of_le hx hle]
        exact ih.cons x
    · rw [unbindEntries_cons_of_not_mem hx]
      exact ih.cons_cons x

/-- Names that have no entry give up nothing. -/
theorem unbindEntries_of_disjoint (h : ∀ y ∈ l.map Prod.fst, y ∉ xs) : unbindEntries xs l = l := by
  induction l with
  | nil => rfl
  | cons entry l ih =>
    rw [List.map_cons, List.forall_mem_cons] at h
    rw [unbindEntries_cons_of_not_mem h.1, ih h.2]

/-- To take values off twice is to take them off together. -/
theorem unbindEntries_unbindEntries (xs ys : List String) (l : List (String × List Value)) :
    unbindEntries ys (unbindEntries xs l) = unbindEntries (xs ++ ys) l := by
  induction l with
  | nil => rfl
  | cons entry l ih =>
    obtain ⟨x, vs⟩ := entry
    have hcount : (xs ++ ys).count x = xs.count x + ys.count x := List.count_append
    by_cases hx : x ∈ xs
    · rcases Nat.lt_or_ge (xs.count x) vs.length with hlt | hle
      · rw [unbindEntries_cons_of_lt hlt]
        have hlength : (vs.drop (xs.count x)).length = vs.length - xs.count x := List.length_drop
        rcases Nat.lt_or_ge ((xs ++ ys).count x) vs.length with hlt' | hle'
        · rw [unbindEntries_cons_of_lt hlt', unbindEntries_cons_of_lt (by omega), ih, hcount,
            List.drop_drop]
        · have hy : x ∈ ys := List.count_pos_iff.1 (by omega)
          rw [unbindEntries_cons_of_le (List.mem_append_right xs hy) hle',
            unbindEntries_cons_of_le hy (by omega), ih]
      · rw [unbindEntries_cons_of_le hx hle,
          unbindEntries_cons_of_le (List.mem_append_left ys hx) (by omega), ih]
    · rw [unbindEntries_cons_of_not_mem hx]
      rw [List.count_eq_zero_of_not_mem hx, Nat.zero_add] at hcount
      by_cases hy : x ∈ ys
      · rcases Nat.lt_or_ge (ys.count x) vs.length with hlt | hle
        · rw [unbindEntries_cons_of_lt hlt, unbindEntries_cons_of_lt (hcount ▸ hlt), ih, hcount]
        · rw [unbindEntries_cons_of_le hy hle,
            unbindEntries_cons_of_le (List.mem_append_right xs hy) (hcount ▸ hle), ih]
      · rw [unbindEntries_cons_of_not_mem hy,
          unbindEntries_cons_of_not_mem fun h => (List.mem_append.1 h).elim hx hy, ih]

/-- What is taken off does not depend on the order of the names. -/
theorem unbindEntries_perm (h : xs.Perm ys) (l : List (String × List Value)) :
    unbindEntries xs l = unbindEntries ys l := by
  induction l with
  | nil => rfl
  | cons entry l ih => simp only [unbindEntries, h.count_eq, h.mem_iff, ih]

theorem mem_unbindEntries_iff (hx : x ∉ xs) :
    (x, vs) ∈ unbindEntries xs l ↔ (x, vs) ∈ l := by
  induction l with
  | nil => rfl
  | cons entry l ih =>
    obtain ⟨y, ws⟩ := entry
    by_cases hy : y ∈ xs
    · have hne : ∀ us, (x, vs) ≠ (y, us) := fun us h => hx ((Prod.mk.inj h).1 ▸ hy)
      rcases Nat.lt_or_ge (xs.count y) ws.length with hlt | hle
      · rw [unbindEntries_cons_of_lt hlt, List.mem_cons, List.mem_cons, ih,
          or_iff_right (hne _), or_iff_right (hne _)]
      · rw [unbindEntries_cons_of_le hy hle, ih, List.mem_cons, or_iff_right (hne _)]
    · rw [unbindEntries_cons_of_not_mem hy, List.mem_cons, List.mem_cons, ih]

theorem stack_unbindEntries (hdistinct : (l.map Prod.fst).Nodup) (x : String) :
    ((unbindEntries xs l).lookup x).getD [] = ((l.lookup x).getD []).drop (xs.count x) := by
  induction l with
  | nil => exact List.drop_nil.symm
  | cons entry l ih =>
    obtain ⟨y, vs⟩ := entry
    rw [List.map_cons, List.nodup_cons] at hdistinct
    have hkept : ∀ ws : List Value, vs.drop (xs.count y) = ws →
        (((y, ws) :: unbindEntries xs l).lookup x).getD [] =
          ((((y, vs) :: l).lookup x).getD []).drop (xs.count x) := by
      rintro ws rfl
      rw [lookup_cons, lookup_cons]
      by_cases hx : x = y
      · rw [if_pos hx, if_pos hx, hx]
        rfl
      · rw [if_neg hx, if_neg hx, ih hdistinct.2]
    by_cases hy : y ∈ xs
    · rcases Nat.lt_or_ge (xs.count y) vs.length with hlt | hle
      · rw [unbindEntries_cons_of_lt hlt]
        exact hkept _ rfl
      · rw [unbindEntries_cons_of_le hy hle, ih hdistinct.2, lookup_cons]
        by_cases hx : x = y
        · -- the name is gone, and stands nowhere else
          rw [if_pos hx, hx, lookup_of_not_mem_names hdistinct.1, Option.getD_some,
            List.drop_eq_nil_of_le hle]
          exact List.drop_nil
        · rw [if_neg hx]
    · rw [unbindEntries_cons_of_not_mem hy]
      refine hkept vs ?_
      rw [List.count_eq_zero_of_not_mem hy, List.drop_zero]

/-- A pop takes one value off a name that has one. -/
theorem popEntry_eq_unbindEntries (hdistinct : (l.map Prod.fst).Nodup)
    (h : (l.lookup x).getD [] ≠ []) :
    ∃ v, popEntry x l = (some v, unbindEntries [x] l) := by
  have hcount : [x].count x = 1 := List.count_singleton_self
  fun_induction popEntry x l with
  | case1 => exact absurd rfl h
  | case2 rest =>
    rw [lookup_cons, if_pos rfl] at h
    exact absurd rfl h
  | case3 rest v =>
    rw [List.map_cons, List.nodup_cons] at hdistinct
    refine ⟨v, ?_⟩
    rw [unbindEntries_cons_of_le (List.mem_singleton_self x) (by rw [hcount]; rfl),
      unbindEntries_of_disjoint]
    rintro y hy hmem
    exact hdistinct.1 (List.mem_singleton.1 hmem ▸ hy)
  | case4 rest v w vs =>
    rw [List.map_cons, List.nodup_cons] at hdistinct
    have hlength : [x].count x < (v :: w :: vs).length := by
      rw [hcount, List.length_cons, List.length_cons]
      omega
    refine ⟨v, ?_⟩
    rw [unbindEntries_cons_of_lt hlength, hcount, unbindEntries_of_disjoint]
    · rfl
    · rintro y hy hmem
      exact hdistinct.1 (List.mem_singleton.1 hmem ▸ hy)
  | case5 y vs rest hne w rest' heq ih =>
    rw [List.map_cons, List.nodup_cons] at hdistinct
    rw [lookup_cons, if_neg (Ne.symm hne)] at h
    obtain ⟨v, hv⟩ := ih hdistinct.2 h
    obtain ⟨rfl, rfl⟩ := Prod.mk.inj (heq.symm.trans hv)
    refine ⟨v, ?_⟩
    rw [unbindEntries_cons_of_not_mem fun hy => hne (List.mem_singleton.1 hy)]

end

/-- Bindings less one value for every time that a name stands in `xs`. -/
def unbind (b : Bindings) (xs : List String) : Bindings :=
  ⟨unbindEntries xs b.entries, (names_unbindEntries_sublist xs b.entries).nodup b.distinct⟩

theorem stack_unbind (b : Bindings) (xs : List String) (x : String) :
    (b.unbind xs).stack x = (b.stack x).drop (xs.count x) :=
  stack_unbindEntries b.distinct x

theorem unbind_nil (b : Bindings) : b.unbind [] = b := by
  ext1
  exact unbindEntries_of_disjoint fun _ _ => List.not_mem_nil

theorem unbind_unbind (b : Bindings) (xs ys : List String) :
    (b.unbind xs).unbind ys = b.unbind (xs ++ ys) := by
  ext1
  exact unbindEntries_unbindEntries xs ys b.entries

theorem unbind_perm (b : Bindings) (h : xs.Perm ys) : b.unbind xs = b.unbind ys := by
  ext1
  exact unbindEntries_perm h b.entries

theorem pop_eq_unbind {b : Bindings} {x : String} (h : b.stack x ≠ []) :
    ∃ v, b.pop x = (some v, b.unbind [x]) := by
  obtain ⟨v, hv⟩ := popEntry_eq_unbindEntries b.distinct h
  refine ⟨v, ?_⟩
  rw [pop, unbind]
  simp only [hv]

/-- Names that are bound get one value more for each pair. -/
theorem depth_pushAll (b : Bindings) (pairs : List (String × Value)) (x : String) :
    (b.pushAll pairs).depth x = b.depth x + (pairs.map Prod.fst).count x := by
  induction pairs generalizing b with
  | nil => rfl
  | cons pair pairs ih =>
    obtain ⟨y, v⟩ := pair
    have hpush : (b.push y v).depth x = b.depth x + if y == x then 1 else 0 := by
      show (((pushEntry y v b.entries).lookup x).getD []).length = _
      rw [stack_pushEntry]
      by_cases hx : x = y
      · rw [if_pos hx, if_pos (beq_iff_eq.2 hx.symm)]
        rfl
      · rw [if_neg hx, if_neg fun h => hx (beq_iff_eq.1 h).symm]
        rfl
    show ((b.push y v).pushAll pairs).depth x = _
    rw [ih, hpush, List.map_cons, List.count_cons, Nat.add_right_comm, Nat.add_assoc]

end Bindings

/-! ## Popping names -/

namespace Environment

/-- Names that have enough values are all popped, in whatever order they come. -/
theorem popAll_of_count_le {env : Environment}
    (h : ∀ x, xs.count x ≤ env.bindings.depth x) :
    popAll xs env = .ok () { env with bindings := env.bindings.unbind xs } := by
  induction xs generalizing env with
  | nil => rw [Bindings.unbind_nil]; rfl
  | cons x xs ih =>
    have hx : env.bindings.stack x ≠ [] := by
      rw [← List.length_pos_iff]
      refine Nat.lt_of_lt_of_le ?_ (h x)
      rw [List.count_cons_self]
      exact Nat.succ_pos _
    obtain ⟨v, hv⟩ := Bindings.pop_eq_unbind hx
    have hpop : pop x env = .ok v { env with bindings := env.bindings.unbind [x] } := by
      rw [pop_run (by rw [hv]), hv]
    have hrest : ∀ y, xs.count y ≤ (env.bindings.unbind [x]).depth y := by
      intro y
      have hy := h y
      rw [List.count_cons] at hy
      rw [Bindings.depth, Bindings.stack_unbind, List.length_drop, List.count_singleton]
      rw [Bindings.depth] at hy
      omega
    have hdiscard : (discard (pop x) : Action PUnit) env =
        .ok () { env with bindings := env.bindings.unbind [x] } := by
      rw [discard_eq]
      exact run_bind_of_ok _ hpop
    refine (run_bind_of_ok _ hdiscard).trans ?_
    refine (@ih { env with bindings := env.bindings.unbind [x] } hrest).trans ?_
    rw [Bindings.unbind_unbind]
    rfl

theorem popAll_reverse_of_count_le {env : Environment}
    (h : ∀ x, xs.count x ≤ env.bindings.depth x) :
    popAll xs.reverse env = .ok () { env with bindings := env.bindings.unbind xs } := by
  rw [popAll_of_count_le fun x => Nat.le_trans (Nat.le_of_eq List.count_reverse) (h x),
    Bindings.unbind_perm _ (List.reverse_perm xs)]

/-- Taking back what was bound leaves the bindings of before, in their order. -/
theorem unbind_bound {env : Environment} {pairs : List (String × Value)}
    (hne : ∀ entry ∈ env.bindings.entries, entry.2 ≠ []) :
    (env.bound pairs).bindings.unbind (pairs.map Prod.fst) = env.bindings := by
  obtain ⟨b, hb, hpop⟩ := popAll_run (Bindings.Pruned.refl (env.bound pairs).bindings.entries)
  have hcount : ∀ x, (pairs.map Prod.fst).count x ≤ (env.bound pairs).bindings.depth x := by
    intro x
    have hdepth : (env.bound pairs).bindings.depth x = _ :=
      Bindings.depth_pushAll env.bindings pairs x
    omega
  have hunbind : (env.bound pairs).bindings.unbind (pairs.map Prod.fst) = b :=
    congrArg Environment.bindings
      (EStateM.Result.ok.inj ((popAll_reverse_of_count_le hcount).symm.trans hpop)).2
  rw [hunbind]
  exact hb.bindings_eq hne

/-- On the way out of a block the names that are released are popped, and the block ends as its body
does. -/
theorem binding_of_count_le {kept : Nat} {pairs : List (String × Value)} {body : Action α}
    {env : Environment}
    (h : ∀ x, (released kept (pairs.map Prod.fst) (body.failure? (env.bound pairs))).count x ≤
      (body.after (env.bound pairs)).bindings.depth x) :
    Action.outcome (binding kept pairs body) env = body.outcome (env.bound pairs) ∧
      Action.after (binding kept pairs body) env =
        { body.after (env.bound pairs) with
          bindings := (body.after (env.bound pairs)).bindings.unbind
            (released kept (pairs.map Prod.fst) (body.failure? (env.bound pairs))) } := by
  have hpop := popAll_reverse_of_count_le h
  exact ⟨outcome_binding hpop, (after_binding kept pairs body env).trans (after_of_ok hpop)⟩

/-- What is released was bound. -/
theorem count_released_le (kept : Nat) (names : List String) (failure : Option Failure)
    (x : String) : (released kept names failure).count x ≤ names.count x := by
  unfold released
  split
  · exact (List.drop_sublist kept names).count_le x
  · exact Nat.le_refl _

/-- **Leaving a block takes back just what entering it has bound.**  The body may be anything at
all, as long as it leaves each name that was bound with as many values as it found.  Then the block
ends as its body does.  From the top of each name's stack go as many values as there are pairs for
that name, entries of other names stay as they are, in the order of before, and so does all else
that the body has left.  If the body leaves the bindings as it found them, and no name had an empty
stack before the block, then the bindings are those before the block.  Only where the body fails
because calls are nested too deeply may the first pairs stay, and just these. -/
theorem binding_leaves (kept : Nat) (names : List String) (values : List Value) (body : Action α)
    (env : Environment)
    (h : ∀ x ∈ (names.zip values).map Prod.fst,
      (env.bound (names.zip values)).bindings.depth x ≤
        (body.after (env.bound (names.zip values))).bindings.depth x) :
    let inside := env.bound (names.zip values)
    let left := body.after inside
    let after := Action.after (binding kept (names.zip values) body) env
    let bound := names.take (min names.length values.length)
    let gone := released kept bound (body.failure? inside)
    Action.outcome (binding kept (names.zip values) body) env = body.outcome inside ∧
      (kept = 0 ∨ body.outcome inside ≠ .error .depthExceeded → gone = bound) ∧
      (∀ x, ∃ taken, taken.length = gone.count x ∧
        left.bindings.stack x = taken ++ after.bindings.stack x) ∧
      (after.bindings.entries.map Prod.fst).Sublist (left.bindings.entries.map Prod.fst) ∧
      (∀ x ∉ bound, ∀ vs, (x, vs) ∈ after.bindings.entries ↔ (x, vs) ∈ left.bindings.entries) ∧
      after.functions = left.functions ∧ after.notices = left.notices ∧
      (gone = bound → left.bindings = inside.bindings →
        (∀ entry ∈ env.bindings.entries, entry.2 ≠ []) → after.bindings = env.bindings) := by
  intro inside left after bound gone
  have hbound : (names.zip values).map Prod.fst = bound := by
    rw [List.zip_eq_zip_take_min, List.map_fst_zip]
    simp
  have hgone : released kept ((names.zip values).map Prod.fst) (body.failure? inside) = gone := by
    rw [hbound]
  have hcount : ∀ x, gone.count x ≤ left.bindings.depth x := by
    intro x
    have hle : gone.count x ≤ bound.count x := count_released_le kept bound _ x
    by_cases hx : x ∈ (names.zip values).map Prod.fst
    · have hdepth : inside.bindings.depth x = _ :=
        Bindings.depth_pushAll env.bindings (names.zip values) x
      have hleft : inside.bindings.depth x ≤ left.bindings.depth x := h x hx
      rw [hbound] at hdepth
      omega
    · rw [hbound] at hx
      rw [List.count_eq_zero_of_not_mem hx] at hle
      exact Nat.le_trans hle (Nat.zero_le _)
  obtain ⟨houtcome, hafter⟩ := @binding_of_count_le _ kept (names.zip values) body env
    (hgone.symm ▸ hcount)
  have hafter : after = { left with bindings := left.bindings.unbind gone } := by
    rw [← hgone]
    exact hafter
  refine ⟨houtcome, fun hkept => released_eq bound hkept,
    fun x => ⟨(left.bindings.stack x).take (gone.count x), ?_, ?_⟩, ?_,
    fun x hx vs => ?_, ?_, ?_, fun hall hsame hne => ?_⟩
  · exact List.length_take_of_le (hcount x)
  · rw [hafter, Bindings.stack_unbind, List.take_append_drop]
  · rw [hafter]
    exact Bindings.names_unbindEntries_sublist gone left.bindings.entries
  · rw [hafter]
    refine Bindings.mem_unbindEntries_iff fun hmem => hx ?_
    rw [← List.count_pos_iff] at hmem ⊢
    exact Nat.lt_of_lt_of_le hmem (count_released_le kept bound _ x)
  · rw [hafter]
  · rw [hafter]
  · rw [hafter]
    show left.bindings.unbind gone = env.bindings
    rw [hsame, hall, ← hbound]
    exact unbind_bound hne

/-- A name that is bound twice, and one that gets no value.  The first body binds one of the names
once more and then fails, so the value that it has pushed goes in place of one that was bound on
entry.  The second body looks a name up.  The third one fails as nested calls do, and the first
binding stays. -/
theorem binding_leaves_repeated :
    let names := ["x", "y", "x", "z"]
    let values := [Value.number 1, .number 2, .number 3]
    let env : Environment := ⟨⟨[("z", [.boolean true]), ("x", [.number 7])], by decide⟩, [], []⟩
    let fails : Action Value := do
      push "x" (.number 9)
      pop "w"
    let stops : Action Value := throw .depthExceeded
    (∀ x ∈ (names.zip values).map Prod.fst,
        (env.bound (names.zip values)).bindings.depth x ≤
          (fails.after (env.bound (names.zip values))).bindings.depth x) ∧
      Action.outcome (binding 1 (names.zip values) fails) env = .error .emptyStack ∧
      (∃ taken, taken.length = 2 ∧ [.number 9, .number 3, .number 1, .number 7] =
        taken ++ (Action.after (binding 1 (names.zip values) fails) env).bindings.stack "x") ∧
      (("z", [.boolean true]) ∈
          (Action.after (binding 1 (names.zip values) fails) env).bindings.entries ∧
        ("w", []) ∈ (Action.after (binding 1 (names.zip values) fails) env).bindings.entries) ∧
      (Action.after (binding 1 (names.zip values) (lookup "y")) env).bindings = env.bindings ∧
      ∃ taken, taken.length = 1 ∧ [.number 3, .number 1, .number 7] =
        taken ++ (Action.after (binding 1 (names.zip values) stops) env).bindings.stack "x" := by
  intro names values env fails stops
  have hdepth : ∀ x ∈ (names.zip values).map Prod.fst,
      (env.bound (names.zip values)).bindings.depth x ≤
        (fails.after (env.bound (names.zip values))).bindings.depth x := by decide +kernel
  obtain ⟨houtcome, hgone, htaken, -, hothers, -, -, -⟩ :=
    binding_leaves 1 names values fails env hdepth
  obtain ⟨-, -, -, -, -, -, -, hsame⟩ :=
    binding_leaves 1 names values (lookup "y") env (by decide +kernel)
  obtain ⟨-, -, hstops, -, -, -, -, -⟩ :=
    binding_leaves 1 names values stops env (by decide +kernel)
  refine ⟨hdepth, houtcome.trans (by rfl), ?_, ⟨?_, ?_⟩, hsame (by rfl) (by rfl) (by decide), ?_⟩
  · obtain ⟨taken, hlength, hstack⟩ := htaken "x"
    exact ⟨taken, hlength.trans (by decide), hstack⟩
  · exact (hothers "z" (by decide) _).2 (by decide +kernel)
  · exact (hothers "w" (by decide) _).2 (by decide +kernel)
  · obtain ⟨taken, hlength, hstack⟩ := hstops "x"
    exact ⟨taken, hlength.trans (by decide), hstack⟩

end Environment

end DynLisp
