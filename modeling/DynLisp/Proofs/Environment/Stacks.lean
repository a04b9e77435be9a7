import DynLisp.Proofs.Environment.Scope

/-!
# One stack for each name

Bindings against what they stand for, which is one list of values for each name (`Stacks`).  The
entries hold more than the lists: a name that is popped without having a value stays behind with an
empty stack, and the names have an order.  Both are a matter of what was done to the bindings, and
so they are said of a `History`, the pushes and pops that were made, the most recent first.

* The stack of a name is what the pushes and pops of that name make of it.
* An empty stack stands under a name if and only if its last push or pop was a pop that failed.
* One name stands before another if and only if it has been there since some time at which the
  other was not.

`History.describes_replay` has all of this for every history.  What follows a push or a pop is found
by looking names up in the entries (`Bindings.lookup_pushEntry`, `Bindings.lookup_popEntry`).
-/

namespace DynLisp

/-! ## Looking up in the entries -/

namespace Bindings

variable {x y : String} {vs : List Value} {l : List (String × List Value)}

theorem mem_names_iff_lookup : x ∈ l.map Prod.fst ↔ ∃ vs, l.lookup x = some vs := by
  rw [← Option.ne_none_iff_exists']
  refine ⟨fun hx hnone => ?_, fun h => not_not.1 (mt lookup_of_not_mem_names h)⟩
  obtain ⟨entry, hentry, rfl⟩ := List.mem_map.1 hx
  have hne := List.lookup_eq_none_iff.1 hnone entry hentry
  rw [bne_iff_ne] at hne
  exact hne rfl

theorem mem_iff_lookup (hdistinct : (l.map Prod.fst).Nodup) :
    (x, vs) ∈ l ↔ l.lookup x = some vs := by
  induction l with
  | nil =>
    rw [List.lookup_nil]
    exact iff_of_false List.not_mem_nil (Option.some_ne_none vs).symm
  | cons entry l ih =>
    obtain ⟨y, ws⟩ := entry
    rw [List.map_cons, List.nodup_cons] at hdistinct
    rw [lookup_cons, List.mem_cons, ih hdistinct.2]
    by_cases hx : x = y
    · have hnone : l.lookup x = none := lookup_of_not_mem_names (hx ▸ hdistinct.1)
      rw [if_pos hx, hnone, hx, Prod.mk.injEq, eq_self, true_and, Option.some.injEq,
        eq_comm]
      exact or_iff_left (Option.some_ne_none vs).symm
    · rw [if_neg hx, Prod.mk.injEq]
      exact or_iff_right fun h => hx h.1

theorem lookup_pushEntry (x y : String) (v : Value) (l : List (String × List Value)) :
    (pushEntry x v l).lookup y =
      if y = x then some (v :: (l.lookup x).getD []) else l.lookup y := by
  fun_induction pushEntry x v l with
  | case1 => rw [lookup_cons]; rfl
  | case2 vs rest =>
    rw [lookup_cons, lookup_cons, lookup_cons, if_pos rfl]
    by_cases hy : y = x
    · rw [if_pos hy, if_pos hy]
      rfl
    · rw [if_neg hy, if_neg hy, if_neg hy]
  | case3 z vs rest hne ih =>
    rw [lookup_cons, ih, lookup_cons, lookup_cons, if_neg (Ne.symm hne)]
    by_cases hz : y = z
    · rw [if_pos hz, if_pos hz, if_neg (hz ▸ hne)]
    · rw [if_neg hz, if_neg hz]

/-- What stands under a name once it has been popped, if anything does. -/
def poppedStack : List Value → Option (List Value)
  | [] => some []
  | [_] => none
  | _ :: w :: vs => some (w :: vs)

theorem lookup_popEntry (hdistinct : (l.map Prod.fst).Nodup) (x y : String) :
    (popEntry x l).1 = ((l.lookup x).getD []).head? ∧
      (popEntry x l).2.lookup y =
        if y = x then poppedStack ((l.lookup x).getD []) else l.lookup y := by
  fun_induction popEntry x l with
  | case1 => exact ⟨rfl, by rw [lookup_cons]; rfl⟩
  | case2 rest =>
    rw [lookup_cons, lookup_cons, if_pos rfl]
    refine ⟨rfl, ?_⟩
    by_cases hy : y = x
    · rw [if_pos hy, if_pos hy]
      rfl
    · rw [if_neg hy, if_neg hy]
  | case3 rest v =>
    rw [List.map_cons, List.nodup_cons] at hdistinct
    rw [lookup_cons, lookup_cons, if_pos rfl]
    refine ⟨rfl, ?_⟩
    by_cases hy : y = x
    · rw [if_pos hy, hy]
      exact lookup_of_not_mem_names hdistinct.1
    · rw [if_neg hy, if_neg hy]
  | case4 rest v w vs =>
    rw [lookup_cons, lookup_cons, lookup_cons, if_pos rfl]
    refine ⟨rfl, ?_⟩
    by_cases hy : y = x
    · rw [if_pos hy, if_pos hy]
      rfl
    · rw [if_neg hy, if_neg hy, if_neg hy]
  | case5 z vs rest hne w rest' heq ih =>
    rw [List.map_cons, List.nodup_cons] at hdistinct
    obtain ⟨hvalue, hlookup⟩ := ih hdistinct.2
    rw [heq] at hvalue hlookup
    rw [lookup_cons, lookup_cons, lookup_cons, if_neg (Ne.symm hne), hlookup]
    refine ⟨hvalue, ?_⟩
    by_cases hz : y = z
    · rw [if_pos hz, if_pos hz, if_neg (hz ▸ hne)]
    · rw [if_neg hz, if_neg hz]

theorem pop_fst (b : Bindings) (x : String) : (b.pop x).1 = (b.stack x).head? :=
  (lookup_popEntry b.distinct x x).1

/-! ## The order of the names -/

theorem names_pushEntry (x : String) (v : Value) (l : List (String × List Value)) :
    (pushEntry x v l).map Prod.fst =
      if x ∈ l.map Prod.fst then l.map Prod.fst else l.map Prod.fst ++ [x] := by
  fun_induction pushEntry x v l with
  | case1 => rfl
  | case2 vs rest => rw [List.map_cons, List.map_cons, if_pos List.mem_cons_self]
  | case3 z vs rest hne ih =>
    rw [List.map_cons, ih, List.map_cons]
    by_cases hx : x ∈ rest.map Prod.fst
    · rw [if_pos hx, if_pos (List.mem_cons_of_mem z hx)]
    · have hx' : x ∉ z :: rest.map Prod.fst := fun h =>
        (List.mem_cons.1 h).elim (Ne.symm hne) hx
      rw [if_neg hx, if_neg hx', List.cons_append]

/-- A pop leaves the other names in their order, or puts a name that was not there at the end. -/
theorem names_popEntry (x : String) (l : List (String × List Value)) :
    ((popEntry x l).2.map Prod.fst).Sublist (l.map Prod.fst) ∨
      x ∉ l.map Prod.fst ∧ (popEntry x l).2.map Prod.fst = l.map Prod.fst ++ [x] := by
  fun_induction popEntry x l with
  | case1 => exact .inr ⟨List.not_mem_nil, rfl⟩
  | case2 => exact .inl (List.Sublist.refl _)
  | case3 rest v => exact .inl (List.sublist_cons_self x _)
  | case4 => exact .inl (List.Sublist.refl _)
  | case5 z vs rest hne w rest' heq ih =>
    rw [heq] at ih
    rw [List.map_cons, List.map_cons]
    rcases ih with hsublist | ⟨hx, hnames⟩
    · exact .inl (hsublist.cons_cons z)
    · refine .inr ⟨fun h => (List.mem_cons.1 h).elim (Ne.symm hne) hx, ?_⟩
      rw [hnames, List.cons_append]

end Bindings

/-! ## Stacks and histories -/

/-- One list of values for each name, the most recent first. -/
abbrev Stacks := String → List Value

/-- What may be done to bindings. -/
inductive Change where
  | push (x : String) (v : Value)
  | pop (x : String)
  deriving DecidableEq, Repr

namespace Change

/-- The name that is pushed or popped. -/
def name : Change → String
  | push x _ => x
  | pop x => x

/-- The bindings after a push or a pop. -/
def apply (b : Bindings) : Change → Bindings
  | push x v => b.push x v
  | pop x => (b.pop x).2

/-- The stacks after a push or a pop. -/
def applyStacks (s : Stacks) : Change → Stacks
  | push x v => Function.update s x (v :: s x)
  | pop x => Function.update s x (s x).tail

/-- What stands under the name afterwards, if anything does. -/
def restack (vs : List Value) : Change → Option (List Value)
  | push _ v => some (v :: vs)
  | pop _ => Bindings.poppedStack vs

theorem lookup_apply (b : Bindings) (c : Change) (x : String) :
    (c.apply b).entries.lookup x =
      if x = c.name then c.restack (b.stack c.name) else b.entries.lookup x := by
  cases c with
  | push y v => exact Bindings.lookup_pushEntry y x v b.entries
  | pop y => exact (Bindings.lookup_popEntry b.distinct y x).2

theorem applyStacks_of_ne (s : Stacks) {c : Change} {x : String} (hne : c.name ≠ x) :
    c.applyStacks s x = s x := by
  cases c with
  | push y v => exact Function.update_of_ne (Ne.symm hne) _ _
  | pop y => exact Function.update_of_ne (Ne.symm hne) _ _

theorem applyStacks_name (s : Stacks) (c : Change) :
    c.applyStacks s c.name = (c.restack (s c.name)).getD [] := by
  cases c with
  | push x v => exact Function.update_self ..
  | pop x =>
    refine (Function.update_self ..).trans ?_
    show (s x).tail = (Bindings.poppedStack (s x)).getD []
    rcases s x with _ | ⟨v, _ | ⟨w, vs⟩⟩ <;> rfl

/-- What a change does to bindings shows as what it does to stacks. -/
theorem stack_apply (b : Bindings) (c : Change) : (c.apply b).stack = c.applyStacks b.stack := by
  funext x
  rw [Bindings.stack, c.lookup_apply]
  by_cases hx : x = c.name
  · rw [if_pos hx, hx, applyStacks_name]
  · rw [if_neg hx, applyStacks_of_ne _ (Ne.symm hx)]
    rfl

/-- The names are left in their order, some perhaps gone, or one that was not there comes last. -/
theorem names_apply (b : Bindings) (c : Change) :
    ((c.apply b).entries.map Prod.fst).Sublist (b.entries.map Prod.fst) ∨
      c.name ∉ b.entries.map Prod.fst ∧
        (c.apply b).entries.map Prod.fst = b.entries.map Prod.fst ++ [c.name] := by
  cases c with
  | push x v =>
    have hnames := Bindings.names_pushEntry x v b.entries
    by_cases hx : x ∈ b.entries.map Prod.fst
    · rw [if_pos hx] at hnames
      exact .inl (hnames ▸ List.Sublist.refl _)
    · rw [if_neg hx] at hnames
      exact .inr ⟨hx, hnames⟩
  | pop x => exact Bindings.names_popEntry x b.entries

end Change

/-- Pushes and pops that were made, the most recent first. -/
abbrev History := List Change

namespace History

/-- What a history makes of bindings. -/
def replayFrom (b : Bindings) (h : History) : Bindings := h.foldr (fun c b => c.apply b) b

/-- The bindings that a history has led to, from none. -/
def replay (h : History) : Bindings := h.replayFrom .empty

/-- The stacks that a history has led to. -/
def stackOf (h : History) : Stacks := h.foldr (fun c s => c.applyStacks s) fun _ => []

/-- The last push or pop of a name was a pop of its empty stack. -/
def LastFailed (h : History) (x : String) : Prop :=
  ∃ later earlier, h = later ++ .pop x :: earlier ∧ (∀ c ∈ later, c.name ≠ x) ∧
    stackOf earlier x = []

/-- A name has values, or was last popped without having one. -/
def Present (h : History) (x : String) : Prop := h.stackOf x ≠ [] ∨ h.LastFailed x

/-- A name has been there since some time at which another was not. -/
def InsertedBefore (h : History) (x y : String) : Prop :=
  ∃ n ≤ h.length, (∀ m ≤ n, Present (h.drop m) x) ∧ ¬ Present (h.drop n) y

variable {h : History} {c : Change} {x y : String}

theorem replayFrom_append (b : Bindings) (h h' : History) :
    replayFrom b (h' ++ h) = replayFrom (replayFrom b h) h' := List.foldr_append

/-! ## One more change -/

theorem stackOf_cons_of_ne (hne : c.name ≠ x) : stackOf (c :: h) x = stackOf h x :=
  Change.applyStacks_of_ne _ hne

theorem stackOf_push_self (v : Value) : stackOf (.push x v :: h) x = v :: stackOf h x :=
  Function.update_self ..

theorem stackOf_pop_self : stackOf (.pop x :: h) x = (stackOf h x).tail :=
  Function.update_self ..

theorem lastFailed_cons_of_ne (hne : c.name ≠ x) : LastFailed (c :: h) x ↔ LastFailed h x := by
  constructor
  · rintro ⟨_ | ⟨d, later⟩, earlier, heq, hlater, hempty⟩
    · exact absurd (congrArg Change.name (List.cons.inj heq).1) hne
    · obtain ⟨rfl, rfl⟩ := List.cons.inj heq
      exact ⟨later, earlier, rfl, (List.forall_mem_cons.1 hlater).2, hempty⟩
  · rintro ⟨later, earlier, rfl, hlater, hempty⟩
    exact ⟨c :: later, earlier, rfl, List.forall_mem_cons.2 ⟨hne, hlater⟩, hempty⟩

/-- A change of a name is the last one that was made to it. -/
theorem lastFailed_cons_self (hname : c.name = x) :
    LastFailed (c :: h) x ↔ c = .pop x ∧ stackOf h x = [] := by
  constructor
  · rintro ⟨_ | ⟨d, later⟩, earlier, heq, hlater, hempty⟩
    · obtain ⟨rfl, rfl⟩ := List.cons.inj heq
      exact ⟨rfl, hempty⟩
    · obtain ⟨rfl, -⟩ := List.cons.inj heq
      exact absurd hname (List.forall_mem_cons.1 hlater).1
  · rintro ⟨rfl, hempty⟩
    exact ⟨[], h, rfl, List.forall_mem_nil _, hempty⟩

theorem not_lastFailed_nil : ¬ LastFailed [] x := by
  rintro ⟨later, earlier, heq, -⟩
  exact List.append_ne_nil_of_right_ne_nil later (List.cons_ne_nil _ _) heq.symm

/-- A pop that fails leaves an empty stack, and other names do not change it. -/
theorem stackOf_eq_nil_of_lastFailed (hfailed : LastFailed h x) : stackOf h x = [] := by
  induction h with
  | nil => exact absurd hfailed not_lastFailed_nil
  | cons c h ih =>
    by_cases hname : c.name = x
    · obtain ⟨rfl, hempty⟩ := (lastFailed_cons_self hname).1 hfailed
      rw [stackOf_pop_self, hempty]
      rfl
    · rw [stackOf_cons_of_ne hname]
      exact ih ((lastFailed_cons_of_ne hname).1 hfailed)

theorem present_cons_of_ne (hne : c.name ≠ x) : Present (c :: h) x ↔ Present h x := by
  rw [Present, Present, stackOf_cons_of_ne hne, lastFailed_cons_of_ne hne]

/-- What a change puts under its name is there, and is the stack that the history has then. -/
theorem restack_eq_some_iff {vs : List Value} :
    c.restack (stackOf h c.name) = some vs ↔
      Present (c :: h) c.name ∧ vs = stackOf (c :: h) c.name := by
  cases c with
  | push x v =>
    have hstack : stackOf (.push x v :: h) x = v :: stackOf h x := stackOf_push_self v
    have hpresent : Present (.push x v :: h) x := .inl (hstack ▸ List.cons_ne_nil _ _)
    show some (v :: stackOf h x) = some vs ↔ _ ∧ vs = stackOf (.push x v :: h) x
    rw [hstack, Option.some.injEq, eq_comm]
    exact (and_iff_right hpresent).symm
  | pop x =>
    have hstack : stackOf (.pop x :: h) x = (stackOf h x).tail := stackOf_pop_self
    have hfailed : LastFailed (.pop x :: h) x ↔ stackOf h x = [] :=
      (lastFailed_cons_self rfl).trans (and_iff_right rfl)
    show Bindings.poppedStack (stackOf h x) = some vs ↔
      Present (.pop x :: h) x ∧ vs = stackOf (.pop x :: h) x
    rw [Present, hfailed, hstack]
    rcases stackOf h x with _ | ⟨v, _ | ⟨w, ws⟩⟩
    · rw [Bindings.poppedStack, Option.some.injEq, eq_comm]
      exact (and_iff_right (.inr rfl)).symm
    · refine iff_of_false (Option.some_ne_none vs).symm ?_
      rintro ⟨hvalues | hempty, -⟩
      · exact hvalues rfl
      · exact List.cons_ne_nil _ _ hempty
    · rw [Bindings.poppedStack, Option.some.injEq, eq_comm]
      exact (and_iff_right (.inl (List.cons_ne_nil _ _))).symm

theorem insertedBefore_cons (hx : Present (c :: h) x) (hbefore : InsertedBefore h x y) :
    InsertedBefore (c :: h) x y := by
  obtain ⟨n, hn, hsince, hy⟩ := hbefore
  refine ⟨n + 1, Nat.succ_le_succ hn, fun m hm => ?_, hy⟩
  cases m with
  | zero => exact hx
  | succ m => exact hsince m (Nat.le_of_succ_le_succ hm)

theorem insertedBefore_of_new (hx : Present (c :: h) x) (hx' : Present h x) (hy : ¬ Present h y) :
    InsertedBefore (c :: h) x y := by
  refine ⟨1, Nat.succ_le_succ (Nat.zero_le _), fun m hm => ?_, hy⟩
  rcases Nat.le_one_iff_eq_zero_or_eq_one.1 hm with rfl | rfl
  · exact hx
  · exact hx'

/-! ## What bindings show of their history -/

/-- Bindings have the entries that a history gives them, in the order that it gives them. -/
structure Describes (h : History) (b : Bindings) : Prop where
  lookup : ∀ x vs, b.entries.lookup x = some vs ↔ h.Present x ∧ vs = h.stackOf x
  order : (b.entries.map Prod.fst).Pairwise h.InsertedBefore

namespace Describes

variable {b : Bindings}

theorem mem_names_iff (hb : Describes h b) : x ∈ b.entries.map Prod.fst ↔ h.Present x := by
  rw [Bindings.mem_names_iff_lookup]
  refine ⟨?_, fun hx => ⟨_, (hb.lookup x _).2 ⟨hx, rfl⟩⟩⟩
  rintro ⟨vs, hvs⟩
  exact ((hb.lookup x vs).1 hvs).1

theorem stack_eq (hb : Describes h b) (x : String) : b.stack x = h.stackOf x := by
  rw [Bindings.stack]
  cases hlookup : b.entries.lookup x with
  | some vs => exact ((hb.lookup x vs).1 hlookup).2
  | none =>
    by_contra hne
    have hsome := (hb.lookup x _).2 ⟨.inl (Ne.symm hne), rfl⟩
    rw [hlookup] at hsome
    cases hsome

theorem empty_mem_iff (hb : Describes h b) : (x, []) ∈ b.entries ↔ h.LastFailed x := by
  rw [Bindings.mem_iff_lookup b.distinct, hb.lookup]
  constructor
  · rintro ⟨hvalues | hfailed, hempty⟩
    · exact absurd hempty.symm hvalues
    · exact hfailed
  · intro hfailed
    exact ⟨.inr hfailed, (stackOf_eq_nil_of_lastFailed hfailed).symm⟩

end Describes

theorem describes_nil : Describes [] .empty where
  lookup := by
    intro x vs
    refine iff_of_false (Option.some_ne_none vs).symm ?_
    rintro ⟨hvalues | hfailed, -⟩
    · exact hvalues rfl
    · exact not_lastFailed_nil hfailed
  order := .nil

/-- One more push or pop is described by a history with one change more. -/
theorem Describes.cons {b : Bindings} (hb : Describes h b) (c : Change) :
    Describes (c :: h) (c.apply b) := by
  have hlookup : ∀ x vs, (c.apply b).entries.lookup x = some vs ↔
      Present (c :: h) x ∧ vs = stackOf (c :: h) x := by
    intro x vs
    rw [c.lookup_apply]
    by_cases hx : x = c.name
    · rw [if_pos hx, hx, hb.stack_eq]
      exact restack_eq_some_iff
    · rw [if_neg hx, present_cons_of_ne (Ne.symm hx), stackOf_cons_of_ne (Ne.symm hx)]
      exact hb.lookup x vs
  have hpresent : ∀ x ∈ (c.apply b).entries.map Prod.fst, Present (c :: h) x := by
    intro x hx
    obtain ⟨vs, hvs⟩ := Bindings.mem_names_iff_lookup.1 hx
    exact ((hlookup x vs).1 hvs).1
  refine ⟨hlookup, ?_⟩
  rcases c.names_apply b with hsublist | ⟨hnew, hnames⟩
  · -- the names that are left have stayed in their order
    exact (hb.order.sublist hsublist).imp_of_mem fun hx _ hbefore =>
      insertedBefore_cons (hpresent _ hx) hbefore
  · -- the name has come last, after all those that were there
    rw [hnames] at hpresent ⊢
    rw [List.forall_mem_append] at hpresent
    rw [List.pairwise_append]
    refine ⟨hb.order.imp_of_mem fun hx _ hbefore =>
      insertedBefore_cons (hpresent.1 _ hx) hbefore, List.pairwise_singleton _ _, ?_⟩
    intro x hx y hy
    obtain rfl := List.mem_singleton.1 hy
    exact insertedBefore_of_new (hpresent.1 x hx) (hb.mem_names_iff.1 hx)
      (mt hb.mem_names_iff.2 hnew)

/-- **Bindings are what their history has made of them**: every push and every pop is told by the
stacks, by the empty stacks that are left behind and by the order of the names. -/
theorem describes_replay (h : History) : Describes h h.replay := by
  induction h with
  | nil => exact describes_nil
  | cons c h ih => exact ih.cons c

end History

end DynLisp
