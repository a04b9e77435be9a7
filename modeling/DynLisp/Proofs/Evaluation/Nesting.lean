import DynLisp.Proofs.Evaluation.Calls
import DynLisp.Proofs.Evaluation.Limit
import DynLisp.Proofs.Evaluation.Origin
import DynLisp.Proofs.Environment.Extension
import Mathlib.Data.List.Chain
import Mathlib.Data.List.Perm.Subperm

/-!
# How deeply calls are nested

On the way of an evaluation some calls are active: those whose bodies the evaluation at hand stands
in.  `Nests c active c'` says that `c'` is on the way of `c` and that `active` are the functions of
the active calls, the innermost first.

An expression that is evaluated while calls are active stands in the body of the innermost of them.
So the active functions form a chain in which each is called by the next one (`CallChain`), and no
chain of calls is longer than there are functions, unless there is a cycle among them.  Where there
is none, an evaluation that is allowed as many calls as there are functions never needs one more,
and it ends in a value or a fault.
-/

namespace DynLisp

open Relation

/-! ## Active calls -/

/-- An evaluation is on the way of another one, and inside of calls of some functions, the innermost
first.  The arguments of a call are evaluated outside of it. -/
inductive Nests [Machine] (c : Evaluation) : List String → Evaluation → Prop
  | start : Nests c [] c
  | inside {active : List String} {c' c'' : Evaluation} :
      Nests c active c' → Enters c' c'' → c''.limit = c'.limit → Nests c active c''
  | body {active : List String} {limit : Nat} {env : Environment} {f : String} {args : List Expr}
      {c'' : Evaluation} :
      Nests c active ⟨limit + 1, env, .call f args⟩ →
      Enters ⟨limit + 1, env, .call f args⟩ c'' → c''.limit = limit → Nests c (f :: active) c''

/-- Every active call takes one from the limit. -/
theorem Nests.limit [Machine] {c c' : Evaluation} {active : List String} (h : Nests c active c') :
    c'.limit + active.length = c.limit := by
  induction h with
  | start => rfl
  | inside _ _ hlimit ih => rw [hlimit, ih]
  | @body active limit _ _ _ _ _ _ hlimit ih =>
    have ih : limit + 1 + active.length = c.limit := ih
    rw [hlimit, ← ih, List.length_cons]
    omega

/-- What is on the way of an evaluation is inside of some calls. -/
theorem exists_nests [Machine] {c c' : Evaluation} (h : ReflTransGen Enters c c') :
    ∃ active, Nests c active c' := by
  induction h with
  | refl => exact ⟨[], .start⟩
  | tail _ henters ih =>
    obtain ⟨active, hnests⟩ := ih
    cases henters with
    | operand hoperands hrun htakes =>
      exact ⟨active, hnests.inside (.operand hoperands hrun htakes) rfl⟩
    | condition hrun => exact ⟨active, hnests.inside (.condition hrun) rfl⟩
    | result hrun hholds => exact ⟨active, hnests.inside (.result hrun hholds) rfl⟩
    | body hrun hresolve => exact ⟨_ :: active, hnests.body (.body hrun hresolve) rfl⟩

theorem Nests.way [Machine] {c c' : Evaluation} {active : List String} (h : Nests c active c') :
    ReflTransGen Enters c c' := by
  induction h with
  | start => exact .refl
  | inside _ henters _ ih => exact ih.tail henters
  | body _ henters _ ih => exact ih.tail henters

/-- A step with the same limit goes to a part of the expression. -/
theorem Enters.mem_parts [Machine] {c c' : Evaluation} (h : Enters c c')
    (hlimit : c'.limit = c.limit) : c'.expr ∈ c.expr.parts := by
  cases h with
  | operand hoperands _ _ =>
    exact Expr.mem_parts_of_mem_operands (hoperands ▸ List.mem_append_cons_self)
  | condition _ => exact (Expr.mem_parts_of_mem_cases List.mem_append_cons_self).1
  | result _ _ => exact (Expr.mem_parts_of_mem_cases List.mem_append_cons_self).2
  | body _ _ => exact absurd hlimit (Nat.ne_of_lt (Nat.lt_succ_self _))

/-- A step with a smaller limit goes from a call to the body of the function. -/
theorem Enters.exists_definition [Machine] {limit : Nat} {env : Environment} {f : String}
    {args : List Expr} {c : Evaluation} (h : Enters ⟨limit + 1, env, .call f args⟩ c)
    (hlimit : c.limit = limit) :
    ∃ definition, env.functions.lookup f = some definition ∧ c.expr = definition.body := by
  cases h with
  | operand _ _ _ => exact absurd hlimit (Nat.succ_ne_self limit)
  | body hrun hresolve =>
    have hfunctions := ((restores_evaluateAll (restores_calls _) args).of_ok hrun).functions
    exact ⟨_, hfunctions ▸ lookup_of_resolveCall hresolve, rfl⟩

/-! ## Chains of calls -/

section

variable {functions : List (String × Definition)}

/-- Functions each of which is called by the next one. -/
structure CallChain (functions : List (String × Definition)) (active : List String) : Prop where
  calls : active.IsChain fun g f => Calls functions f g
  defined : ∀ f ∈ active, ∃ definition, functions.lookup f = some definition

/-- No function calls itself, be it through others. -/
def Acyclic (functions : List (String × Definition)) : Prop :=
  ∀ f, ¬ TransGen (Calls functions) f f

/-- There is no cycle where calls go down in a rank. -/
theorem acyclic_of_rank (rank : String → Nat)
    (hrank : ∀ entry ∈ functions, ∀ g ∈ entry.2.body.callees, rank g < rank entry.1) :
    Acyclic functions := by
  have hcalls : ∀ {f g : String}, Calls functions f g → rank g < rank f := by
    rintro f g ⟨definition, hlookup, hg⟩
    obtain ⟨before, after, rfl, -⟩ := List.lookup_eq_some_iff.1 hlookup
    exact hrank (f, definition) List.mem_append_cons_self g hg
  have hlt : ∀ {f g : String}, TransGen (Calls functions) f g → rank g < rank f := by
    intro f g h
    induction h with
    | single h => exact hcalls h
    | tail _ h ih => exact (hcalls h).trans ih
  exact fun f h => Nat.lt_irrefl _ (hlt h)

/-- Where there is no cycle, no function stands twice in a chain of calls. -/
theorem CallChain.nodup {active : List String} (h : CallChain functions active)
    (hacyclic : Acyclic functions) : active.Nodup := by
  have hchain : active.IsChain (TransGen (Function.swap (Calls functions))) :=
    h.calls.imp fun _ _ hcalls => .single hcalls
  refine hchain.pairwise.imp ?_
  rintro g f hreaches rfl
  exact hacyclic g (transGen_swap.1 hreaches)

/-- Where there is no cycle, no chain of calls is longer than there are functions. -/
theorem CallChain.length_le {active : List String} (h : CallChain functions active)
    (hacyclic : Acyclic functions) : active.length ≤ functions.length := by
  have hsubset : active ⊆ functions.map Prod.fst := by
    intro f hf
    obtain ⟨definition, hlookup⟩ := h.defined f hf
    by_contra hnone
    rw [Environment.lookup_eq_none_iff.2 hnone] at hlookup
    cases hlookup
  have hle := (List.subperm_of_subset (h.nodup hacyclic) hsubset).length_le
  rwa [List.length_map] at hle

/-- Where the expression stands that is evaluated while calls are active: in the body of the
innermost, or in the expression that the evaluation started with. -/
def StandsIn (functions : List (String × Definition)) (e : Expr) : List String → Expr → Prop
  | [], e' => e' ∈ e.parts
  | f :: _, e' => ∃ definition, functions.lookup f = some definition ∧ e' ∈ definition.body.parts

theorem StandsIn.of_mem_parts {e e' e'' : Expr} {active : List String}
    (h : StandsIn functions e active e') (hmem : e'' ∈ e'.parts) :
    StandsIn functions e active e'' := by
  cases active with
  | nil => exact Expr.parts_subset_of_mem h hmem
  | cons f active =>
    obtain ⟨definition, hlookup, h⟩ := h
    exact ⟨definition, hlookup, Expr.parts_subset_of_mem h hmem⟩

/-- A call of a function makes the chain longer. -/
theorem CallChain.cons {e : Expr} {active : List String} {f : String} {args : List Expr}
    {definition : Definition} (h : CallChain functions active)
    (hstands : StandsIn functions e active (.call f args))
    (hlookup : functions.lookup f = some definition) : CallChain functions (f :: active) := by
  refine ⟨?_, List.forall_mem_cons.2 ⟨⟨definition, hlookup⟩, h.defined⟩⟩
  cases active with
  | nil => exact .singleton f
  | cons g active =>
    obtain ⟨caller, hcaller, hmem⟩ := hstands
    have hcalls : Calls functions g f :=
      ⟨caller, hcaller, Expr.callees_subset_of_mem hmem (Expr.mem_callees_call f args)⟩
    exact .cons_cons hcalls h.calls

/-! ## The chain of the active calls -/

/-- What is known of an evaluation on the way of another one, inside of active calls. -/
structure Stacked (c : Evaluation) (active : List String) (c' : Evaluation) : Prop where
  functions : c'.environment.functions = c.environment.functions
  chain : CallChain c.environment.functions active
  stands : StandsIn c.environment.functions c.expr active c'.expr

theorem Nests.stacked [Machine] {c c' : Evaluation} {active : List String} (h : Nests c active c') :
    Stacked c active c' := by
  induction h with
  | start => exact ⟨rfl, ⟨.nil, List.forall_mem_nil _⟩, c.expr.mem_parts_self⟩
  | inside _ henters hlimit ih =>
    exact ⟨henters.functions.trans ih.functions, ih.chain,
      ih.stands.of_mem_parts (henters.mem_parts hlimit)⟩
  | body _ henters hlimit ih =>
    obtain ⟨definition, hlookup, hbody⟩ := henters.exists_definition hlimit
    have hlookup := ih.functions ▸ hlookup
    refine ⟨henters.functions.trans ih.functions, ih.chain.cons ih.stands hlookup,
      definition, hlookup, ?_⟩
    rw [hbody]
    exact definition.body.mem_parts_self

end

/-! ## Calls that are one too many -/

/-- If calls are nested too deeply, then on the way there is a call of a function that would be one
too many. -/
theorem exists_call_of_depthExceeded [Machine] {c : Evaluation}
    (h : c.outcome = .error .depthExceeded) :
    ∃ c' f args definition, ReflTransGen Enters c c' ∧ c'.limit = 0 ∧ c'.expr = .call f args ∧
      c'.environment.functions.lookup f = some definition := by
  induction c using wellFounded_enters.induction with
  | _ c ih =>
    have hstep : (∃ c', Enters c c' ∧ c'.outcome = .error .depthExceeded) → ∃ c' f args definition,
        ReflTransGen Enters c c' ∧ c'.limit = 0 ∧ c'.expr = .call f args ∧
          c'.environment.functions.lookup f = some definition := by
      rintro ⟨c', henters, hc'⟩
      obtain ⟨c'', f, args, definition, hway, hcall⟩ := ih c' henters hc'
      exact ⟨c'', f, args, definition, .head henters hway, hcall⟩
    rcases Evaluation.blames_of_outcome h with hraises | henters
    · -- only calls raise it, and with calls left to make they hand it on from the body
      obtain ⟨limit, env, e⟩ := c
      have hraises : e.Raises .depthExceeded := hraises.expr
      obtain ⟨f, args, rfl⟩ : ∃ f args, e = .call f args := by
        generalize hfailure : Failure.depthExceeded = failure at hraises
        cases hraises with
        | depthExceeded => exact ⟨_, _, rfl⟩
        | _ => cases hfailure
      rcases call_fails h with henters | ⟨-, hne⟩ | ⟨definition, hlookup, ⟨-, hne⟩ | ⟨rfl, -⟩⟩
      · exact hstep henters
      · cases hne
      · cases hne
      · exact ⟨_, f, args, definition, .refl, rfl, rfl, hlookup⟩
    · exact hstep henters

/-- An evaluation that is allowed as many calls as there are functions is not nested too deeply. -/
theorem outcome_ne_depthExceeded [Machine] {limit : Nat} {env : Environment} (e : Expr)
    (hacyclic : Acyclic env.functions) (hlimit : env.functions.length ≤ limit) :
    (evaluate limit e).outcome env ≠ .error .depthExceeded := by
  intro h
  obtain ⟨⟨_, env', _⟩, f, args, definition, hway, rfl, rfl, hlookup⟩ :=
    exists_call_of_depthExceeded (c := ⟨limit, env, e⟩) h
  obtain ⟨active, hnests⟩ := exists_nests hway
  have hstacked := hnests.stacked
  have hlookup : env.functions.lookup f = some definition := hstacked.functions ▸ hlookup
  -- the call would make a chain that is longer than the limit
  have hchain : (f :: active).length ≤ env.functions.length :=
    (hstacked.chain.cons hstacked.stands hlookup).length_le hacyclic
  have hactive : 0 + active.length = limit := hnests.limit
  rw [List.length_cons] at hchain
  omega

/-- **Programs without cycles come to an end.**  Where no function calls itself, be it through
others, the active calls on the way of an evaluation are of different functions, so there are never
more of them than there are functions.  With at least as many calls allowed, an evaluation ends in a
value or a fault, and always in the same. -/
theorem acyclic_settles [Machine] (e : Expr) (env : Environment)
    (hacyclic : Acyclic env.functions) :
    (∀ limit c, ReflTransGen Enters ⟨limit, env, e⟩ c ↔
        ∃ active, Nests ⟨limit, env, e⟩ active c) ∧
      (∀ limit active c, Nests ⟨limit, env, e⟩ active c →
        c.limit + active.length = limit ∧ active.Nodup ∧
          active.length ≤ env.functions.length) ∧
      ∀ limit, env.functions.length ≤ limit →
        ((∃ v, (evaluate limit e).outcome env = .ok v) ∨
          ∃ fault : Fault, (evaluate limit e).outcome env = .error fault.failure) ∧
        (evaluate limit e).outcome env = (evaluate env.functions.length e).outcome env := by
  refine ⟨fun limit c => ⟨exists_nests, ?_⟩, fun limit active c hnests => ?_,
    fun limit hlimit => ⟨?_, ?_⟩⟩
  · rintro ⟨active, hnests⟩
    exact hnests.way
  · have hchain := hnests.stacked.chain
    exact ⟨hnests.limit, hchain.nodup hacyclic, hchain.length_le hacyclic⟩
  · rcases outcome_evaluate_cases limit e env with hvalue | hfault | hexceeded
    · exact .inl hvalue
    · exact .inr hfault
    · exact absurd hexceeded (outcome_ne_depthExceeded e hacyclic hlimit)
  · exact outcome_evaluate_of_le hlimit (outcome_ne_depthExceeded e hacyclic (Nat.le_refl _))

/-- `main` calls `f`, `f` calls `g` in an argument of a call of `g`, and `g` calls a function that
there is not, but not before its parameter is zero.  At most three calls are active, and three
suffice. -/
theorem acyclic_settles_three :
    let _ : Machine := .ofCalls 3
    let functions : List (String × Definition) :=
      [("main", ⟨[], .arith .add (.call "f" [.number 2]) (.call "f" [.number 3])⟩),
        ("f", ⟨["x"], .call "g" [.call "g" [.var "x"]]⟩),
        ("g", ⟨["y"], .cond [(.compare .equal (.var "y") (.number 0), .call "h" []),
          (.boolean true, .arith .mul (.var "y") (.var "x"))]⟩)]
    let env : Environment := .ofFunctions functions
    Acyclic env.functions ∧
      (∀ limit, 3 ≤ limit → (evaluate limit (.call "main" [])).outcome env = .ok (.number 35)) ∧
      (evaluate 2 (.call "main" [])).outcome env = .error .depthExceeded := by
  intro _ functions env
  have hacyclic : Acyclic env.functions :=
    acyclic_of_rank (fun f => ["h", "g", "f", "main"].idxOf f) (by decide)
  have hsettles := (acyclic_settles (.call "main" []) env hacyclic).2.2
  refine ⟨hacyclic, fun limit hlimit => ?_, by rfl⟩
  exact (hsettles limit hlimit).2.trans (by rfl)

end DynLisp
