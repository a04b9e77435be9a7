import DynLisp.Proofs.Parser.Progress

/-!
# Loops

Arguments and cases are read one after the other until a closing delimiter comes next, and so are
parameters; the forms of a text are read until no tokens are left.  None of these loops looks for
the end of the tokens on its way, so what ends it must be that every round takes a token or fails.

`Rounds` says what a loop does without any bound on its rounds, so that it may well do nothing at
all: a loop that goes on forever has no run.  `LoopEnds` says that there is a run, how many rounds a
run may have, and what it may end in.  A loop ends if its rounds make something smaller
(`exists_rounds`, `Rounds.le_size`), and it ends in what solves the equation of the loop
(`Rounds.eq_of_equation`).  Both together hold of the loops of the parser: they end, after no more
rounds than there are tokens, in what `untilClosing` and `parameters` return.
-/

namespace DynLisp

section Loop

variable {ε σ α : Type}

/-- What a loop does, from what it has gathered and a state on: round after round, until it is
finished or a round fails.  The number is that of the rounds that were completed. -/
inductive Rounds (finished : σ → Prop) (round : α → EStateM ε σ α) :
    Nat → α → σ → EStateM.Result ε σ α → Prop
  | leave {a : α} {s : σ} : finished s → Rounds finished round 0 a s (.ok a s)
  | fail {a : α} {s s' : σ} {e : ε} :
      ¬ finished s → round a s = .error e s' → Rounds finished round 0 a s (.error e s')
  | next {n : Nat} {a a' : α} {s s' : σ} {r : EStateM.Result ε σ α} :
      ¬ finished s → round a s = .ok a' s' → Rounds finished round n a' s' r →
      Rounds finished round (n + 1) a s r

/-- A loop ends, after no more rounds than `bound`, and in nothing but what `Post` allows. -/
structure LoopEnds (finished : σ → Prop) (round : α → EStateM ε σ α) (bound : Nat) (a : α) (s : σ)
    (Post : EStateM.Result ε σ α → Prop) : Prop where
  exists_run : ∃ n r, Rounds finished round n a s r
  of_run {n : Nat} {r : EStateM.Result ε σ α} : Rounds finished round n a s r → n ≤ bound ∧ Post r

variable {finished : σ → Prop} {round : α → EStateM ε σ α} {n : Nat} {a : α} {s : σ}
  {r : EStateM.Result ε σ α}

theorem LoopEnds.imp {bound : Nat} {Post Post' : EStateM.Result ε σ α → Prop}
    (h : LoopEnds finished round bound a s Post) (himp : ∀ r, Post r → Post' r) :
    LoopEnds finished round bound a s Post' :=
  ⟨h.exists_run, fun hrun => (h.of_run hrun).imp_right (himp _)⟩

/-- A loop whose rounds make something smaller ends. -/
theorem exists_rounds (size : σ → Nat)
    (hsmaller : ∀ a s a' s', ¬ finished s → round a s = .ok a' s' → size s' < size s)
    (a : α) (s : σ) : ∃ n r, Rounds finished round n a s r := by
  induction hsize : size s using Nat.strongRecOn generalizing a s with
  | ind m ih =>
    by_cases hfinished : finished s
    · exact ⟨0, _, .leave hfinished⟩
    · cases hround : round a s with
      | error e s' => exact ⟨0, _, .fail hfinished hround⟩
      | ok a' s' =>
        have hlt : size s' < m := hsize ▸ hsmaller a s a' s' hfinished hround
        obtain ⟨n, r, hrun⟩ := ih (size s') hlt a' s' rfl
        exact ⟨n + 1, r, .next hfinished hround hrun⟩

theorem Rounds.le_size (size : σ → Nat)
    (hsmaller : ∀ a s a' s', ¬ finished s → round a s = .ok a' s' → size s' < size s)
    (h : Rounds finished round n a s r) : n ≤ size s := by
  induction h with
  | leave | fail => exact Nat.zero_le _
  | next hfinished hround _ ih => exact Nat.lt_of_le_of_lt ih (hsmaller _ _ _ _ hfinished hround)

/-- A loop ends in what solves its equation: there is nothing more to do if it is finished, and one
round to do before the same otherwise. -/
theorem Rounds.eq_of_equation {result : α → EStateM ε σ α}
    (hfinished : ∀ a s, finished s → result a s = .ok a s)
    (hround : ∀ a s, ¬ finished s → result a s = (round a >>= result) s)
    (h : Rounds finished round n a s r) : r = result a s := by
  have hbind : ∀ a s, ¬ finished s → result a s = EStateM.bind (round a) result s := hround
  induction h with
  | leave h => exact (hfinished _ _ h).symm
  | fail h heq => rw [hbind _ _ h, EStateM.bind, heq]
  | next h heq _ ih => rw [hbind _ _ h, EStateM.bind, heq, ih]

end Loop

namespace Parser

variable {α : Type} {us : List Token}

/-! ## The loops of the parser -/

/-- A closing delimiter comes next. -/
def ClosingNext (us : List Token) : Prop := us.head?.map Token.kind = some .closing

/-- A round in which an item is added to those before it. -/
def gatherItem (item : Parser α) (xs : List α) : Parser (List α) := do
  let x ← item
  return xs ++ [x]

/-- A round in which a name is added to the parameters before it, unless it is one of them. -/
def gatherParameter (function : String) (seen : List String) : Parser (List String) := do
  let t ← expect .identifier "parameter name"
  if t.text ∈ seen then
    blame (.duplicateParameter t.text function) t
  else
    return seen ++ [t.text]

theorem takes_gatherItem {item : Parser α} (hitem : ∀ us, Result.Takes 1 us (item us))
    (xs : List α) (us : List Token) : Result.Takes 1 us (gatherItem item xs us) := by
  have hagree : AgreeBelow (us.length + 1) 1 item item := fun us _ => ⟨rfl, hitem us⟩
  exact (hagree.bind (fun x => agreeBelow_pure (xs ++ [x])) us (Nat.lt_succ_self _)).2

theorem takes_gatherParameter (function : String) (seen : List String) (us : List Token) :
    Result.Takes 1 us (gatherParameter function seen us) := by
  have hagree : AgreeBelow (us.length + 1) 1 (gatherParameter function seen) _ :=
    (agreeBelow_expect _ _).bind fun t => agreeBelow_ite (agreeBelow_throw _) (agreeBelow_pure _)
  exact (hagree us (Nat.lt_succ_self _)).2

/-- A loop whose rounds take a token makes no more rounds than there are tokens, and ends in what
solves its equation. -/
theorem loopEnds_of_takes {round : α → Parser α} (result : α → Parser α)
    (htakes : ∀ a us, Result.Takes 1 us (round a us))
    (hclosing : ∀ a us, ClosingNext us → result a us = .ok a us)
    (hround : ∀ a us, ¬ ClosingNext us → result a us = (round a >>= result) us) (a : α)
    (us : List Token) : LoopEnds ClosingNext round us.length a us (· = result a us) := by
  have hsmaller : ∀ a us a' us', ¬ ClosingNext us → round a us = .ok a' us' →
      us'.length < us.length := fun a us a' us' _ => (htakes a us).length_lt
  exact ⟨exists_rounds List.length hsmaller a us,
    fun hrun => ⟨hrun.le_size List.length hsmaller, hrun.eq_of_equation hclosing hround⟩⟩

/-- An item that is put before later ones is put behind earlier ones. -/
theorem bind_gatherItem (item : Parser α) (items : Parser (List α)) (xs : List α) :
    ((item >>= fun x => items >>= fun ys => pure (x :: ys)) >>= fun ys => pure (xs ++ ys)) =
      gatherItem item xs >>= fun xs' => items >>= fun ys => pure (xs' ++ ys) := by
  simp only [gatherItem, bind_assoc, pure_bind, List.append_assoc, List.singleton_append]

/-- Items that take a token are read in a loop that ends in what `untilClosing` returns. -/
theorem loopEnds_untilClosing {item : Parser α} (hitem : ∀ us, Result.Takes 1 us (item us))
    (us : List Token) :
    LoopEnds ClosingNext (gatherItem item) us.length [] us (· = untilClosing item us) := by
  have hnil : (untilClosing item >>= fun ys => pure ([] ++ ys) : Parser (List α)) =
      untilClosing item := bind_pure (m := Parser) (untilClosing item)
  -- The loop puts items behind those it has, and `untilClosing` before those to come: the equation
  -- of the loop is solved by both together, for any items that were gathered.
  rw [← hnil]
  refine loopEnds_of_takes (fun xs => untilClosing item >>= fun ys => pure (xs ++ ys))
    (takes_gatherItem hitem) (fun xs us h => ?_) (fun xs us h => ?_) [] us
  · rw [bind_of_eq_ok (untilClosing_of_closing h), List.append_nil]
    rfl
  · have hfirst := untilClosing_of_not_closing h fun x left => (hitem us).length_lt
    rw [bind_congr_left hfirst]
    exact congrFun (bind_gatherItem item (untilClosing item) xs) us

theorem gatherParameter_cons (function : String) (seen : List String) {t : Token}
    (ht : t.kind = .identifier) (us : List Token) :
    gatherParameter function seen (t :: us) =
      if t.text ∈ seen then .error (.grammar ⟨.duplicateParameter t.text function, .token t⟩) us
      else .ok (seen ++ [t.text]) us := by
  rw [gatherParameter, bind_of_eq_ok (expect_eq_ok_iff.2 ⟨rfl, ht⟩)]
  split <;> rfl

/-- Parameters are read in a loop that ends in what `parameters` returns. -/
theorem loopEnds_parameters (function : String) (seen : List String) (us : List Token) :
    LoopEnds ClosingNext (gatherParameter function) us.length seen us
      (· = parameters function seen us) := by
  refine loopEnds_of_takes (parameters function) (takes_gatherParameter function)
    (fun seen us h => ?_) (fun seen us h => ?_) seen us
  · cases us with
    | nil => cases h
    | cons t us => rw [parameters, if_pos (Option.some.inj h)]
  · cases us with
    | nil => rfl
    | cons t us =>
      rw [parameters, if_neg fun ht => h (congrArg some ht)]
      by_cases ht : t.kind = .identifier
      · have hround := gatherParameter_cons function seen ht us
        rw [if_pos ht]
        by_cases hmem : t.text ∈ seen
        · rw [if_pos hmem] at hround ⊢
          exact (bind_of_eq_error hround).symm
        · rw [if_neg hmem] at hround ⊢
          exact (bind_of_eq_ok hround).symm
      · rw [if_neg ht]
        refine (bind_of_eq_error (bind_of_eq_error ?_)).symm
        exact if_neg fun hmem => ht (List.mem_singleton.1 hmem)

end Parser

end DynLisp
