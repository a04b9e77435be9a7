import DynLisp.Proofs.Parser.Loops
import DynLisp.Proofs.Session.Jobs

/-!
# Reading ends

A text is loaded, or executed, in a loop over its tokens: as long as some are left, a form is read
from them and taken at once.  A session reads the forms first and takes them later, which comes to
the same (`Session.settle_of_rounds`), since no form is read differently because of another one that
was taken.  A form is read with at least one token, so that there are no more rounds than tokens
(`Session.loopEnds_takeText`).

With the progress of readers and the loops inside of them this is everything that could go on
forever where tokens are read.  `reading_ends` puts it together: every reader of the grammar goes
forward and stays inside the tokens, every operand is read from fewer tokens than the form it stands
in, and every loop ends.  A reader that ends without a result ends in an error of the grammar, or
just behind a number of too many digits, which it has taken and cannot convert.
-/

namespace DynLisp

open DynLisp.Action

variable {α β : Type}

/-! ## Forms -/

theorem readForms_of_error {start : Token} {later left : List Token} {e : ReadError}
    (h : Parser.expr .any (start :: later) = .error e left) :
    readForms (start :: later) = ([], some e) := by
  rw [readForms, h]

/-- The test that `readForms` makes after a form never fails. -/
theorem readForms_of_ok {start : Token} {later left : List Token} {e : Expr}
    (h : Parser.expr .any (start :: later) = .ok e left) :
    readForms (start :: later) = ((start, e) :: (readForms left).1, (readForms left).2) := by
  have hlt := (Parser.takes_expr .any _).length_lt h
  rw [List.length_cons] at hlt
  rw [readForms, h]
  simp only [if_pos (Nat.le_of_lt_succ hlt)]

namespace Session

variable {source : String} {act : Token → Expr → Action (List α)} {results : List α}
  {start : Token} {later left : List Token} {env env' : Environment} {n : Nat}

/-! ## The loop over the forms of a text -/

/-- No tokens are left. -/
def NoneLeft (s : List Token × Environment) : Prop := s.1 = []

/-- A round in which a form is read and taken.  Its results are added to those before it. -/
def takeNext (source : String) (act : Token → Expr → Action (List α)) (results : List α) :
    EStateM Failure (List Token × Environment) (List α) := fun
  | ([], env) => .ok results ([], env)
  | (start :: later, env) =>
    match Parser.expr .any (start :: later) with
    | .error e left => .error (e.failure (some source)) (left, env)
    | .ok e left =>
      match act start e env with
      | .error failure env => .error failure (left, env)
      | .ok more env => .ok (results ++ more) (left, env)

/-- What a text of forms ends in once these have been taken: the results, or the fault that keeps
the next form from being read. -/
def conclude (source : String) (fault : Option ReadError) (results : List α) :
    Action (List α) :=
  match fault with
  | none => return results
  | some e => throw (e.failure (some source))

/-- What is left of a result when it does not matter any more which tokens are. -/
def settle (f : α → β) :
    EStateM.Result Failure (List Token × Environment) α → EStateM.Result Failure Environment β
  | .ok a s => .ok (f a) s.2
  | .error failure s => .error failure s.2

theorem takeText_eq {act : String → Token → Expr → Action (List α)} {ts : List Token}
    (h : tokens (blankComments source) = .ok ts) (env : Environment) :
    takeText source act env =
      (takeForms (act (blankComments source)) (readForms ts).1 >>=
        conclude (blankComments source) (readForms ts).2) (env.noted (.tokens ts)) := by
  rw [takeText_run h]
  rfl

/-- A round is completed if a form is read and taken. -/
theorem exists_of_takeNext {s s' : List Token × Environment} {results' : List α}
    (hsome : ¬ NoneLeft s) (h : takeNext source act results s = .ok results' s') :
    ∃ start later e more, s.1 = start :: later ∧
      Parser.expr .any (start :: later) = .ok e s'.1 ∧ act start e s.2 = .ok more s'.2 ∧
      results' = results ++ more := by
  obtain ⟨_ | ⟨start, later⟩, env⟩ := s
  · exact absurd rfl hsome
  · rw [takeNext] at h
    cases hread : Parser.expr .any (start :: later) with
    | error e left =>
      rw [hread] at h
      cases h
    | ok e left =>
      simp only [hread] at h
      cases hact : act start e env with
      | error failure env' =>
        rw [hact] at h
        cases h
      | ok more env' =>
        rw [hact] at h
        obtain ⟨rfl, rfl⟩ := EStateM.Result.ok.inj h
        exact ⟨start, later, e, more, rfl, hread, hact, rfl⟩

/-- A round fails if no form is read, or if the form that is read is not taken. -/
theorem fails_of_takeNext {s s' : List Token × Environment} {failure : Failure}
    (hsome : ¬ NoneLeft s) (h : takeNext source act results s = .error failure s') :
    ∃ start later, s.1 = start :: later ∧
      ((∃ e, Parser.expr .any (start :: later) = .error e s'.1 ∧
        failure = e.failure (some source) ∧ s'.2 = s.2) ∨
      ∃ e, Parser.expr .any (start :: later) = .ok e s'.1 ∧
        act start e s.2 = .error failure s'.2) := by
  obtain ⟨_ | ⟨start, later⟩, env⟩ := s
  · exact absurd rfl hsome
  · rw [takeNext] at h
    refine ⟨start, later, rfl, ?_⟩
    cases hread : Parser.expr .any (start :: later) with
    | error e left =>
      rw [hread] at h
      obtain ⟨rfl, rfl⟩ := EStateM.Result.error.inj h
      exact .inl ⟨e, rfl, rfl, rfl⟩
    | ok e left =>
      simp only [hread] at h
      cases hact : act start e env with
      | ok more env' =>
        rw [hact] at h
        cases h
      | error failure env' =>
        rw [hact] at h
        obtain ⟨rfl, rfl⟩ := EStateM.Result.error.inj h
        exact .inr ⟨e, rfl, hact⟩

/-- The loop ends as the forms do that are read from its tokens beforehand and then taken. -/
theorem settle_of_rounds {s : List Token × Environment}
    {r : EStateM.Result Failure (List Token × Environment) (List α)}
    (h : Rounds NoneLeft (takeNext source act) n results s r) :
    settle id r = (takeForms act (readForms s.1).1 >>= fun more =>
      conclude source (readForms s.1).2 (results ++ more)) s.2 := by
  induction h with
  | @leave results s hnone =>
    rw [show s.1 = [] from hnone, readForms, takeForms, pure_bind, List.append_nil]
    rfl
  | @fail results s s' failure hsome hround =>
    -- Either there is no next form, or it is the first of the forms and is not taken.
    obtain ⟨start, later, htokens, ⟨e, hread, rfl, hsame⟩ | ⟨e, hread, hact⟩⟩ :=
      fails_of_takeNext hsome hround
    · rw [htokens, readForms_of_error hread, takeForms, pure_bind, ← hsame]
      rfl
    · rw [htokens, readForms_of_ok hread, takeForms]
      exact (run_bind_of_error _ (run_bind_of_error _ hact)).symm
  | @next n results results' s s' r hsome hround _ ih =>
    obtain ⟨start, later, e, more, htokens, hread, hact, rfl⟩ := exists_of_takeNext hsome hround
    rw [ih, htokens, readForms_of_ok hread]
    simp only [takeForms, bind_assoc, pure_bind]
    rw [run_bind_of_ok _ hact]
    simp only [List.append_assoc]

/-- The loop over the forms of a text has no more rounds than the text has tokens, and ends as the
text does. -/
theorem loopEnds_takeText {act : String → Token → Expr → Action (List α)} {ts : List Token}
    (h : tokens (blankComments source) = .ok ts) (env : Environment) :
    LoopEnds NoneLeft (takeNext (blankComments source) (act (blankComments source))) ts.length []
      (ts, env.noted (.tokens ts)) fun r => settle id r = takeText source act env := by
  have hsmaller : ∀ (results : List α) (s : List Token × Environment) results' s', ¬ NoneLeft s →
      takeNext (blankComments source) (act (blankComments source)) results s = .ok results' s' →
        s'.1.length < s.1.length := by
    intro results s results' s' hsome hround
    obtain ⟨start, later, e, more, htokens, hread, -⟩ := exists_of_takeNext hsome hround
    rw [htokens]
    exact (Parser.takes_expr .any _).length_lt hread
  refine ⟨exists_rounds (fun s => s.1.length) hsmaller _ _,
    fun hrun => ⟨hrun.le_size (fun s => s.1.length) hsmaller, ?_⟩⟩
  rw [settle_of_rounds hrun, takeText_eq h]
  simp only [List.nil_append]

/-- What is left of the loop of a text that is loaded, whose results say nothing. -/
theorem settle_load {r : EStateM.Result Failure (List Token × Environment) (List Unit)}
    (h : settle id r = takeText source loadForm env) :
    settle (fun _ => ()) r = load source env := by
  rw [load_eq, discard_eq]
  cases r with
  | ok results s => exact (run_bind_of_ok (fun _ => pure ()) h.symm).symm
  | error failure s => exact (run_bind_of_error _ h.symm).symm

end Session

open DynLisp.Parser DynLisp.Session

/-- **Reading goes forward and ends.**

* Every reader of the grammar takes at least one token from the front, or it stops with a fault or
  at a number of too many digits, and what it leaves are the last tokens.  From a cursor inside its
  tokens it leads to a larger index, or in an error of the grammar to one that is not smaller, or
  just behind a number of too many digits that is not before the cursor, and never past the tokens.
* The operands of a form are read from fewer tokens than the form is.
* The loops over arguments, cases and parameters have a run on all tokens, with no more rounds than
  there are tokens, and so have the loops over the forms of a text that is loaded or executed. -/
theorem reading_ends [Machine] :
    (∀ (α : Type) (p : Parser α), Production p →
      (∀ us, Result.Takes 1 us (p us)) ∧
      ∀ c : Cursor, c.index ≤ c.tokens.length → c.Advances (c.read p)) ∧
    (∀ (operand : Position → Parser Expr) (p : Position) (us : List Token),
      (∀ q vs, vs.length < us.length → operand q vs = expr q vs) →
        step operand p us = expr p us) ∧
    (∀ us, LoopEnds ClosingNext (gatherItem (expr .any)) us.length [] us
      (· = untilClosing (expr .any) us)) ∧
    (∀ us, LoopEnds ClosingNext (gatherItem (caseOf expr)) us.length [] us
      (· = untilClosing (caseOf expr) us)) ∧
    (∀ function us, LoopEnds ClosingNext (gatherParameter function) us.length [] us
      (· = parameters function [] us)) ∧
    (∀ (source : String) (ts : List Token) (env : Environment),
      tokens (blankComments source) = .ok ts →
        LoopEnds NoneLeft (takeNext (blankComments source) (loadForm (blankComments source)))
          ts.length [] (ts, env.noted (.tokens ts))
          (fun r => settle (fun _ => ()) r = load source env) ∧
        LoopEnds NoneLeft (takeNext (blankComments source) (executeForm (blankComments source)))
          ts.length [] (ts, env.noted (.tokens ts))
          (fun r => settle id r = execute source env)) := by
  refine ⟨fun α p hp => ⟨hp.takes, fun c hc => ?_⟩, fun operand p us => step_eq_expr,
    fun us => ?_, fun us => ?_, fun function us => ?_, fun source ts env htokens => ⟨?_, ?_⟩⟩
  · exact Cursor.advances_of_takes hc (hp.takes c.rest)
  · exact loopEnds_untilClosing (Production.expr .any).takes us
  · exact loopEnds_untilClosing Production.caseOf.takes us
  · exact loopEnds_parameters function [] us
  · exact (loopEnds_takeText htokens env).imp fun r => settle_load
  · exact loopEnds_takeText htokens env

/-- A call inside a call, both cut off before their arguments: the reader of calls takes all tokens
before it fails at their end, the operands may be read in any way from four tokens on, and the text
is not executed. -/
theorem reading_ends_unfinished :
    let _ : Machine := .ofCalls 1
    let source := "(f (g"
    let ts : List Token := [⟨.opening, "(", 0⟩, ⟨.identifier, "f", 1⟩, ⟨.opening, "(", 3⟩,
      ⟨.identifier, "g", 4⟩]
    let c : Cursor := ⟨ts, 0, some source⟩
    let operand : Position → Parser Expr := fun q vs =>
      if vs.length < 4 then expr q vs else .ok (.number 0) vs
    let failure : Failure := .error (.grammar .endOfInput) ⟨some source, some 5, some 6⟩
    (Production (call expr) ∧ c.index ≤ c.tokens.length ∧ c.Advances (c.read (call expr)) ∧
      c.read (call expr) = (.error failure, { c with index := 4 })) ∧
    ((∀ q vs, vs.length < ts.length → operand q vs = expr q vs) ∧
      step operand .any ts = expr .any ts) ∧
    tokens (blankComments source) = .ok ts ∧
    (∃ n r, Rounds NoneLeft (takeNext (blankComments source) (executeForm (blankComments source)))
      n [] (ts, Environment.empty.noted (.tokens ts)) r ∧ n ≤ 4 ∧
      settle id r = execute source .empty) ∧
    (execute source).outcome .empty = .error failure := by
  intro _ source ts c operand failure
  obtain ⟨hprogress, hoperand, -, -, -, htexts⟩ := reading_ends
  have hbelow : ∀ q vs, vs.length < ts.length → operand q vs = expr q vs :=
    fun q vs hlt => if_pos hlt
  have htokens : tokens (blankComments source) = .ok ts := by decide +kernel
  obtain ⟨-, hexecute⟩ := htexts source ts .empty htokens
  obtain ⟨n, r, hrun⟩ := hexecute.exists_run
  exact ⟨⟨.call, by decide, (hprogress Expr (call expr) .call).2 c (by decide), by decide +kernel⟩,
    ⟨hbelow, hoperand operand .any ts hbelow⟩, htokens,
    ⟨n, r, hrun, (hexecute.of_run hrun).1, (hexecute.of_run hrun).2⟩, by decide +kernel⟩

/-- A cursor is led behind a literal of too many digits. -/
theorem Cursor.read_numberLiteral_of_not_convertible {t : Token} (hk : t.kind = .number)
    (h : ¬ t.Convertible) (us : List Token) (source : Option String) :
    (Cursor.mk (t :: us) 0 source).read (numberLiteral false none) =
      (.error (.oversized t.text.length), ⟨t :: us, 1, source⟩) := by
  have hrest : (Cursor.mk (t :: us) 0 source).rest = t :: us := rfl
  rw [Cursor.read, hrest, numberLiteral_of_not_convertible hk h]
  dsimp only [Cursor.leave]
  rw [List.length_cons, Nat.add_sub_cancel_left]
  rfl

/-- The reader of literals neither returns nor stops with a fault of the grammar at a literal of
4301 digits. -/
theorem reading_ends_ones :
    let ones := Token.repeated '1' 4301
    let c : Cursor := ⟨[ones], 0, some ones.text⟩
    Production (numberLiteral false none) ∧ ones.IsLexical ∧ c.index ≤ c.tokens.length ∧
      c.read (numberLiteral false none) = (.error (.oversized 4301), ⟨[ones], 1, some ones.text⟩) ∧
      (∀ e, (c.read (numberLiteral false none)).1 ≠ .ok e) ∧
      ∀ fault location,
        (c.read (numberLiteral false none)).1 ≠ .error (.error (.grammar fault) location) := by
  intro ones c
  have hread := Cursor.read_numberLiteral_of_not_convertible (t := ones) rfl
    (Token.not_convertible_repeated (by decide)) [] (some ones.text)
  rw [Token.length_repeated] at hread
  refine ⟨.numberLiteral false none, Token.isLexical_repeated rfl (by decide), by decide, hread,
    ?_, ?_⟩
  all_goals rw [hread]
  · rintro e ⟨⟩
  · rintro fault location ⟨⟩

end DynLisp
