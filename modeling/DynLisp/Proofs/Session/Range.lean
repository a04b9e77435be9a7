import DynLisp.Proofs.Evaluation.Range
import DynLisp.Proofs.RoundTrip
import DynLisp.Proofs.Session.Invariant

/-!
# Values of texts are in range

All literals that are read from a text are in range, so the environment of a session that was given
nothing but text is in range (`TextFed.inRange`), and so is every value that it returns.  Such a
value reads back: the number that is written, sign and digits, is the number that is read, since it
is a number of 32 bits.
-/

namespace DynLisp

open DynLisp.Action
open Environment (InRange)

/-! ## Sessions that are given text -/

section

variable [Machine]

/-- Sessions keep their environments in range, and so are the values that they return. -/
theorem inRange_invariant : Session.Invariant InRange Value.InRange where
  restored hrestored henv := henv.of_restored hrestored
  defined he _ henv := ⟨henv.bindings,
    List.forall_mem_append.2 ⟨henv.functions, List.forall_mem_singleton.2 he.literalsInRange⟩⟩
  evaluated he := maintains_evaluate _ _ he.literalsInRange

theorem TextFed.inRange {env : Environment} (h : TextFed env) : env.InRange :=
  inRange_invariant.textFed ⟨nofun, nofun⟩ h

/-- The values that texts have, one by one, in an environment. -/
inductive Returns (env : Environment) (v : Value) : Prop
  | execute {source : String} {vs : List Value} :
      (Session.execute source).outcome env = .ok vs → v ∈ vs → Returns env v
  | evaluate {source : String} : (Session.evaluate source).outcome env = .ok v → Returns env v
  | run : Session.run.outcome env = .ok v → Returns env v
  | runProgram {source : String} : (runProgram source).outcome env = .ok v → Returns env v
  | runSnippet {source : String} : (runSnippet source).outcome env = .ok v → Returns env v

theorem Returns.inRange {env : Environment} {v : Value} (h : Returns env v) (henv : env.InRange) :
    v.InRange := by
  cases h with
  | execute hrun hv => exact (inRange_invariant.execute _ env henv).2 _ hrun v hv
  | evaluate hrun => exact (inRange_invariant.evaluate _ env henv).2 v hrun
  | run hrun => exact (inRange_invariant.run env henv).2 v hrun
  | runProgram hrun => exact (inRange_invariant.runProgram _ env henv).2 v hrun
  | runSnippet hrun => exact (inRange_invariant.runSnippet _ env henv).2 v hrun

/-! ## Reading values back -/

/-- A value in range is what its text evaluates to, in any environment. -/
theorem runSnippet_text {v : Value} (h : v.InRange) (env : Environment) :
    (runSnippet v.text).outcome env = .ok v := by
  cases v with
  | number n =>
    have hspells : Spells (Value.number n).text (Derives .any · (.number n)) :=
      spells_number trivial h
    obtain ⟨ts, hd, hconv, htokens⟩ := hspells.tokenize
    rw [runSnippet, parse_eq_ok_iff.2 ⟨ts, htokens, hd, hconv⟩]
    show (evaluate Machine.calls (.number n)).outcome env = _
    rw [evaluate_eq]
    rfl
  | boolean b =>
    have hspells : Spells (Value.boolean b).text (Derives .any · (.boolean b)) :=
      spells_boolean trivial
    obtain ⟨ts, hd, hconv, htokens⟩ := hspells.tokenize
    rw [runSnippet, parse_eq_ok_iff.2 ⟨ts, htokens, hd, hconv⟩]
    show (evaluate Machine.calls (.boolean b)).outcome env = _
    rw [evaluate_eq]
    rfl

end

/-- **Numbers never leave 32 bits.**  If all bound numbers and all literals of functions are in
range, and the literals of an expression as well, then this holds of every evaluation on the way of
its evaluation, at any depth of calls, and each of them ends in a value in range.  Literals that
are read from a text are in range.  So the values that texts have in sessions which were given only
text are what their own texts evaluate to. -/
theorem numbers_inRange [Machine] :
    (∀ (limit : Nat) (env : Environment) (e : Expr), env.InRange → e.LiteralsInRange →
      ∀ c, Relation.ReflTransGen Enters ⟨limit, env, e⟩ c →
        c.InRange ∧ ∀ v, c.outcome = .ok v → v.InRange) ∧
      (∀ (source : String) (e : Expr), parse source = .ok e → e.LiteralsInRange) ∧
      ∀ (env : Environment) (v : Value), TextFed env → Returns env v →
        ∀ env', (runSnippet v.text).outcome env' = .ok v :=
  ⟨fun _ _ _ henv he _ hc => inRange_of_reaches ⟨henv, he⟩ hc,
    fun _ _ hparse => (wellFormed_of_parse hparse).literalsInRange,
    fun _ _ henv hv => runSnippet_text (hv.inRange henv.inRange)⟩

/-- The body `(- x 1)` of a function, entered with the least number but one bound to `x`: its value
is the least number, which is written with a sign and is read again. -/
theorem numbers_inRange_least :
    let _ : Machine := .ofCalls 1
    let body : Expr := .arith .sub (.var "x") (.number 1)
    let env : Environment := .ofFunctions [("f", ⟨["x"], body⟩)]
    let e : Expr := .call "f" [.number (-2147483647)]
    let session := (Session.load "(define (f x) (- x 1))").after .empty
    env.InRange ∧ e.LiteralsInRange ∧ parse "(f -2147483647)" = .ok e ∧
      (∃ c, Relation.ReflTransGen Enters ⟨1, env, e⟩ c ∧ c.expr = body ∧ c.InRange ∧
        c.outcome = .ok (.number (-2147483648)) ∧ Value.InRange (.number (-2147483648))) ∧
      TextFed session ∧ Returns session (.number (-2147483648)) ∧
      (Value.number (-2147483648)).text = "-2147483648" ∧
      (runSnippet "-2147483648").outcome .empty = .ok (.number (-2147483648)) := by
  intro _ body env e session
  have henv : env.InRange :=
    ⟨nofun, List.forall_mem_singleton.2 ⟨trivial, (by decide : inRange 1 = true)⟩⟩
  have hparse : parse "(f -2147483647)" = .ok e := by decide +kernel
  have he : e.LiteralsInRange := numbers_inRange.2.1 _ _ hparse
  have hargs : evaluateAll (calls 1) [.number (-2147483647)] env =
      .ok [.number (-2147483647)] env := rfl
  have hresolve : resolveCall "f" [.number (-2147483647)] env = .ok ⟨["x"], body⟩
      { env with notices := [.calling "f" [("x", .number (-2147483647))]] } := rfl
  have henters := Enters.body hargs hresolve
  obtain ⟨hc, hvalue⟩ := numbers_inRange.1 1 env e henv he _ (.single henters)
  have hfed : TextFed session := .load _ .empty
  have hrun : (Session.evaluate "(f -2147483647)").outcome session =
      .ok (.number (-2147483648)) := by decide +kernel
  have hreturns : Returns session (.number (-2147483648)) := .evaluate hrun
  have htext : (Value.number (-2147483648)).text = "-2147483648" := by decide +kernel
  have hread := numbers_inRange.2.2 session _ hfed hreturns .empty
  rw [htext] at hread
  exact ⟨henv, he, hparse, ⟨_, .single henters, rfl, hc, rfl, hvalue _ rfl⟩, hfed, hreturns, htext,
    hread⟩

end DynLisp
