import DynLisp.Proofs.Environment.Covered
import DynLisp.Proofs.Evaluation.Induction

/-!
# What evaluations leave behind

An evaluation restores its environment on every way out, at whatever point it fails.  Only calls
bind anything, and a call takes back what it has bound, so all the actions which evaluations are
made of restore the environment (`evaluative_restores`).

Where calls are nested too deeply, a machine that is not steady has no room for all that is to be
taken back.  Then the environment is not restored.  It is covered: the functions are as they were,
and every value that a name had it has still, below those that have stayed.
-/

namespace DynLisp

open DynLisp.Action DynLisp.Environment

section

variable [Machine]

theorem evaluative_restores : Evaluative Restores where
  pure := restores_pure
  fault fault := restores_throw fault.failure
  depthExceeded := restores_throw .depthExceeded
  bind hact hf := hact.bind hf
  lookup := restores_lookup
  function := restores_function
  note := restores_note
  binding room pairs hbody := restores_binding hbody room pairs

/-- An expression restores the environment if the calls in it do. -/
theorem restores_evaluateWith {call : String → List Value → Action Value}
    (hcall : ∀ f args, (call f args).Restores) (e : Expr) : Restores (evaluateWith call e) :=
  evaluative_restores.evaluateWith hcall e

theorem restores_evaluateAll {call : String → List Value → Action Value}
    (hcall : ∀ f args, (call f args).Restores) (es : List Expr) :
    Restores (evaluateAll call es) :=
  evaluative_restores.evaluateAll hcall es

theorem restores_evaluateCases {call : String → List Value → Action Value}
    (hcall : ∀ f args, (call f args).Restores) (cases : List (Expr × Expr)) :
    Restores (evaluateCases call cases) :=
  evaluative_restores.evaluateCases hcall cases

theorem restores_resolveCall (f : String) (args : List Value) : Restores (resolveCall f args) :=
  evaluative_restores.resolveCall f args

theorem restores_callWith {body : Expr → Action Value} (hbody : ∀ e, (body e).Restores)
    (room : Nat) (f : String) (args : List Value) :
    Restores (callWith (Machine.kept room) body f args) :=
  evaluative_restores.callWith hbody room f args

theorem restores_evaluate (limit : Nat) (e : Expr) : Restores (evaluate limit e) :=
  evaluative_restores.evaluate limit e

end

/-- A machine on which the first binding of a call stays: an endless recursion leaves one value of
the parameter for each call that was active. -/
example :
    ((@evaluate ⟨3, fun _ => 1⟩ 3 (.call "f" [.number 1])).after
      (.ofFunctions [("f", ⟨["n"], .call "f" [.var "n"]⟩)])).bindings.stack "n" =
        [.number 1, .number 1, .number 1, .number 1] := by
  rfl

end DynLisp
