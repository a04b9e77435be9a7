import DynLisp.Failure
import DynLisp.Parser.Form

/-!
# Reading expressions

`Parser.expr` reads one expression from the front of a list of tokens and leaves what stands after
it.  It ties the knot that the forms leave open: the expressions inside a form are read by
`Parser.expr` itself.  Every form takes its opening delimiter before it reads an operand, so an
operand is always read from fewer tokens than the form was, and that is what the recursion
descends on.

`parse` reads a whole text, which has to be one expression and nothing else.
-/

namespace DynLisp

namespace Parser

/-- An expression in a position.  Its operands are read from fewer tokens. -/
def expr (position : Position) (ts : List Token) : Result Expr :=
  step (fun inner rest =>
    if rest.length < ts.length then expr inner rest
    else .error (.grammar ⟨.endOfInput, .endOfInput⟩) rest) position ts
termination_by ts.length

/-- A list of tokens that is one expression. -/
def program : Parser Expr := do
  if (← peek 0).isNone then
    blameEnd .emptyProgram
  let e ← expr .any
  match ← peek 0 with
  | none => return e
  | some t => blame (.trailingToken t.text) t

end Parser

/-- The tokens of a text, or the failure that reports a character that starts none. -/
def tokens (source : String) : Except Failure (List Token) :=
  match tokenize source with
  | .ok ts => .ok ts
  | .error bad => .error (bad.failure source)

/-- The expression that a text consists of. -/
def parse (source : String) : Except Failure Expr := do
  let ts ← tokens source
  match Parser.program ts with
  | .ok e _ => return e
  | .error e _ => throw (e.failure (some source))

end DynLisp
