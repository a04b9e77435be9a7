import DynLisp.Diagnostic
import DynLisp.Evaluation
import DynLisp.Expr.Outline
import DynLisp.Parser
import DynLisp.Text.Comment
import DynLisp.Text.Newline

/-!
# Sessions

A session owns an environment and takes programs into it: whole from a file or a text, or a few
forms at a time.

* `load` takes a text of definitions and nothing else; `run` then evaluates a call of the function
  that programs start at.
* `execute` takes any forms, defines the functions and evaluates everything else.
* `evaluate` takes one expression.

How many calls may be active at the same time is up to the `Machine` that a session runs on.

What a text of forms holds does not depend on the environment.  So its forms are first read, as far
as they read, and then taken one after the other; a fault of the grammar counts only once the forms
before it have been taken.  Comments are blanked beforehand in texts of forms.
-/

namespace DynLisp

/-! ## Texts of forms -/

/-- The forms at the front of some tokens, each with its first token, and what keeps the next one
from being read, if there is anything. -/
def readForms : List Token → List (Token × Expr) × Option ReadError
  | [] => ([], none)
  | start :: later =>
    match Parser.expr .any (start :: later) with
    | .error e _ => ([], some e)
    | .ok e rest =>
      if rest.length ≤ later.length then
        let (forms, fault) := readForms rest
        ((start, e) :: forms, fault)
      else
        ([(start, e)], none)
termination_by ts => ts.length

/-- Takes forms one after the other.  The results are those of all forms together. -/
def takeForms {α : Type} (act : Token → Expr → Action (List α)) :
    List (Token × Expr) → Action (List α)
  | [] => return []
  | (start, e) :: forms => do
    let results ← act start e
    return results ++ (← takeForms act forms)

/-- The environment that programs are taken into, and the name under which reports mention their
text. -/
structure Session where
  path : String
  environment : Environment
  deriving DecidableEq, Repr, Inhabited

namespace Session

/-- The name of texts that come from no file. -/
def standardPath : String := "<in>"

/-- A session in which nothing is defined. -/
def new (path : String) : Session := ⟨path, .empty⟩

/-- The function that a program starts at. -/
def entry : String := "main"

/-- Takes the forms of a text, where `act` is told the blanked text. -/
def takeText {α : Type} (source : String) (act : String → Token → Expr → Action (List α)) :
    Action (List α) := do
  let blanked := blankComments source
  match tokens blanked with
  | .error failure => throw failure
  | .ok ts =>
    Environment.note (.tokens ts)
    let (forms, fault) := readForms ts
    let results ← takeForms (act blanked) forms
    match fault with
    | none => return results
    | some e => throw (e.failure (some blanked))

/-- Defines a function that stands in a text from `start` on.  What is wrong with it is located
there. -/
def defineAt (source : String) (start : Token) (e : Expr) : Action Unit := fun env =>
  match Environment.define e env with
  | .error (.error fault _) env => .error (fault.failureAt source start.offset) env
  | outcome => outcome

variable [Machine]

/-- The value of an expression, after a notice of its tree. -/
def evaluateExpr (e : Expr) : Action Value := do
  match e.display 0 with
  | .ok lines => Environment.note (.tree lines)
  | .error part => throw (.cannotDisplay part)
  DynLisp.evaluate Machine.calls e

/-- Defines the functions of a text, which holds definitions only. -/
def load (source : String) : Action Unit :=
  discard <| takeText (α := Unit) source fun blanked start e => do
    match e with
    | .define .. => defineAt blanked start e
    | _ =>
      throw (.error (.notDefinition e) ((Place.token start).locate (some blanked)))
    return []

/-- Takes any forms of a text: defines the functions and returns the values of the other
expressions. -/
def execute (source : String) : Action (List Value) :=
  takeText source fun blanked start e => do
    match e with
    | .define .. =>
      defineAt blanked start e
      return []
    | _ => return [← evaluateExpr e]

/-- The value of the one expression that a text consists of. -/
def evaluate (source : String) : Action Value := do
  match parse source with
  | .ok e => evaluateExpr e
  | .error failure => throw failure

/-- Fails unless the function that programs start at is defined and has no parameters. -/
def checkEntry : Action Unit := do
  match (← get).functions.lookup entry with
  | none => throw (Fault.noEntry entry).failure
  | some definition =>
    if definition.params ≠ [] then
      throw (Fault.entryTakesArguments entry definition.params.length).failure

/-- The value of a call of the function that programs start at. -/
def run : Action Value := do
  checkEntry
  evaluate ("(" ++ entry ++ ")")

/-- Whether a path may name a file, which no path with the null character does. -/
def isUsablePath (path : String) : Bool := !path.toList.contains '\x00'

/-- Defines the functions of a file, given its bytes or nothing if it cannot be read. -/
def loadFile (path : String) (bytes : Option (List UInt8)) : Action Unit := do
  if !isUsablePath path then
    throw .unusablePath
  match bytes with
  | none => throw (Fault.unreadableFile path).failure
  | some bytes =>
    match Utf8.decode bytes with
    | .error fault => throw (.undecodable fault)
    | .ok source => load (Newline.unify source)

/-! ## Unfinished lines -/

/-- A line with the comments blanked and the blanks at its end trimmed, and whether more opening
than closing delimiters stand in it, so that the next line belongs to it.  A line that does not cut
into tokens is finished. -/
def prepareLine (line : String) : String × Bool :=
  let line := Text.trimEnd (blankComments line)
  match tokenize line with
  | .error _ => (line, false)
  | .ok ts =>
    (line, ts.countP (·.kind = .closing) < ts.countP (·.kind = .opening))

end Session

/-- The value of the function that a program starts at, once its functions are defined. -/
def runProgram [Machine] (source : String) : Action Value := do
  Session.load source
  Session.run

/-- The value of the one expression that a text consists of. -/
def runSnippet [Machine] (source : String) : Action Value := do
  match parse source with
  | .ok e => evaluate Machine.calls e
  | .error failure => throw failure

end DynLisp
