import DynLisp.Parser.Basic
import DynLisp.Text.Utf8
import DynLisp.Token.Lexer

/-!
# Failures

How a computation ends when it does not end in its result.  A fault of the program is the usual
way, with the location that it lies at, and only what goes wrong before anything runs is located:
a fault of the evaluation lies nowhere in particular.

The other ways are no faults of the program: calls that are nested too deeply, a literal number of
too many digits, taking a binding from a name that has none, showing a tree that has no outline, a
path that names nothing, and bytes that are no text.
-/

namespace DynLisp

/-- How a computation ends without its result. -/
inductive Failure where
  | error (fault : Fault) (location : Location)
  /-- Calls are nested more deeply than is allowed. -/
  | depthExceeded
  /-- A literal number has more digits than are converted. -/
  | oversized (digits : Nat)
  /-- A binding was to be taken from a name that has none. -/
  | emptyStack
  /-- A tree was to be shown that has no outline. -/
  | cannotDisplay (e : Expr)
  /-- A path holds a character that no path may hold. -/
  | unusablePath
  /-- A file holds bytes that are no text. -/
  | undecodable (fault : Utf8.Fault)
  deriving DecidableEq, Repr, Inhabited

/-- A fault that lies nowhere in particular. -/
def Fault.failure (fault : Fault) : Failure := .error fault .unknown

/-- A character that starts no token, in a text. -/
def IllegalCharacter.failure (source : String) (bad : IllegalCharacter) : Failure :=
  .error (.illegalCharacter bad.char) ⟨some source, some bad.offset, some (bad.offset + 1)⟩

/-- A fault of the grammar, in a text if there is one. -/
def GrammarError.failure (source : Option String) (e : GrammarError) : Failure :=
  .error (.grammar e.fault) (e.place.locate source)

/-- What kept a reader from its result, in a text if there is one. -/
def ReadError.failure (source : Option String) : ReadError → Failure
  | grammar e => e.failure source
  | oversized digits => .oversized digits

end DynLisp
