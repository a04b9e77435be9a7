import DynLisp.Fault
import DynLisp.Location

/-!
# Readers of tokens

A `Parser` takes tokens from the front of a list.  It returns a result and the tokens that it
leaves, or a fault with its place, and then the tokens left are those that stood there when the
fault was found.  It never looks behind and never puts a token back.

A literal number of too many digits is no fault of the grammar.  It stops the reader all the same,
since its value cannot be found, and that way out has no place, `ReadError.oversized`.

The operations here look at the next tokens, take one of them, and blame a token or the end of
the input.
-/

namespace DynLisp

/-- A fault of the grammar and where it lies. -/
structure GrammarError where
  fault : GrammarFault
  place : Place
  deriving DecidableEq, Repr, Inhabited

/-- How reading ends without a result. -/
inductive ReadError where
  | grammar (e : GrammarError)
  /-- A literal number has more digits than are converted. -/
  | oversized (digits : Nat)
  deriving DecidableEq, Repr, Inhabited

/-- A reader of tokens. -/
abbrev Parser := EStateM ReadError (List Token)

/-- What reading ends in. -/
abbrev Parser.Result (α : Type) := EStateM.Result ReadError (List Token) α

namespace Parser

variable {α : Type}

/-- Stops with a fault at a token. -/
def blame (fault : GrammarFault) (t : Token) : Parser α := throw (.grammar ⟨fault, .token t⟩)

/-- Stops with a fault at the end of the input. -/
def blameEnd (fault : GrammarFault) : Parser α := throw (.grammar ⟨fault, .endOfInput⟩)

/-- The token `n` places ahead, which is left where it is. -/
def peek (n : Nat) : Parser (Option Token) := do
  return (← get)[n]?

/-- The kind of the token `n` places ahead. -/
def peekKind (n : Nat) : Parser (Option TokenKind) := do
  return (← peek n).map Token.kind

/-- Takes the next token. -/
def next : Parser Token := fun
  | [] => .error (.grammar ⟨.endOfInput, .endOfInput⟩) []
  | t :: ts => .ok t ts

/-- Takes the next token if it is of one of some kinds, which messages call `wanted`. -/
def expectOneOf (kinds : List TokenKind) (wanted : String) : Parser Token := fun
  | [] => .error (.grammar ⟨.endOfInputFor wanted, .endOfInput⟩) []
  | t :: ts =>
    if t.kind ∈ kinds then .ok t ts
    else .error (.grammar ⟨.unexpected t.text wanted, .token t⟩) (t :: ts)

/-- Takes the next token if it is of a kind, which messages call `wanted`. -/
def expect (kind : TokenKind) (wanted : String) : Parser Token :=
  expectOneOf [kind] wanted

/-- Takes the next token if it opens a form. -/
def expectOpening : Parser Token := expect .opening TokenKind.opening.symbol

/-- Takes the next token if it closes a form. -/
def expectClosing : Parser Token := expect .closing TokenKind.closing.symbol

/-- Takes the next token if it writes an operator of a family. -/
def operator (ofKind? : TokenKind → Option α) (family : String) : Parser α := do
  let t ← next
  match ofKind? t.kind with
  | some op => return op
  | none => blame (.unknownOperator family t.text) t

/-- Reads items up to a closing delimiter, which is left.  An item that takes no token would be
read forever, and is the last. -/
def untilClosing (item : Parser α) (ts : List Token) : Result (List α) :=
  if ts.head?.map Token.kind = some .closing then
    .ok [] ts
  else
    match item ts with
    | .error e rest => .error e rest
    | .ok x rest =>
      if rest.length < ts.length then
        match untilClosing item rest with
        | .ok xs rest => .ok (x :: xs) rest
        | .error e rest => .error e rest
      else
        .ok [x] rest
termination_by ts.length

end Parser

end DynLisp
