import DynLisp.Diagnostic
import DynLisp.Parser

/-!
# Cursors

A place in a list of tokens: how many of them were taken, and the text that they were cut from, if
that is known.  A cursor moves forward only.  Readers of tokens run on what is left and move the
cursor to where they stop, also when they stop with a fault, which is then located in the text.
-/

namespace DynLisp

/-- Tokens, how many of them were taken, and the text that they were cut from. -/
structure Cursor where
  tokens : List Token
  index : Nat
  source : Option String
  deriving DecidableEq, Repr, Inhabited

namespace Cursor

/-- A cursor before the first token. -/
def start (tokens : List Token) (source : Option String) : Cursor := ⟨tokens, 0, source⟩

/-- The tokens that are left. -/
def rest (c : Cursor) : List Token := c.tokens.drop c.index

/-- Whether no tokens are left. -/
def atEnd (c : Cursor) : Bool := c.tokens.length ≤ c.index

/-- The token `n` places from the next one, ahead of it or behind. -/
def peek? (c : Cursor) (n : Int) : Option Token := c.tokens[(c.index + n).toNat]?

/-- A cursor with some tokens left. -/
def leave (c : Cursor) (left : List Token) : Cursor :=
  { c with index := c.tokens.length - left.length }

/-- Runs a reader of tokens on what is left. -/
def read {α : Type} (parser : Parser α) (c : Cursor) : Except Failure α × Cursor :=
  match parser c.rest with
  | .ok a left => (.ok a, c.leave left)
  | .error e left => (.error (e.failure c.source), c.leave left)

/-- Takes all the tokens that are left. -/
def readAll (c : Cursor) : List Token × Cursor := (c.rest, c.leave [])

/-- The error of the grammar that a template makes of some snippets, at the next token or at the
end of the input. -/
def error (c : Cursor) (template : Template) (snippets : List String) (here : Bool) :
    Except Nat Diagnostic :=
  let place := match here, c.peek? 0 with
    | true, some t => Place.token t
    | _, _ => Place.endOfInput
  Diagnostic.ofTemplate .grammar template snippets (place.locate c.source) none

/-- A cursor with its tokens. -/
def inspect (c : Cursor) : String :=
  Listing.record "TokenCursor"
    [("index", Decimal.write c.index), ("tokens", Token.inspectList c.tokens)]

end Cursor

end DynLisp
