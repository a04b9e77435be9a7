import DynLisp.Text.Blank
import DynLisp.Token

/-!
# Locations

Where in a text a fault lies.  While tokens are read the text itself is out of sight, and a fault
is only said to lie at a `Place`: at a token, or at the end of the input.  A `Location` is what a
report needs, the text and the offsets at which the part in question starts and stops.

Each part of a location may be missing.  Only a location with a text and a start can be shown, and
its stop may lie anywhere.
-/

namespace DynLisp

/-- A part of a text, as far as it is known. -/
structure Location where
  source : Option String := none
  start : Option Nat := none
  stop : Option Int := none
  deriving DecidableEq, Repr, Inhabited

/-- The location of something that lies nowhere. -/
def Location.unknown : Location where

/-- Where a fault lies among the tokens of a text. -/
inductive Place where
  /-- At a token. -/
  | token (t : Token)
  /-- From the offset `start` to the end of a token. -/
  | upTo (start : Nat) (t : Token)
  /-- After the last token. -/
  | endOfInput
  deriving DecidableEq, Repr, Inhabited

namespace Place

/-- The location of a place in a text, if there is one.  What is missing at the end of the input
is looked for from the last character that is not blank up to one past the end of the text, and
without a text it lies nowhere. -/
def locate (source : Option String) : Place → Location
  | token t => ⟨source, some t.offset, some t.stop⟩
  | upTo start t => ⟨source, some start, some t.stop⟩
  | endOfInput =>
    match source with
    | none => .unknown
    | some s => ⟨source, some (Text.trimEnd s).length, some (s.length + 1)⟩

end Place

end DynLisp
