import DynLisp.Text.Decimal

/-!
# Values

What an expression evaluates to: a number or a boolean, and nothing else.  A number and a boolean
are never the same value.
-/

namespace DynLisp

/-- The result of an evaluation. -/
inductive Value where
  | number (value : Int)
  | boolean (value : Bool)
  deriving DecidableEq, Repr, Inhabited

/-- A boolean as programs write it. -/
def boolText : Bool → String
  | true => "true"
  | false => "false"

/-- A value as programs write it. -/
def Value.text : Value → String
  | number n => Decimal.write n
  | boolean b => boolText b

end DynLisp
