import DynLisp.Expr
import DynLisp.Text.Decimal

/-!
# Checked arithmetic

Numbers are the integers of 32 bits with a sign.  An operation whose exact result is not one of
them is refused, never wrapped.

The quotient is rounded toward zero and the remainder has the sign of the dividend, so that the
quotient times the divisor plus the remainder is the dividend.  Both are computed from the sizes of
the two integers, and the sign is put in front afterwards.  Where the quotient is refused the
remainder is refused as well: at a divisor of zero, and at the least number divided by `-1`, whose
quotient is one too large although the remainder would be zero.

The operations take any integers, and outside the range of 32 bits the remainder alone is not
checked: it is never further from zero than its dividend.
-/

namespace DynLisp

/-- The least number of 32 bits. -/
def minNumber : Int := -2147483648

/-- The greatest number of 32 bits. -/
def maxNumber : Int := 2147483647

/-- Whether an integer is a number of 32 bits. -/
def inRange (n : Int) : Bool := minNumber ≤ n && n ≤ maxNumber

theorem inRange_iff {n : Int} : inRange n = true ↔ minNumber ≤ n ∧ n ≤ maxNumber := by
  rw [inRange, Bool.and_eq_true, decide_eq_true_eq, decide_eq_true_eq]

/-- Why an operation is refused. -/
inductive ArithmeticFault where
  /-- The result of what `subject` shows is out of range. -/
  | overflow (subject : String)
  | divisionByZero (dividend : Int)
  | remainderByZero (dividend : Int)
  deriving DecidableEq, Repr, Inhabited

namespace ArithOp

/-- An operation on two numbers as it is shown in messages. -/
def shown (op : ArithOp) (a b : Int) : String :=
  "(" ++ op.symbol ++ " " ++ Decimal.write a ++ " " ++ Decimal.write b ++ ")"

end ArithOp

namespace ArithmeticFault

/-- What a message about a refused operation shows. -/
def subject : ArithmeticFault → String
  | overflow subject => subject
  | divisionByZero dividend => ArithOp.div.shown dividend 0
  | remainderByZero dividend => ArithOp.mod.shown dividend 0

end ArithmeticFault

/-- A number that is in range, or else the overflow of what `subject` shows.  Without a subject
the number is shown. -/
def checked (n : Int) (subject : String) : Except ArithmeticFault Int :=
  if inRange n then .ok n
  else .error (.overflow (if subject = "" then Decimal.write n else subject))

/-- The integer of a size, with a sign in front or without. -/
def signed (negative : Bool) (size : Nat) : Int := if negative then -size else size

/-- The quotient of two integers.  It is negative if just one of them is. -/
def quotient (a b : Int) : Int :=
  signed (decide (a < 0) != decide (b < 0)) (a.natAbs / b.natAbs)

/-- The remainder of two integers.  It is negative if the first one is. -/
def remainder (a b : Int) : Int := signed (decide (a < 0)) (a.natAbs % b.natAbs)

/-- The result of an operator on two numbers. -/
def ArithOp.apply (op : ArithOp) (a b : Int) : Except ArithmeticFault Int :=
  match op with
  | add => checked (a + b) (add.shown a b)
  | sub => checked (a - b) (sub.shown a b)
  | mul => checked (a * b) (mul.shown a b)
  | div =>
    if b = 0 then .error (.divisionByZero a)
    else checked (quotient a b) (div.shown a b)
  | mod =>
    if b = 0 then .error (.remainderByZero a)
    else if a = minNumber ∧ b = -1 then .error (.overflow (mod.shown a b))
    else .ok (remainder a b)

end DynLisp
