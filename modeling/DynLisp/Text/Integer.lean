import DynLisp.Text.Blank
import DynLisp.Text.Decimal

/-!
# Integers as people write them

Reading an integer from an argument.  Blanks may stand around it and a sign before it, the digits
may be those of any script, and single underscores may stand between digits.  As in programs, more
than `Decimal.maxDigits` digits are not converted.
-/

namespace DynLisp

/-- The number of the digit zero in each script that has decimal digits.  The other digits follow it
in order. -/
def zeroDigits : List Nat :=
  [0x30, 0x660, 0x6F0, 0x7C0, 0x966, 0x9E6, 0xA66, 0xAE6, 0xB66, 0xBE6, 0xC66, 0xCE6, 0xD66,
   0xDE6, 0xE50, 0xED0, 0xF20, 0x1040, 0x1090, 0x17E0, 0x1810, 0x1946, 0x19D0, 0x1A80, 0x1A90,
   0x1B50, 0x1BB0, 0x1C40, 0x1C50, 0xA620, 0xA8D0, 0xA900, 0xA9D0, 0xA9F0, 0xAA50, 0xABF0, 0xFF10,
   0x104A0, 0x10D30, 0x11066, 0x110F0, 0x11136, 0x111D0, 0x112F0, 0x11450, 0x114D0, 0x11650,
   0x116C0, 0x11730, 0x118E0, 0x11950, 0x11C50, 0x11D50, 0x11DA0, 0x16A60, 0x16AC0, 0x16B50,
   0x1D7CE, 0x1D7D8, 0x1D7E2, 0x1D7EC, 0x1D7F6, 0x1E140, 0x1E2F0, 0x1E950, 0x1FBF0]

/-- The value of a decimal digit of any script. -/
def digitValue? (c : Char) : Option Nat :=
  (zeroDigits.find? fun first => first ≤ c.toNat && c.toNat < first + 10).map fun first =>
    c.toNat - first

namespace Integer

/-- A blank that may stand around an integer.  The information separators are none. -/
def isMargin (c : Char) : Bool := isBlank c && !(0x1C ≤ c.toNat && c.toNat ≤ 0x1F)

/-- The number that digits denote after digits that denote `n`.  An underscore stands only between
two digits. -/
def digitsFrom? (n : Nat) : List Char → Option Nat
  | [] => some n
  | '_' :: c :: cs => do
    digitsFrom? (n * 10 + (← digitValue? c)) cs
  | c :: cs => do
    digitsFrom? (n * 10 + (← digitValue? c)) cs

/-- The number that one or more digits denote, if these are not too many. -/
def natural? : List Char → Option Nat
  | [] => none
  | c :: cs => do
    if Decimal.maxDigits < (c :: cs).countP (· != '_') then none
    digitsFrom? (← digitValue? c) cs

/-- The integer that an argument denotes. -/
def read? (s : String) : Option Int :=
  let cs := (s.toList.dropWhile isMargin).reverse.dropWhile isMargin
  match cs.reverse with
  | '-' :: digits => (natural? digits).map fun n => -(n : Int)
  | '+' :: digits => (natural? digits).map fun n => (n : Int)
  | digits => (natural? digits).map fun n => (n : Int)

end Integer

end DynLisp
