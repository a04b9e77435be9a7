/-!
# Decimal numbers

Writing an integer in decimal digits and reading digits back.  A negative number is written with a
minus sign directly before its digits; reading knows digits alone, since in a program the sign is a
word of its own.

`read_digits` says that the digits of a number read as that number.  `read` is the number that
digits denote; `convert` finds it for a program, and gives up on more than `maxDigits` digits, of
whatever size the number is.
-/

namespace DynLisp.Decimal

/-- The decimal digits of a number, without leading zeros. -/
def digits (n : Nat) : List Char := Nat.toDigits 10 n

/-- An integer in decimal. -/
def write : Int → String
  | .ofNat n => String.ofList (digits n)
  | .negSucc n => String.ofList ('-' :: digits (n + 1))

/-- The number that a run of decimal digits denotes.  Leading zeros add nothing. -/
def read (cs : List Char) : Nat := Nat.ofDigitChars 10 cs 0

@[simp] theorem read_digits (n : Nat) : read (digits n) = n :=
  Nat.ofDigitChars_ten_toDigits

/-- How many digits are converted to a number at most. -/
def maxDigits : Nat := 4300

/-- The number that a run of decimal digits denotes, or how many digits there are if that is more
than are converted. -/
def convert (cs : List Char) : Except Nat Nat :=
  if cs.length ≤ maxDigits then .ok (read cs) else .error cs.length

theorem convert_of_le {cs : List Char} (h : cs.length ≤ maxDigits) : convert cs = .ok (read cs) :=
  if_pos h

theorem convert_of_lt {cs : List Char} (h : maxDigits < cs.length) :
    convert cs = .error cs.length :=
  if_neg (Nat.not_le.2 h)

/-- Every character of a written number is a digit. -/
theorem isDigit_of_mem_digits {n : Nat} {c : Char} (h : c ∈ digits n) : c.isDigit = true :=
  Nat.isDigit_of_mem_toDigits (by decide) (by decide) h

/-- The size of a number of 32 bits has few enough digits to be converted. -/
theorem length_digits_le {n : Nat} (h : n ≤ 2147483648) : (digits n).length ≤ maxDigits := by
  have hten : (Nat.toDigits 10 n).length ≤ 10 :=
    (Nat.length_toDigits_le_iff (by decide) (by decide)).2 (by omega)
  exact Nat.le_trans hten (by decide)

theorem digits_ne_nil (n : Nat) : digits n ≠ [] :=
  Nat.toDigits_ne_nil

end DynLisp.Decimal
