import DynLisp.Text.Printable

/-!
# Quoted arguments

An argument in quotes, written so that it can be read whatever it holds.  The quotes are single
ones unless the argument holds single quotes and no double quote.  A backslash and the quote in use
come after a backslash, and a character that cannot be shown as it is becomes a letter or its number
in hexadecimal digits after a backslash.
-/

namespace DynLisp.Quoted

/-- The last `width` hexadecimal digits of a number. -/
def hex (width n : Nat) : List Char :=
  match width with
  | 0 => []
  | width + 1 => hex width (n / 16) ++ [Nat.digitChar (n % 16)]

/-- A character between quotes. -/
def character (quote c : Char) : List Char :=
  if c = quote || c = '\\' then ['\\', c]
  else if c = '\n' then ['\\', 'n']
  else if c = '\r' then ['\\', 'r']
  else if c = '\t' then ['\\', 't']
  else if isPrintable c then [c]
  else if c.toNat < 0x100 then '\\' :: 'x' :: hex 2 c.toNat
  else if c.toNat < 0x10000 then '\\' :: 'u' :: hex 4 c.toNat
  else '\\' :: 'U' :: hex 8 c.toNat

/-- An argument in quotes. -/
def write (s : String) : String :=
  let cs := s.toList
  let quote := if '\'' ∈ cs ∧ '"' ∉ cs then '"' else '\''
  String.ofList (quote :: cs.flatMap (character quote) ++ [quote])

end DynLisp.Quoted
