import DynLisp.Text.Blank

/-!
# Shell commands

What a line asks the shell to do.  A line is trimmed first.  A line that starts with a question
mark asks for help.  Otherwise the letters, digits and underscores at its start are a word, and a
line whose word is `help`, `exit` or `EOF` is a command, with the rest of the line as its argument;
the argument needs no blank before it.  Any other line holds forms.
-/

namespace DynLisp

/-- What a line asks the shell to do. -/
inductive Command where
  | nothing
  | help
  | exit (argument : String)
  /-- The end of the input, which may also be typed as a word. -/
  | endOfInput (argument : String)
  | forms (line : String)
  deriving DecidableEq, Repr, Inhabited

namespace Command

/-- A character of the word that a line starts with. -/
def isNameChar (c : Char) : Bool := c.isAlphanum || c == '_'

/-- The word of the line that stands for the end of the input. -/
def endWord : String := "EOF"

/-- What a line asks for. -/
def ofLine (line : String) : Command :=
  let line := Text.trim line
  let word := String.ofList (line.toList.takeWhile isNameChar)
  let argument := Text.trim (String.ofList (line.toList.dropWhile isNameChar))
  if line = "" then nothing
  else if line.toList.head? = some '?' then help
  else if word = "help" then help
  else if word = "exit" then exit argument
  else if word = endWord then endOfInput argument
  else forms line

end Command

end DynLisp
