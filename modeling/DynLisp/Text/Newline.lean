/-!
# Ends of lines

Files may end their lines in a carriage return, with or without a newline after it, and they are
read as if every line ended in a newline: `unify`.  In a text as it then is, and in the standard
input, a newline and nothing else ends a line: `lines`.
-/

namespace DynLisp.Newline

/-- The characters of a text with every end of a line made a newline. -/
def unifyChars : List Char → List Char
  | '\r' :: '\n' :: cs => '\n' :: unifyChars cs
  | '\r' :: cs => '\n' :: unifyChars cs
  | c :: cs => c :: unifyChars cs
  | [] => []

/-- A text with every end of a line made a newline. -/
def unify (s : String) : String := String.ofList (unifyChars s.toList)

/-- The lines of some characters, where `line` is the line begun so far, in reverse.  A newline ends
a line, and what stands after the last newline is a line only if it holds a character. -/
def linesFrom (line : List Char) : List Char → List String
  | [] => if line.isEmpty then [] else [String.ofList line.reverse]
  | c :: cs =>
    if c = '\n' then String.ofList line.reverse :: linesFrom [] cs
    else linesFrom (c :: line) cs

/-- The lines of a text, without their newlines. -/
def lines (s : String) : List String := linesFrom [] s.toList

end DynLisp.Newline
