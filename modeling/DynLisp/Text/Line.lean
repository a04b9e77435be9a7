/-!
# Lines of a text

The line that an offset lies on, its number and the column, both counted from one.  Lines end at
`U+000A` and at nothing else, and the newline itself lies on the line that it ends.

An offset past the end of the text lies on the last line, in a column past its end.
-/

namespace DynLisp

/-- A place in a text: the whole line that it lies on, the line's number and the column. -/
structure LinePosition where
  line : String
  number : Nat
  column : Nat
  deriving DecidableEq, Repr, Inhabited

/-- The line, line number and column of an offset. -/
def LinePosition.of (source : String) (offset : Nat) : LinePosition :=
  let before := source.toList.take offset
  let after := source.toList.drop offset
  let lead := (before.reverse.takeWhile (· != '\n')).reverse
  { line := String.ofList (lead ++ after.takeWhile (· != '\n'))
    number := before.count '\n' + 1
    column := offset - (before.length - lead.length) + 1 }

end DynLisp
