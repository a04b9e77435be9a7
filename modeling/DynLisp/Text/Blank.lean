/-!
# Blank characters

Which characters separate words, and trimming them from the ends of a text.

The set is the one of the Unicode standard's white space together with the four information
separators `U+001C` to `U+001F`.  It is wider than `Char.isWhitespace`, which knows only the ASCII
blanks.  No blank character starts or continues a token, so a text may be trimmed without moving or
changing a token of it; only `U+000A` also ends a line.
-/

namespace DynLisp

/-- A character that separates words: white space of any script, or an information separator. -/
def isBlank (c : Char) : Bool :=
  let n := c.toNat
  (0x09 ≤ n && n ≤ 0x0D) || (0x1C ≤ n && n ≤ 0x20) || n == 0x85 || n == 0xA0 || n == 0x1680 ||
    (0x2000 ≤ n && n ≤ 0x200A) || n == 0x2028 || n == 0x2029 || n == 0x202F || n == 0x205F ||
    n == 0x3000

namespace Text

/-- The characters of a text less the blanks at its end. -/
def dropBlankEnd (cs : List Char) : List Char :=
  (cs.reverse.dropWhile isBlank).reverse

/-- A text less the blanks at its end. -/
def trimEnd (s : String) : String :=
  String.ofList (dropBlankEnd s.toList)

/-- A text less the blanks at both ends. -/
def trim (s : String) : String :=
  String.ofList (dropBlankEnd (s.toList.dropWhile isBlank))

end Text

end DynLisp
