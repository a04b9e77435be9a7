/-!
# Comments

A comment starts at a semicolon and ends before the next newline.  Comments are blanked, not
removed: every character of a comment becomes a blank, and every other character stays where it is,
so that an offset in the blanked text is an offset in the text.
-/

namespace DynLisp

/-- The characters of a text with the comments blanked, when the text stands inside a comment or
not. -/
def blankFrom (inComment : Bool) : List Char → List Char
  | [] => []
  | c :: cs =>
    if c = '\n' then c :: blankFrom false cs
    else if inComment || c = ';' then ' ' :: blankFrom true cs
    else c :: blankFrom false cs

/-- A text with the comments blanked. -/
def blankComments (source : String) : String :=
  String.ofList (blankFrom false source.toList)

end DynLisp
