import DynLisp.Text.Quoted

/-!
# Written lists

The punctuation of inspection texts: sequences in parentheses or square brackets with a comma and a
blank between the items, nodes with named fields and the members of enumerations.  A sequence of one
item in parentheses keeps a comma after the item, which tells it apart from the item itself in
parentheses.
-/

namespace DynLisp.Listing

/-- A name between single quotes, as it is. -/
def quoted (s : String) : String := "'" ++ s ++ "'"

/-- Items one after the other. -/
def commas (items : List String) : String := ", ".intercalate items

/-- Items in parentheses. -/
def tuple : List String → String
  | [item] => "(" ++ item ++ ",)"
  | items => "(" ++ commas items ++ ")"

/-- Items in square brackets. -/
def bracketed (items : List String) : String := "[" ++ commas items ++ "]"

/-- A node with named fields, in the order in which they are given. -/
def record (name : String) (fields : List (String × String)) : String :=
  name ++ "(" ++ commas (fields.map fun field => field.1 ++ "=" ++ field.2) ++ ")"

/-- A member of an enumeration: the enumeration, the member's name and what it is written as. -/
def member (enumeration name symbol : String) : String :=
  "<" ++ enumeration ++ "." ++ name ++ ": " ++ Quoted.write symbol ++ ">"

end DynLisp.Listing
