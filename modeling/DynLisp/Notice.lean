import DynLisp.Inspect

/-!
# Notices

What the interpreter tells about its work when it is asked to: the tokens of a text, the tree of an
expression, each definition and each call.  A notice holds what it is about, and its wording is
made only when it is shown.
-/

namespace DynLisp

/-- One thing that the interpreter tells about its work. -/
inductive Notice where
  | tokens (ts : List Token)
  /-- The lines that show the tree of an expression. -/
  | tree (lines : String)
  | defined (name : String) (params : List String)
  /-- A call, with its parameters and the values bound to them. -/
  | calling (name : String) (args : List (String × Value))
  deriving DecidableEq, Repr, Inhabited

namespace Notice

/-- The part of the interpreter that a notice comes from. -/
def origin : Notice → String
  | tokens _ => "tinylisp.lang.session"
  | tree _ => "tinylisp.lang.session"
  | defined .. => "tinylisp.core.environment"
  | calling .. => "tinylisp.core.evaluator"

/-- What a notice tells. -/
def text : Notice → String
  | tokens ts => "Tokens: " ++ Token.inspectList ts
  | tree lines => "AST:\n" ++ lines
  | defined name params =>
    "Defined function " ++ name ++ Listing.tuple (params.map Quoted.write)
  | calling name args =>
    "Calling " ++ name ++ "(" ++ Listing.commas (args.map fun arg => arg.1 ++ "=" ++ arg.2.text) ++
      ")"

/-- A notice with the part of the interpreter that it comes from. -/
def line (notice : Notice) : String := notice.origin ++ ": " ++ notice.text

end Notice

end DynLisp
