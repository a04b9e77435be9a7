import DynLisp.Expr
import DynLisp.Text.Decimal
import DynLisp.Value

/-!
# Canonical text

The one text that stands for a tree: round brackets, one blank between the parts of a form, no
blank elsewhere, literals in decimal, names as they are.  Every tree has a canonical text; that the
text reads back as the tree is a matter of the names and literals in it and of the places where its
nodes stand.
-/

namespace DynLisp.Expr

mutual

/-- The canonical text of a tree. -/
def text : Expr → String
  | number n => Decimal.write n
  | boolean b => boolText b
  | arith op l r => "(" ++ op.symbol ++ " " ++ text l ++ " " ++ text r ++ ")"
  | logic op l r => "(" ++ op.symbol ++ " " ++ text l ++ " " ++ text r ++ ")"
  | unary op e => "(" ++ op.symbol ++ " " ++ text e ++ ")"
  | compare op l r => "(" ++ op.symbol ++ " " ++ text l ++ " " ++ text r ++ ")"
  | case c r => "(" ++ text c ++ " " ++ text r ++ ")"
  | cond cases => "(cond " ++ " ".intercalate (caseTexts cases) ++ ")"
  | define f params body =>
    "(define (" ++ " ".intercalate (f :: params) ++ ") " ++ text body ++ ")"
  | var x => x
  | call f args => "(" ++ " ".intercalate (f :: texts args) ++ ")"

/-- The canonical texts of a list of trees. -/
def texts : List Expr → List String
  | [] => []
  | e :: es => text e :: texts es

/-- The canonical texts of a list of cases. -/
def caseTexts : List (Expr × Expr) → List String
  | [] => []
  | (c, r) :: cases => ("(" ++ text c ++ " " ++ text r ++ ")") :: caseTexts cases

end

end DynLisp.Expr
