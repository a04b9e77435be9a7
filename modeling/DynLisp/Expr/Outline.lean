import DynLisp.Expr.Canonical
import DynLisp.Text.Listing

/-!
# Outlines

A tree shown with one node a line, each node four blanks further in than the node that it is a
part of:

    BinaryNum(op='+', [
        NumLiteral(1),
        Variable(x)
    ])

The text is made in two steps.  `Expr.outline` says what each node shows, its name, a header and
the nodes below it, with the cases of a conditional laid out as condition, result, condition,
result.  `Outline.render` lays the nodes out.  A case that stands outside a conditional has no
outline, and `Expr.outline` returns the first such case that it meets.
-/

namespace DynLisp

/-- The name of a node, what is said about it on its own line, and the nodes below it. -/
inductive Outline where
  | node (name header : String) (parts : List Outline)
  deriving Repr, Inhabited

namespace Outline

/-- The blanks before a line that is `depth` steps in. -/
def indentation (depth : Nat) : String := String.ofList (List.replicate (4 * depth) ' ')

mutual

/-- The lines of an outline, the first of them `depth` steps in. -/
def render (depth : Nat) : Outline → String
  | node name header [] => indentation depth ++ name ++ "(" ++ header ++ ")"
  | node name header (part :: parts) =>
    indentation depth ++ name ++ "(" ++ header ++ (if header = "" then "[" else ", [") ++
      "\n" ++ render (depth + 1) part ++ renderRest (depth + 1) parts ++
      "\n" ++ indentation depth ++ "])"

/-- The lines of the outlines that follow another one on the same level. -/
def renderRest (depth : Nat) : List Outline → String
  | [] => ""
  | part :: parts => ",\n" ++ render depth part ++ renderRest depth parts

end

end Outline

namespace Expr

/-- The header of a form with an operator. -/
def operatorHeader (symbol : String) : String := "op=" ++ Listing.quoted symbol

mutual

/-- The outline of a tree, or the first case in it that stands outside a conditional. -/
def outline : Expr → Except Expr Outline
  | e@(number n) => .ok (.node e.label (Decimal.write n) [])
  | e@(boolean b) => .ok (.node e.label (boolText b) [])
  | e@(var x) => .ok (.node e.label x [])
  | e@(arith op l r) => do
    return .node e.label (operatorHeader op.symbol) [← outline l, ← outline r]
  | e@(logic op l r) => do
    return .node e.label (operatorHeader op.symbol) [← outline l, ← outline r]
  | e@(unary op a) => do
    return .node e.label (operatorHeader op.symbol) [← outline a]
  | e@(compare op l r) => do
    return .node e.label (operatorHeader op.symbol) [← outline l, ← outline r]
  | e@(case _ _) => .error e
  | e@(cond cases) => do
    return .node e.label "" (← outlineCases cases)
  | e@(define f params body) => do
    let header := "name=" ++ Listing.quoted f ++ ", params=" ++
      Listing.bracketed (params.map Quoted.write)
    return .node e.label header [← outline body]
  | e@(call f args) => do
    return .node e.label ("name=" ++ Listing.quoted f) (← outlines args)

/-- The outlines of a list of trees. -/
def outlines : List Expr → Except Expr (List Outline)
  | [] => .ok []
  | e :: es => do
    return (← outline e) :: (← outlines es)

/-- The outlines of the conditions and results of a list of cases. -/
def outlineCases : List (Expr × Expr) → Except Expr (List Outline)
  | [] => .ok []
  | (c, r) :: cases => do
    return (← outline c) :: (← outline r) :: (← outlineCases cases)

end

/-- The lines that show a tree, the first of them `depth` steps in. -/
def display (e : Expr) (depth : Nat) : Except Expr String :=
  e.outline.map (·.render depth)

end Expr

end DynLisp
