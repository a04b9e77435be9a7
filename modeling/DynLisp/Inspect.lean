import DynLisp.Expr
import DynLisp.Text.Listing
import DynLisp.Value

/-!
# Inspection texts

The texts that show values, tokens and trees in full, with the name of every kind of node and of
every field.  They appear in the notices about the tokens of a text and in messages about a node
that should not have been reached.
-/

namespace DynLisp

open Listing

/-- A boolean in an inspection text. -/
def inspectBool : Bool → String
  | true => "True"
  | false => "False"

namespace Value

/-- A value with its kind. -/
def inspect : Value → String
  | number n => record "Num" [("value", Decimal.write n)]
  | boolean b => record "Bool" [("value", inspectBool b)]

end Value

namespace TokenKind

/-- The name of a kind of token. -/
def name : TokenKind → String
  | number => "NUMBER"
  | boolean => "BOOLEAN"
  | cond => "COND"
  | define => "DEFINE"
  | list => "LIST"
  | cons => "CONS"
  | empty => "EMPTY"
  | car => "CAR"
  | cdr => "CDR"
  | isEmpty => "EMPTY_HUH"
  | isList => "LIST_HUH"
  | identifier => "IDENTIFIER"
  | opening => "OPEN"
  | closing => "CLOSE"
  | plus => "PLUS"
  | minus => "MINUS"
  | slash => "SLASH"
  | star => "STAR"
  | percent => "PERCENT"
  | ampersand => "AMPERSAND"
  | pipe => "PIPE"
  | bang => "BANG"
  | lessThan => "LESS_THAN"
  | equal => "EQUAL"
  | greaterThan => "GREATER_THAN"

end TokenKind

namespace Token

/-- A token with its kind, text and offset. -/
def inspect (t : Token) : String :=
  record "Token" [("kind", member "TokenKind" t.kind.name t.kind.symbol),
    ("text", Quoted.write t.text), ("pos", Decimal.write t.offset)]

/-- The tokens of a list. -/
def inspectList (ts : List Token) : String := bracketed (ts.map inspect)

end Token

/-- An arithmetic operator in an inspection text. -/
def ArithOp.inspect (op : ArithOp) : String :=
  let name := match op with
    | add => "ADD"
    | sub => "SUB"
    | mul => "MUL"
    | div => "DIV"
    | mod => "MOD"
  member "NumOp" name op.symbol

/-- A boolean operator in an inspection text. -/
def LogicOp.inspect (op : LogicOp) : String :=
  let name := match op with
    | and => "AND"
    | or => "OR"
  member "BoolOp" name op.symbol

/-- A unary operator in an inspection text. -/
def UnaryOp.inspect (op : UnaryOp) : String :=
  let name := match op with
    | not => "NOT"
  member "UnaryBoolOp" name op.symbol

/-- A comparison in an inspection text. -/
def CompareOp.inspect (op : CompareOp) : String :=
  let name := match op with
    | less => "LT"
    | equal => "EQ"
    | greater => "GT"
  member "CmpOp" name op.symbol

namespace Expr

/-- A case with its fields. -/
def inspectCase (condition result : String) : String :=
  record "CondCase" [("condition", condition), ("result", result)]

mutual

/-- A tree with the kind and the fields of every node. -/
def inspect : Expr → String
  | e@(number n) => record e.label [("value", Decimal.write n)]
  | e@(boolean b) => record e.label [("value", inspectBool b)]
  | e@(arith op l r) =>
    record e.label [("op", op.inspect), ("left", inspect l), ("right", inspect r)]
  | e@(logic op l r) =>
    record e.label [("op", op.inspect), ("left", inspect l), ("right", inspect r)]
  | e@(unary op a) => record e.label [("op", op.inspect), ("value", inspect a)]
  | e@(compare op l r) =>
    record e.label [("op", op.inspect), ("left", inspect l), ("right", inspect r)]
  | case c r => inspectCase (inspect c) (inspect r)
  | e@(cond cases) => record e.label [("cases", tuple (inspectCases cases))]
  | e@(define f params body) =>
    record e.label [("name", Quoted.write f), ("params", tuple (params.map Quoted.write)),
      ("body", inspect body)]
  | e@(var x) => record e.label [("name", Quoted.write x)]
  | e@(call f args) => record e.label [("name", Quoted.write f), ("args", tuple (inspects args))]

/-- The trees of a list. -/
def inspects : List Expr → List String
  | [] => []
  | e :: es => inspect e :: inspects es

/-- The cases of a list. -/
def inspectCases : List (Expr × Expr) → List String
  | [] => []
  | (c, r) :: cases => inspectCase (inspect c) (inspect r) :: inspectCases cases

end

end Expr

end DynLisp
