import DynLisp.Token

/-!
# Expressions

The syntax trees of the language and their operators.

The type holds every tree that can be built from the nodes, also those that no text reads as: a
literal of any size, a name that is not a word, a definition or a case anywhere.  What a reader of
texts may return is a condition on trees, and the printers and the evaluator are total on all of
them.  A case belongs to the list of a conditional; `Expr.case` is a case that stands elsewhere.

Equality is decided by `Expr.beq`, which compares two trees node by node.  It is written as a
structural recursion because the lists of arguments and of cases are nested in the type, and
`Expr.beq_eq_true_iff` says that it is equality.
-/

namespace DynLisp

/-- The operators from two numbers to a number. -/
inductive ArithOp where
  | add
  | sub
  | mul
  | div
  | mod
  deriving DecidableEq, Repr, Inhabited

/-- The operators from two booleans to a boolean. -/
inductive LogicOp where
  | and
  | or
  deriving DecidableEq, Repr, Inhabited

/-- The operators from one boolean to a boolean. -/
inductive UnaryOp where
  | not
  deriving DecidableEq, Repr, Inhabited

/-- The operators from two numbers to a boolean. -/
inductive CompareOp where
  | less
  | equal
  | greater
  deriving DecidableEq, Repr, Inhabited

namespace ArithOp

/-- How an operator is written. -/
def symbol : ArithOp → String
  | add => "+"
  | sub => "-"
  | mul => "*"
  | div => "/"
  | mod => "%"

/-- The operator that a kind of token writes. -/
def ofKind? : TokenKind → Option ArithOp
  | .plus => some add
  | .minus => some sub
  | .star => some mul
  | .slash => some div
  | .percent => some mod
  | _ => none

end ArithOp

namespace LogicOp

/-- How an operator is written. -/
def symbol : LogicOp → String
  | and => "&"
  | or => "|"

/-- The operator that a kind of token writes. -/
def ofKind? : TokenKind → Option LogicOp
  | .ampersand => some and
  | .pipe => some or
  | _ => none

/-- What an operator computes from two booleans, both of which it looks at. -/
def apply : LogicOp → Bool → Bool → Bool
  | and, a, b => a && b
  | or, a, b => a || b

end LogicOp

namespace UnaryOp

/-- How an operator is written. -/
def symbol : UnaryOp → String
  | not => "!"

/-- The operator that a kind of token writes. -/
def ofKind? : TokenKind → Option UnaryOp
  | .bang => some not
  | _ => none

/-- What an operator computes from a boolean. -/
def apply : UnaryOp → Bool → Bool
  | not, a => !a

end UnaryOp

namespace CompareOp

/-- How an operator is written. -/
def symbol : CompareOp → String
  | less => "<"
  | equal => "="
  | greater => ">"

/-- The operator that a kind of token writes. -/
def ofKind? : TokenKind → Option CompareOp
  | .lessThan => some less
  | .equal => some equal
  | .greaterThan => some greater
  | _ => none

/-- What an operator computes from two numbers. -/
def apply : CompareOp → Int → Int → Bool
  | less, a, b => a < b
  | equal, a, b => a == b
  | greater, a, b => a > b

end CompareOp

/-- A syntax tree. -/
inductive Expr where
  | number (value : Int)
  | boolean (value : Bool)
  | arith (op : ArithOp) (left right : Expr)
  | logic (op : LogicOp) (left right : Expr)
  | unary (op : UnaryOp) (operand : Expr)
  | compare (op : CompareOp) (left right : Expr)
  | case (condition result : Expr)
  | cond (cases : List (Expr × Expr))
  | define (name : String) (params : List String) (body : Expr)
  | var (name : String)
  | call (name : String) (args : List Expr)
  deriving Repr, Inhabited

namespace Expr

/-! ## Equality -/

mutual

/-- Whether two trees are the same. -/
def beq : Expr → Expr → Bool
  | number m, number n => m == n
  | boolean a, boolean b => a == b
  | arith o l r, arith o' l' r' => o == o' && beq l l' && beq r r'
  | logic o l r, logic o' l' r' => o == o' && beq l l' && beq r r'
  | unary o e, unary o' e' => o == o' && beq e e'
  | compare o l r, compare o' l' r' => o == o' && beq l l' && beq r r'
  | case c r, case c' r' => beq c c' && beq r r'
  | cond cs, cond cs' => beqCases cs cs'
  | define f ps b, define f' ps' b' => f == f' && ps == ps' && beq b b'
  | var x, var x' => x == x'
  | call f as, call f' as' => f == f' && beqList as as'
  | _, _ => false

/-- Whether two lists of trees are the same. -/
def beqList : List Expr → List Expr → Bool
  | [], [] => true
  | e :: es, e' :: es' => beq e e' && beqList es es'
  | _, _ => false

/-- Whether two lists of cases are the same. -/
def beqCases : List (Expr × Expr) → List (Expr × Expr) → Bool
  | [], [] => true
  | (c, r) :: cs, (c', r') :: cs' => beq c c' && beq r r' && beqCases cs cs'
  | _, _ => false

end

mutual

theorem beq_eq_true_iff : ∀ {a b : Expr}, beq a b = true ↔ a = b
  | number _, b => by cases b <;> simp [beq]
  | boolean _, b => by cases b <;> simp [beq]
  | arith _ l r, b => by
    cases b <;> simp [beq, beq_eq_true_iff (a := l), beq_eq_true_iff (a := r), and_assoc]
  | logic _ l r, b => by
    cases b <;> simp [beq, beq_eq_true_iff (a := l), beq_eq_true_iff (a := r), and_assoc]
  | unary _ e, b => by cases b <;> simp [beq, beq_eq_true_iff (a := e)]
  | compare _ l r, b => by
    cases b <;> simp [beq, beq_eq_true_iff (a := l), beq_eq_true_iff (a := r), and_assoc]
  | case c r, b => by
    cases b <;> simp [beq, beq_eq_true_iff (a := c), beq_eq_true_iff (a := r)]
  | cond cs, b => by cases b <;> simp [beq, beqCases_eq_true_iff (a := cs)]
  | define _ _ e, b => by cases b <;> simp [beq, beq_eq_true_iff (a := e), and_assoc]
  | var _, b => by cases b <;> simp [beq]
  | call _ es, b => by cases b <;> simp [beq, beqList_eq_true_iff (a := es)]

theorem beqList_eq_true_iff : ∀ {a b : List Expr}, beqList a b = true ↔ a = b
  | [], b => by cases b <;> simp [beqList]
  | e :: es, b => by
    cases b <;> simp [beqList, beq_eq_true_iff (a := e), beqList_eq_true_iff (a := es)]

theorem beqCases_eq_true_iff : ∀ {a b : List (Expr × Expr)}, beqCases a b = true ↔ a = b
  | [], b => by cases b <;> simp [beqCases]
  | (c, r) :: cs, b => by
    rcases b with _ | ⟨⟨c', r'⟩, cs'⟩ <;>
      simp [beqCases, beq_eq_true_iff (a := c), beq_eq_true_iff (a := r),
        beqCases_eq_true_iff (a := cs)]

end

instance : DecidableEq Expr := fun _ _ => decidable_of_iff _ beq_eq_true_iff

/-! ## Parts and names of nodes -/

/-- The name of a node's kind, as outlines and inspection texts write it. -/
def label : Expr → String
  | number _ => "NumLiteral"
  | boolean _ => "BoolLiteral"
  | arith .. => "BinaryNum"
  | logic .. => "BinaryBool"
  | unary .. => "UnaryBool"
  | compare .. => "CmpBool"
  | case .. => "CondCase"
  | cond _ => "Cond"
  | define .. => "Function"
  | var _ => "Variable"
  | call .. => "FunctionCall"

end Expr

end DynLisp
