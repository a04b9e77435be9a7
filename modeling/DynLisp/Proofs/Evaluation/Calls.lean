import DynLisp.Proofs.Evaluation.Enters

/-!
# Names and calls in trees

What stands in a tree, at whatever depth, can be read off the tree: its parts, the names among them
that are variables, and the functions that are called in it.  A function calls another one if a call
of that one stands in its body (`Calls`), and an expression reaches the functions that are called in
it, those that are called in their bodies, and so on (`Expr.Reaches`).

An evaluation has no use for other names and other functions than these.
-/

namespace DynLisp

namespace Expr

/-! ## Parts -/

mutual

/-- All expressions that stand in a tree, the tree itself first. -/
def parts : Expr → List Expr
  | number n => [number n]
  | boolean b => [boolean b]
  | arith op l r => arith op l r :: (parts l ++ parts r)
  | logic op l r => logic op l r :: (parts l ++ parts r)
  | unary op e => unary op e :: parts e
  | compare op l r => compare op l r :: (parts l ++ parts r)
  | case c r => case c r :: (parts c ++ parts r)
  | cond cases => cond cases :: partsOfCases cases
  | define f params body => define f params body :: parts body
  | var x => [var x]
  | call f args => call f args :: partsOfAll args

/-- All expressions that stand in some trees. -/
def partsOfAll : List Expr → List Expr
  | [] => []
  | e :: es => parts e ++ partsOfAll es

/-- All expressions that stand in some cases. -/
def partsOfCases : List (Expr × Expr) → List Expr
  | [] => []
  | (c, r) :: cases => (parts c ++ parts r) ++ partsOfCases cases

end

theorem mem_parts_self (e : Expr) : e ∈ e.parts := by
  cases e <;> exact List.mem_cons_self

theorem parts_subset_partsOfAll {e : Expr} {es : List Expr} (h : e ∈ es) :
    e.parts ⊆ partsOfAll es := by
  induction es with
  | nil => cases h
  | cons e' es ih =>
    rw [partsOfAll]
    rcases List.mem_cons.1 h with rfl | h
    · exact List.subset_append_left _ _
    · exact List.subset_append_of_subset_right _ (ih h)

theorem parts_subset_partsOfCases {c : Expr × Expr} {cases : List (Expr × Expr)} (h : c ∈ cases) :
    c.1.parts ++ c.2.parts ⊆ partsOfCases cases := by
  induction cases with
  | nil => cases h
  | cons c' cases ih =>
    rw [partsOfCases]
    rcases List.mem_cons.1 h with rfl | h
    · exact List.subset_append_left _ _
    · exact List.subset_append_of_subset_right _ (ih h)

/-- Whatever stands in one of some expressions is one of them. -/
def PartsAmong (es : List Expr) : Prop := ∀ e ∈ es, e.parts ⊆ es

theorem PartsAmong.append {es es' : List Expr} (h : PartsAmong es) (h' : PartsAmong es') :
    PartsAmong (es ++ es') := by
  intro e he
  rcases List.mem_append.1 he with he | he
  · exact List.subset_append_of_subset_left _ (h e he)
  · exact List.subset_append_of_subset_right _ (h' e he)

theorem PartsAmong.cons {e : Expr} {es : List Expr} (h : PartsAmong es)
    (hparts : e.parts = e :: es) : PartsAmong (e :: es) := by
  intro e' he'
  rcases List.mem_cons.1 he' with rfl | he'
  · rw [hparts]
    exact List.Subset.refl _
  · exact List.subset_cons_of_subset _ (h e' he')

theorem partsAmong_nil : PartsAmong [] := List.forall_mem_nil _

mutual

theorem partsAmong_parts : ∀ e : Expr, PartsAmong e.parts
  | number _ => partsAmong_nil.cons rfl
  | boolean _ => partsAmong_nil.cons rfl
  | arith _ l r => ((partsAmong_parts l).append (partsAmong_parts r)).cons rfl
  | logic _ l r => ((partsAmong_parts l).append (partsAmong_parts r)).cons rfl
  | unary _ e => (partsAmong_parts e).cons rfl
  | compare _ l r => ((partsAmong_parts l).append (partsAmong_parts r)).cons rfl
  | case c r => ((partsAmong_parts c).append (partsAmong_parts r)).cons rfl
  | cond cases => (partsAmong_partsOfCases cases).cons rfl
  | define _ _ body => (partsAmong_parts body).cons rfl
  | var _ => partsAmong_nil.cons rfl
  | call _ args => (partsAmong_partsOfAll args).cons rfl

theorem partsAmong_partsOfAll : ∀ es : List Expr, PartsAmong (partsOfAll es)
  | [] => partsAmong_nil
  | e :: es => (partsAmong_parts e).append (partsAmong_partsOfAll es)

theorem partsAmong_partsOfCases : ∀ cases : List (Expr × Expr), PartsAmong (partsOfCases cases)
  | [] => partsAmong_nil
  | (c, r) :: cases =>
    ((partsAmong_parts c).append (partsAmong_parts r)).append (partsAmong_partsOfCases cases)

end

/-- Whatever stands in a part of a tree stands in the tree. -/
theorem parts_subset_of_mem {e e' : Expr} (h : e ∈ e'.parts) : e.parts ⊆ e'.parts :=
  partsAmong_parts e' e h

theorem mem_parts_of_mem_operands {e operand : Expr} (h : operand ∈ e.operands) :
    operand ∈ e.parts := by
  have hpair : ∀ {l r : Expr}, operand ∈ [l, r] → operand ∈ l.parts ++ r.parts := by
    intro l r h
    rcases List.mem_pair.1 h with rfl | rfl
    · exact List.mem_append_left _ (mem_parts_self _)
    · exact List.mem_append_right _ (mem_parts_self _)
  cases e with
  | arith op l r => exact List.mem_cons_of_mem _ (hpair h)
  | logic op l r => exact List.mem_cons_of_mem _ (hpair h)
  | unary op a =>
    obtain rfl := List.mem_singleton.1 h
    exact List.mem_cons_of_mem _ (mem_parts_self _)
  | compare op l r => exact List.mem_cons_of_mem _ (hpair h)
  | call f args =>
    exact List.mem_cons_of_mem _ (parts_subset_partsOfAll h (mem_parts_self operand))
  | _ => cases h

theorem mem_parts_of_mem_cases {cases : List (Expr × Expr)} {condition result : Expr}
    (h : (condition, result) ∈ cases) :
    condition ∈ (cond cases).parts ∧ result ∈ (cond cases).parts := by
  have hsubset := parts_subset_partsOfCases h
  constructor
  · exact List.mem_cons_of_mem _ (hsubset (List.mem_append_left _ (mem_parts_self condition)))
  · exact List.mem_cons_of_mem _ (hsubset (List.mem_append_right _ (mem_parts_self result)))

/-! ## Names and callees -/

/-- The name that a tree is. -/
def name? : Expr → Option String
  | var x => some x
  | _ => none

/-- The function that a tree is a call of. -/
def callee? : Expr → Option String
  | call f _ => some f
  | _ => none

/-- The names that stand in a tree as variables. -/
def names (e : Expr) : List String := e.parts.filterMap name?

/-- The functions that calls in a tree are calls of. -/
def callees (e : Expr) : List String := e.parts.filterMap callee?

theorem names_subset_of_mem {e e' : Expr} (h : e ∈ e'.parts) : e.names ⊆ e'.names :=
  List.filterMap_subset _ (parts_subset_of_mem h)

theorem callees_subset_of_mem {e e' : Expr} (h : e ∈ e'.parts) : e.callees ⊆ e'.callees :=
  List.filterMap_subset _ (parts_subset_of_mem h)

theorem mem_names_var (x : String) : x ∈ (var x).names := List.mem_singleton_self x

theorem mem_callees_call (f : String) (args : List Expr) : f ∈ (call f args).callees :=
  List.mem_filterMap.2 ⟨call f args, mem_parts_self _, rfl⟩

end Expr

/-! ## Calls of functions -/

variable (functions : List (String × Definition))

/-- A call of `g` stands in the body of the function `f`. -/
def Calls (f g : String) : Prop :=
  ∃ definition, functions.lookup f = some definition ∧ g ∈ definition.body.callees

/-- A function is called in an expression, or in the body of a function that is called in it, and so
on. -/
def Expr.Reaches (e : Expr) (f : String) : Prop :=
  ∃ g ∈ e.callees, Relation.ReflTransGen (Calls functions) g f

/-- A name stands as a variable in an expression or in the body of a function that it reaches. -/
def Expr.Mentions (e : Expr) (x : String) : Prop :=
  x ∈ e.names ∨ ∃ f definition, e.Reaches functions f ∧
    functions.lookup f = some definition ∧ x ∈ definition.body.names

end DynLisp
