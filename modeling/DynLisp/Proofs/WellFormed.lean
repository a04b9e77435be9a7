import DynLisp.Proofs.Grammar
import DynLisp.Proofs.Lexing

/-!
# Well-formed trees

The trees that can be written.  A tree may hold literals and names that no text reads as, and nodes
at places where they may not stand; `Expr.WellFormed p e` says that `e` does not, and that it may
stand in the position `p`.  A tree is well-formed in itself if it is so where any expression may
stand.

What some tokens derive is well-formed there, if the tokens fit their kinds: the names of a tree are
the texts of identifiers, and its literals are in range (`Derives.wellFormed`).
-/

namespace DynLisp

namespace Expr

mutual

/-- A tree may stand in a position, and all of its parts in theirs. -/
def WellFormed (p : Position) : Expr → Prop
  | number n => p.Admits .number ∧ inRange n = true
  | boolean _ => p.Admits .boolean
  | arith _ l r =>
    p.Admits .number ∧ WellFormed (.only .number) l ∧ WellFormed (.only .number) r
  | logic _ l r =>
    p.Admits .boolean ∧ WellFormed (.only .boolean) l ∧ WellFormed (.only .boolean) r
  | unary _ e => p.Admits .boolean ∧ WellFormed (.only .boolean) e
  | compare _ l r =>
    p.Admits .boolean ∧ WellFormed (.only .number) l ∧ WellFormed (.only .number) r
  | case _ _ => False
  | cond cases => cases ≠ [] ∧ CasesWellFormed cases
  | define f params body =>
    p = .any ∧ IsName f ∧ (∀ x ∈ params, IsName x) ∧ params.Nodup ∧ WellFormed .any body
  | var x => IsName x
  | call f args => IsName f ∧ AllWellFormed args

/-- Trees may stand where any expression may. -/
def AllWellFormed : List Expr → Prop
  | [] => True
  | e :: es => WellFormed .any e ∧ AllWellFormed es

/-- The conditions of cases are booleans, and their results any expressions. -/
def CasesWellFormed : List (Expr × Expr) → Prop
  | [] => True
  | (condition, result) :: cases =>
    WellFormed (.only .boolean) condition ∧ WellFormed .any result ∧ CasesWellFormed cases

end

theorem allWellFormed_iff {es : List Expr} : AllWellFormed es ↔ ∀ e ∈ es, e.WellFormed .any := by
  induction es with
  | nil => simp [AllWellFormed]
  | cons e es ih => rw [AllWellFormed, ih, List.forall_mem_cons]

theorem casesWellFormed_iff {cases : List (Expr × Expr)} :
    CasesWellFormed cases ↔
      ∀ c ∈ cases, c.1.WellFormed (.only .boolean) ∧ c.2.WellFormed .any := by
  induction cases with
  | nil => simp [CasesWellFormed]
  | cons c cases ih =>
    obtain ⟨condition, result⟩ := c
    rw [CasesWellFormed, ih, List.forall_mem_cons, and_assoc]

mutual

def decidableWellFormed (p : Position) : ∀ e : Expr, Decidable (WellFormed p e)
  | number n => inferInstanceAs (Decidable (p.Admits .number ∧ inRange n = true))
  | boolean _ => inferInstanceAs (Decidable (p.Admits .boolean))
  | arith _ l r =>
    have := decidableWellFormed (.only .number) l
    have := decidableWellFormed (.only .number) r
    inferInstanceAs (Decidable (p.Admits .number ∧ WellFormed (.only .number) l ∧
      WellFormed (.only .number) r))
  | logic _ l r =>
    have := decidableWellFormed (.only .boolean) l
    have := decidableWellFormed (.only .boolean) r
    inferInstanceAs (Decidable (p.Admits .boolean ∧ WellFormed (.only .boolean) l ∧
      WellFormed (.only .boolean) r))
  | unary _ e =>
    have := decidableWellFormed (.only .boolean) e
    inferInstanceAs (Decidable (p.Admits .boolean ∧ WellFormed (.only .boolean) e))
  | compare _ l r =>
    have := decidableWellFormed (.only .number) l
    have := decidableWellFormed (.only .number) r
    inferInstanceAs (Decidable (p.Admits .boolean ∧ WellFormed (.only .number) l ∧
      WellFormed (.only .number) r))
  | case _ _ => .isFalse id
  | cond cases =>
    have := decidableCasesWellFormed cases
    inferInstanceAs (Decidable (cases ≠ [] ∧ CasesWellFormed cases))
  | define f params body =>
    have := decidableWellFormed .any body
    inferInstanceAs (Decidable (p = .any ∧ IsName f ∧ (∀ x ∈ params, IsName x) ∧
      params.Nodup ∧ WellFormed .any body))
  | var x => inferInstanceAs (Decidable (IsName x))
  | call f args =>
    have := decidableAllWellFormed args
    inferInstanceAs (Decidable (IsName f ∧ AllWellFormed args))

def decidableAllWellFormed : ∀ es : List Expr, Decidable (AllWellFormed es)
  | [] => .isTrue trivial
  | e :: es =>
    have := decidableWellFormed .any e
    have := decidableAllWellFormed es
    inferInstanceAs (Decidable (WellFormed .any e ∧ AllWellFormed es))

def decidableCasesWellFormed : ∀ cases : List (Expr × Expr), Decidable (CasesWellFormed cases)
  | [] => .isTrue trivial
  | (condition, result) :: cases =>
    have := decidableWellFormed (.only .boolean) condition
    have := decidableWellFormed .any result
    have := decidableCasesWellFormed cases
    inferInstanceAs (Decidable (WellFormed (.only .boolean) condition ∧
      WellFormed .any result ∧ CasesWellFormed cases))

end

instance (p : Position) : DecidablePred (WellFormed p) := decidableWellFormed p

end Expr

/-! ## What tokens derive -/

mutual

/-- Tokens that fit their kinds derive well-formed trees. -/
theorem Derives.wellFormed : ∀ {p : Position} {ts : List Token} {e : Expr},
    Derives p ts e → (∀ t ∈ ts, t.IsLexical) → e.WellFormed p
  | p, _, .number n, h, hlex => by
    rw [Expr.WellFormed]
    cases h with
    -- the sign of a literal is a token of its own, and the range is that of the signed value
    | literal hp _ hrange => exact ⟨hp, hrange⟩
    | negative hp _ _ hrange => exact ⟨hp, hrange⟩
  | p, _, .boolean b, h, hlex => by
    rw [Expr.WellFormed]
    cases h with
    | trueLiteral hp => exact hp
    | falseLiteral hp => exact hp
  | p, _, .arith op l r, h, hlex => by
    rw [Expr.WellFormed]
    cases h with
    | arith hp _ _ hl hr _ =>
      simp only [List.forall_mem_cons, List.forall_mem_append] at hlex
      exact ⟨hp, hl.wellFormed hlex.2.2.1, hr.wellFormed hlex.2.2.2.1⟩
  | p, _, .logic op l r, h, hlex => by
    rw [Expr.WellFormed]
    cases h with
    | logic hp _ _ hl hr _ =>
      simp only [List.forall_mem_cons, List.forall_mem_append] at hlex
      exact ⟨hp, hl.wellFormed hlex.2.2.1, hr.wellFormed hlex.2.2.2.1⟩
  | p, _, .unary op e, h, hlex => by
    rw [Expr.WellFormed]
    cases h with
    | unary hp _ _ he _ =>
      simp only [List.forall_mem_cons, List.forall_mem_append] at hlex
      exact ⟨hp, he.wellFormed hlex.2.2.1⟩
  | p, _, .compare op l r, h, hlex => by
    rw [Expr.WellFormed]
    cases h with
    | compare hp _ _ hl hr _ =>
      simp only [List.forall_mem_cons, List.forall_mem_append] at hlex
      exact ⟨hp, hl.wellFormed hlex.2.2.1, hr.wellFormed hlex.2.2.2.1⟩
  | p, _, .case _ _, h, _ => nomatch h
  | p, _, .cond cases, h, hlex => by
    rw [Expr.WellFormed]
    cases h with
    | cond _ _ hne hcases _ =>
      simp only [List.forall_mem_cons, List.forall_mem_append] at hlex
      exact ⟨hne, casesWellFormed_of_sequence hcases hlex.2.2.1⟩
  | p, _, .define f params body, h, hlex => by
    rw [Expr.WellFormed]
    cases h with
    | define _ _ _ hf hparams hdistinct _ hbody _ =>
      simp only [List.forall_mem_cons, List.forall_mem_append] at hlex
      obtain ⟨-, -, -, hflex, hparamslex, -, hbodylex, -⟩ := hlex
      refine ⟨rfl, hflex.isName_of_identifier hf, ?_, hdistinct, hbody.wellFormed hbodylex⟩
      rw [List.forall_mem_map]
      exact fun t ht => (hparamslex t ht).isName_of_identifier (hparams t ht)
  | p, _, .var x, h, hlex => by
    rw [Expr.WellFormed]
    cases h with
    | var hk => exact (hlex _ (List.mem_singleton_self _)).isName_of_identifier hk
  | p, _, .call f args, h, hlex => by
    rw [Expr.WellFormed]
    cases h with
    | call _ hk hargs _ =>
      simp only [List.forall_mem_cons, List.forall_mem_append] at hlex
      exact ⟨hlex.2.1.isName_of_identifier hk, allWellFormed_of_sequence hargs hlex.2.2.1⟩

theorem allWellFormed_of_sequence : ∀ {ts : List Token} {es : List Expr},
    Sequence (Derives .any) ts es → (∀ t ∈ ts, t.IsLexical) → Expr.AllWellFormed es
  | _, [], _, _ => trivial
  | _, e :: es, h, hlex => by
    rw [Expr.AllWellFormed]
    cases h with
    | cons he hes =>
      rw [List.forall_mem_append] at hlex
      exact ⟨he.wellFormed hlex.1, allWellFormed_of_sequence hes hlex.2⟩

theorem casesWellFormed_of_sequence : ∀ {ts : List Token} {cases : List (Expr × Expr)},
    Sequence DerivesCase ts cases → (∀ t ∈ ts, t.IsLexical) → Expr.CasesWellFormed cases
  | _, [], _, _ => trivial
  | _, (condition, result) :: cases, h, hlex => by
    rw [Expr.CasesWellFormed]
    cases h with
    | cons hcase hcases =>
      cases hcase with
      | mk _ hcondition hresult _ =>
        simp only [List.forall_mem_cons, List.forall_mem_append] at hlex
        exact ⟨hcondition.wellFormed hlex.1.2.1, hresult.wellFormed hlex.1.2.2.1,
          casesWellFormed_of_sequence hcases hlex.2⟩

end

end DynLisp
