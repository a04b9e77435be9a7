import DynLisp.Expr.Outline
import DynLisp.Proofs.WellFormed

/-!
# Trees that have an outline

A tree has no outline if a case stands in it outside of a conditional.  In a well-formed tree no
case does, so every well-formed tree can be shown.
-/

namespace DynLisp
namespace Expr

mutual

theorem WellFormed.exists_outline : ∀ {p : Position} (e : Expr), e.WellFormed p →
    ∃ o, e.outline = .ok o
  | _, .number n, _ => ⟨_, rfl⟩
  | _, .boolean b, _ => ⟨_, rfl⟩
  | _, .var x, _ => ⟨_, rfl⟩
  | _, .arith op l r, h => by
    rw [WellFormed] at h
    obtain ⟨left, hl⟩ := h.2.1.exists_outline
    obtain ⟨right, hr⟩ := h.2.2.exists_outline
    exact ⟨_, by rw [outline, hl, hr]; rfl⟩
  | _, .logic op l r, h => by
    rw [WellFormed] at h
    obtain ⟨left, hl⟩ := h.2.1.exists_outline
    obtain ⟨right, hr⟩ := h.2.2.exists_outline
    exact ⟨_, by rw [outline, hl, hr]; rfl⟩
  | _, .unary op e, h => by
    rw [WellFormed] at h
    obtain ⟨operand, he⟩ := h.2.exists_outline
    exact ⟨_, by rw [outline, he]; rfl⟩
  | _, .compare op l r, h => by
    rw [WellFormed] at h
    obtain ⟨left, hl⟩ := h.2.1.exists_outline
    obtain ⟨right, hr⟩ := h.2.2.exists_outline
    exact ⟨_, by rw [outline, hl, hr]; rfl⟩
  | _, .case _ _, h => by
    rw [WellFormed] at h
    exact h.elim
  | _, .cond cases, h => by
    rw [WellFormed] at h
    obtain ⟨parts, hparts⟩ := CasesWellFormed.exists_outlineCases cases h.2
    exact ⟨_, by rw [outline, hparts]; rfl⟩
  | _, .define f params body, h => by
    rw [WellFormed] at h
    obtain ⟨part, hbody⟩ := h.2.2.2.2.exists_outline
    exact ⟨_, by rw [outline, hbody]; rfl⟩
  | _, .call f args, h => by
    rw [WellFormed] at h
    obtain ⟨parts, hargs⟩ := AllWellFormed.exists_outlines args h.2
    exact ⟨_, by rw [outline, hargs]; rfl⟩

theorem AllWellFormed.exists_outlines : ∀ es, AllWellFormed es → ∃ parts, outlines es = .ok parts
  | [], _ => ⟨_, rfl⟩
  | e :: es, h => by
    rw [AllWellFormed] at h
    obtain ⟨part, he⟩ := h.1.exists_outline
    obtain ⟨parts, hes⟩ := AllWellFormed.exists_outlines es h.2
    exact ⟨_, by rw [outlines, he, hes]; rfl⟩

theorem CasesWellFormed.exists_outlineCases : ∀ cases, CasesWellFormed cases →
    ∃ parts, outlineCases cases = .ok parts
  | [], _ => ⟨_, rfl⟩
  | (c, r) :: cases, h => by
    rw [CasesWellFormed] at h
    obtain ⟨condition, hc⟩ := h.1.exists_outline
    obtain ⟨result, hr⟩ := h.2.1.exists_outline
    obtain ⟨parts, hcases⟩ := CasesWellFormed.exists_outlineCases cases h.2.2
    exact ⟨_, by rw [outlineCases, hc, hr, hcases]; rfl⟩

end

/-- A well-formed tree can be shown at any depth. -/
theorem WellFormed.exists_display {p : Position} {e : Expr} (h : e.WellFormed p) (depth : Nat) :
    ∃ lines, e.display depth = .ok lines := by
  obtain ⟨o, ho⟩ := h.exists_outline
  exact ⟨o.render depth, by rw [display, ho]; rfl⟩

end Expr
end DynLisp
