import DynLisp.Proofs.Parser.Acceptance
import DynLisp.Proofs.Parser.Follows

/-!
# Tokens that can be completed

Some tokens can be completed if more tokens after them make them one expression, and they await an
expression of a kind if every such expression may come next and nothing but such an expression can.
Both speak of all the ways to go on; the stack of expectations tells them from the tokens alone.
Tokens are an expression when they empty the stack (`run_expr_eq_nil_iff`), they can be completed
when they all meet what is expected (`completable_iff`), and they await an expression of a kind when
that is what is expected next (`awaits_iff`).
-/

namespace DynLisp
namespace Parser

open Expected

/-- More tokens after these make them one expression. -/
def Completable (ts : List Token) : Prop :=
  ∃ us e, (∀ t ∈ us, t.IsLexical) ∧ Derives .any (ts ++ us) e

/-- After these tokens every expression in a place of a kind may come, and only such an expression
can. -/
def Awaits (before : List Token) (kind : ValueKind) : Prop :=
  (∀ ts e, (∀ t ∈ ts, t.IsLexical) → Derives (.only kind) ts e → Completable (before ++ ts)) ∧
    ∀ us e, (∀ t ∈ us, t.IsLexical) → Derives .any (before ++ us) e →
      ∃ ts vs e', us = ts ++ vs ∧ Derives (.only kind) ts e'

variable {before ts us : List Token} {p : Position} {stack rest : List Expected}

theorem Completable.of_append (hlex : ∀ u ∈ us, u.IsLexical) (h : Completable (ts ++ us)) :
    Completable ts := by
  obtain ⟨vs, e, hvs, hd⟩ := h
  exact ⟨us ++ vs, e, List.forall_mem_append.2 ⟨hlex, hvs⟩, List.append_assoc .. ▸ hd⟩

/-! ## Expressions -/

theorem isLexical_of_mem_shortened (hlex : ∀ t ∈ ts, t.IsLexical) :
    ∀ t ∈ ts.map Token.shortened, t.IsLexical :=
  List.forall_mem_map.2 fun t ht => (hlex t ht).shortened

theorem run_of_derives {e : Expr} (hlex : ∀ t ∈ ts, t.IsLexical) (hd : Derives p ts e) :
    run (.expr p :: rest) ts = some rest := by
  -- without leading zeros the tokens are read
  have hread : FollowsAt (.expr p :: rest) (fun _ => rest) (expr p) (ts.map Token.shortened) :=
    followsAt_expr p
  unfold FollowsAt at hread
  rw [(expr_eq_ok_iff (isLexical_of_mem_shortened hlex)).2 ⟨_, (List.append_nil _).symm,
    derives_map_shortened_iff.2 hd, List.forall_mem_map.2 hd.convertible_shortened⟩] at hread
  cases hread with
  | ok us hus hmeets =>
    rw [List.append_nil] at hus
    rw [← run_map_shortened, hus]
    exact hmeets.run

/-- A number that meets an expectation has few digits other than leading zeros. -/
theorem convertible_shortened_of_advance {s : Expected} {t : Token} (h : s.advance t ≠ none) :
    t.shortened.Convertible := by
  by_cases hk : t.kind = .number
  · refine Token.convertible_shortened hk ?_
    cases s <;> simp_all [advance, advanceExpr, advanceHead, advanceCase, ArithOp.ofKind?,
      LogicOp.ofKind?, UnaryOp.ofKind?, CompareOp.ofKind?]
  · exact Token.convertible_shortened_of_ne hk

/-- A stack is not emptied by tokens with a number of too many digits other than leading zeros. -/
theorem run_ne_nil_of_overflowsAt {n : Nat}
    (h : OverflowsAt stack (ts.map Token.shortened) n) : run stack ts ≠ some [] := by
  intro hrun
  obtain ⟨pre, t, post, s, rest, hts, hpre, -, hconv, -, -⟩ := h
  rw [← run_map_shortened, hts, run_append_of_eq hpre.run, run_cons,
    Option.bind_eq_some_iff] at hrun
  obtain ⟨_, htake, -⟩ := hrun
  have hadvance : s.advance t ≠ none := fun hnone => by
    rw [take_eq_none_iff.2 hnone] at htake
    cases htake
  obtain ⟨u, -, rfl⟩ := List.mem_map.1 (hts ▸ List.mem_append_right pre (List.mem_cons_self ..))
  refine hconv ?_
  rw [← Token.shortened_shortened]
  exact convertible_shortened_of_advance hadvance

/-- Tokens are an expression when they meet its expectation and everything that it leaves. -/
theorem run_expr_eq_nil_iff (hlex : ∀ t ∈ ts, t.IsLexical) :
    run [.expr p] ts = some [] ↔ ∃ e, Derives p ts e := by
  refine ⟨fun h => ?_, fun ⟨e, hd⟩ => run_of_derives hlex hd⟩
  have hread : FollowsAt [.expr p] (fun _ => []) (expr p) (ts.map Token.shortened) :=
    followsAt_expr p
  unfold FollowsAt at hread
  cases hresult : expr p (ts.map Token.shortened) with
  | error e left =>
    rw [hresult] at hread
    cases hread with
    | error hblame => exact absurd (run_map_shortened.trans h) hblame.run_ne_nil
    | oversized hover => exact absurd h (run_ne_nil_of_overflowsAt hover)
  | ok e left =>
    rw [hresult] at hread
    cases hread with
    | @ok us _ _ hus hmeets =>
      -- what is left would have to meet an empty stack
      rw [← run_map_shortened, hus, run_append_of_eq hmeets.run] at h
      obtain rfl : left = [] := by
        cases left with
        | nil => rfl
        | cons t left => cases h
      obtain ⟨vs, hvs, hd, -⟩ := (expr_eq_ok_iff (isLexical_of_mem_shortened hlex)).1 hresult
      rw [List.append_nil] at hvs
      exact ⟨e, derives_map_shortened_iff.1 (hvs ▸ hd)⟩

/-! ## Prefixes of expressions -/

/-- Tokens can be completed when they meet what is expected. -/
theorem completable_iff (hlex : ∀ t ∈ ts, t.IsLexical) :
    Completable ts ↔ ∃ stack, run [.expr .any] ts = some stack := by
  constructor
  · rintro ⟨us, e, hus, hd⟩
    have hrun := (run_expr_eq_nil_iff (List.forall_mem_append.2 ⟨hlex, hus⟩)).2 ⟨e, hd⟩
    rw [run_append, Option.bind_eq_some_iff] at hrun
    obtain ⟨stack, hstack, -⟩ := hrun
    exact ⟨stack, hstack⟩
  · rintro ⟨stack, hstack⟩
    obtain ⟨us, hus, hrun⟩ := exists_run_eq_nil stack
    obtain ⟨e, hd⟩ := (run_expr_eq_nil_iff (List.forall_mem_append.2 ⟨hlex, hus⟩)).1
      ((run_append_of_eq hstack).trans hrun)
    exact ⟨us, e, hus, hd⟩

/-- Tokens that can be completed can be completed with a token after them when it meets what is
expected. -/
theorem completable_concat_iff {t : Token} (hlex : ∀ u ∈ before ++ [t], u.IsLexical)
    (hstack : run [.expr .any] before = some stack) :
    Completable (before ++ [t]) ↔ ∃ later, take stack t = some later := by
  rw [completable_iff hlex, run_concat_of_eq hstack]

/-! ## The place of an expression of a kind -/

/-- A literal of a kind. -/
def literal : ValueKind → Token
  | .number => sample .number
  | .boolean => sample .boolean

theorem isLexical_literal (kind : ValueKind) : (literal kind).IsLexical := by
  cases kind <;> exact isLexical_sample (by simp)

theorem exists_derives_literal (kind : ValueKind) :
    ∃ e, Derives (.only kind) [literal kind] e := by
  cases kind with
  | number => exact ⟨_, .literal rfl rfl (by decide)⟩
  | boolean => exact ⟨_, .trueLiteral rfl rfl rfl⟩

/-- A literal starts no expression of the other kind. -/
theorem kind_eq_of_derives {kind kind' : ValueKind} {e : Expr}
    (hlex : ∀ t ∈ literal kind' :: ts, t.IsLexical)
    (hd : Derives (.only kind) (literal kind' :: ts) e) : kind' = kind := by
  have hrun : run [.expr (.only kind)] (literal kind' :: ts) = some [] := run_of_derives hlex hd
  cases kind <;> cases kind' <;> first | rfl | cases hrun

/-- Where a name and a literal of a kind may come, it is the place of an expression of that kind, or
a literal of the other kind may come as well. -/
theorem eq_expr_of_advance {kind : ValueKind} {s : Expected} {above above' : List Expected}
    (hname : s.advance (sample .identifier) = some above)
    (hliteral : s.advance (literal kind) = some above') :
    s = .expr (.only kind) ∨
      ∃ kind' above'', kind' ≠ kind ∧ s.advance (literal kind') = some above'' := by
  cases s with
  | expr p =>
    rcases p with _ | kind'
    · cases kind
      · exact .inr ⟨.boolean, _, by decide, rfl⟩
      · exact .inr ⟨.number, _, by decide, rfl⟩
    · cases kind <;> cases kind' <;> first | exact .inl rfl | cases hliteral
  | args =>
    cases kind
    · exact .inr ⟨.boolean, _, by decide, rfl⟩
    · exact .inr ⟨.number, _, by decide, rfl⟩
  | digits | caseOf | cases | signature | closing => cases hname
  | head | name | params => cases kind <;> cases hliteral

theorem exists_advance_of_completable {t : Token} (hlex : ∀ u ∈ before, u.IsLexical)
    (ht : t.IsLexical) (hstack : run [.expr .any] before = some stack)
    (h : Completable (before ++ [t])) :
    ∃ s rest above, stack = s :: rest ∧ s.advance t = some above := by
  obtain ⟨later, hlater⟩ := (completable_concat_iff
    (List.forall_mem_append.2 ⟨hlex, List.forall_mem_singleton.2 ht⟩) hstack).1 h
  obtain ⟨s, rest, above, hs, hadvance, -⟩ := take_eq_some_iff.1 hlater
  exact ⟨s, rest, above, hs, hadvance⟩

/-- Tokens that await an expression of a kind expect it. -/
theorem Awaits.exists_run_eq {kind : ValueKind} (hlex : ∀ t ∈ before, t.IsLexical)
    (h : Awaits before kind) :
    ∃ rest, run [.expr .any] before = some (.expr (.only kind) :: rest) := by
  obtain ⟨hall, honly⟩ := h
  have hname : (sample .identifier).IsLexical := isLexical_sample (by simp)
  have hone : ∀ {t : Token} {e : Expr}, t.IsLexical → Derives (.only kind) [t] e →
      Completable (before ++ [t]) := fun ht hd => hall _ _ (List.forall_mem_singleton.2 ht) hd
  obtain ⟨stack, hstack⟩ := (completable_iff hlex).1
    ((hone hname (.var rfl)).of_append (List.forall_mem_singleton.2 hname))
  obtain ⟨s, rest, above, rfl, hs⟩ :=
    exists_advance_of_completable hlex hname hstack (hone hname (.var rfl))
  obtain ⟨e, hd⟩ := exists_derives_literal kind
  obtain ⟨_, _, above', ⟨⟩, hs'⟩ := exists_advance_of_completable hlex (isLexical_literal kind)
    hstack (hone (isLexical_literal kind) hd)
  obtain rfl | ⟨kind', above'', hne, hs''⟩ := eq_expr_of_advance hs hs'
  · exact ⟨rest, hstack⟩
  · -- the literal of the other kind would start an expression of this kind
    obtain ⟨us, hus, hrun⟩ := exists_run_eq_nil (above'' ++ rest)
    have htake : take (s :: rest) (literal kind') = some (above'' ++ rest) := by
      rw [take, hs'', Option.map_some]
    have hlexus : ∀ t ∈ literal kind' :: us, t.IsLexical :=
      List.forall_mem_cons.2 ⟨isLexical_literal kind', hus⟩
    obtain ⟨e', hd'⟩ := (run_expr_eq_nil_iff (List.forall_mem_append.2 ⟨hlex, hlexus⟩)).1
      ((run_append_of_eq hstack).trans ((run_cons_of_eq htake).trans hrun))
    obtain ⟨ts, vs, e'', hts, hd''⟩ := honly _ e' hlexus hd'
    obtain ⟨t, ts, rfl, -⟩ := hd''.startsOpen
    obtain ⟨rfl, rfl⟩ := List.cons.inj hts
    exact absurd (kind_eq_of_derives (List.forall_mem_append.1 hlexus).1 hd'') hne

/-- Tokens await an expression of a kind when that is what is expected next. -/
theorem awaits_iff {kind : ValueKind} (hlex : ∀ t ∈ before, t.IsLexical) :
    Awaits before kind ↔
      ∃ rest, run [.expr .any] before = some (.expr (.only kind) :: rest) := by
  refine ⟨Awaits.exists_run_eq hlex, ?_⟩
  rintro ⟨rest, hstack⟩
  constructor
  · intro ts e hts hd
    exact (completable_iff (List.forall_mem_append.2 ⟨hlex, hts⟩)).2
      ⟨rest, (run_append_of_eq hstack).trans (run_of_derives hts hd)⟩
  · intro us e hus hd
    have hrun : run ([.expr (.only kind)] ++ rest) us = some [] :=
      (run_append_of_eq hstack).symm.trans
        (run_of_derives (List.forall_mem_append.2 ⟨hlex, hus⟩) hd)
    obtain ⟨ts, vs, rfl, hts, -⟩ := exists_run_eq_nil_of_append hrun
    obtain ⟨e', hd'⟩ := (run_expr_eq_nil_iff (List.forall_mem_append.1 hus).1).1 hts
    exact ⟨ts, vs, e', rfl, hd'⟩

end Parser

end DynLisp
