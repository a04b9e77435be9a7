import DynLisp.Parser
import DynLisp.Proofs.Parser.Choice
import Mathlib.Data.List.Forall2

/-!
# Reading tokens that are alike

What readers look at in a token is its kind, and its text if it is no delimiter.  Where it stands
only enters the places of faults.  So tokens that agree in the one and not in the other are read
alike: into the same trees, or into faults that are alike.

A `Likeness` says which tokens and which faults are alike.  `Alike` is the relation between two
readers that take tokens alike into results alike; it composes along a bind, it holds between every
form and itself if it does for the operands, and so it holds for `Parser.expr` (`alike_expr`), by
induction on the number of tokens, and for whole programs (`alike_program`).
-/

namespace DynLisp
namespace Parser

/-- Tokens are alike only if they agree in what is looked at, and faults are alike if they are
blamed in the same way on tokens that are alike. -/
structure Likeness (R : Token → Token → Prop) (E : GrammarError → GrammarError → Prop) : Prop where
  kind {t t' : Token} : R t t' → t.kind = t'.kind
  text {t t' : Token} : R t t' → t.kind ≠ .opening → t.kind ≠ .closing → t.text = t'.text
  endOfInput (fault : GrammarFault) : E ⟨fault, .endOfInput⟩ ⟨fault, .endOfInput⟩
  token {t t' u u' : Token} (fault : String → GrammarFault) : R u u' → R t t' →
    E ⟨fault u.text, .token t⟩ ⟨fault u'.text, .token t'⟩
  upTo {t t' u u' : Token} (fault : String → GrammarFault) : R u u' → R t t' →
    E ⟨fault t.text, .upTo u.offset t⟩ ⟨fault t'.text, .upTo u'.offset t'⟩

variable {R : Token → Token → Prop} {E : GrammarError → GrammarError → Prop} {α α' β β' : Type}

/-- Ways out that are alike: faults, or numbers of equally many digits. -/
inductive ErrorAlike (E : GrammarError → GrammarError → Prop) : ReadError → ReadError → Prop
  | grammar {e e' : GrammarError} : E e e' → ErrorAlike E (.grammar e) (.grammar e')
  | oversized (digits : Nat) : ErrorAlike E (.oversized digits) (.oversized digits)

/-- Results that are alike: values related by `A`, or ways out, and tokens left that are alike. -/
inductive Result.Alike (R : Token → Token → Prop) (E : GrammarError → GrammarError → Prop)
    (A : α → α' → Prop) : Result α → Result α' → Prop
  | ok {a : α} {a' : α'} {us us' : List Token} :
      A a a' → List.Forall₂ R us us' → Alike R E A (.ok a us) (.ok a' us')
  | error {e e' : ReadError} {us us' : List Token} :
      ErrorAlike E e e' → List.Forall₂ R us us' → Alike R E A (.error e us) (.error e' us')

/-- Two readers take tokens alike into results alike. -/
def Alike (R : Token → Token → Prop) (E : GrammarError → GrammarError → Prop) (A : α → α' → Prop)
    (p : Parser α) (p' : Parser α') : Prop :=
  ∀ us us', List.Forall₂ R us us' → Result.Alike R E A (p us) (p' us')

/-! ## Single steps -/

theorem alike_pure {A : α → α' → Prop} {a : α} {a' : α'} (h : A a a') :
    Alike R E A (pure a) (pure a') := fun _ _ hus => .ok h hus

theorem alike_throw {A : α → α' → Prop} {e e' : ReadError} (h : ErrorAlike E e e') :
    Alike R E A (throw e) (throw e') := fun _ _ hus => .error h hus

theorem Alike.bind {A : α → α' → Prop} {B : β → β' → Prop} {p : Parser α} {p' : Parser α'}
    {f : α → Parser β} {f' : α' → Parser β'} (hp : Alike R E A p p')
    (hf : ∀ a a', A a a' → Alike R E B (f a) (f' a')) : Alike R E B (p >>= f) (p' >>= f') := by
  intro us us' hus
  show Result.Alike R E B (EStateM.bind p f us) (EStateM.bind p' f' us')
  rw [EStateM.bind, EStateM.bind]
  have h := hp us us' hus
  generalize p us = result, p' us' = result' at h
  cases h with
  | ok ha hrest => exact hf _ _ ha _ _ hrest
  | error he hrest => exact .error he hrest

/-- A reader that looks at the next tokens before it is chosen. -/
theorem alike_peek_bind {f f' : Option Token → Parser α} {A : α → α → Prop} (n : Nat)
    (hf : ∀ t t', Option.Rel R t t' → Alike R E A (f t) (f' t')) :
    Alike R E A (peek n >>= f) (peek n >>= f') := by
  intro us us' hus
  rw [peek_bind, peek_bind]
  refine hf _ _ ?_ us us' hus
  induction hus generalizing n with
  | nil => exact .none
  | cons h _ ih =>
    cases n with
    | zero => exact .some h
    | succ n => exact ih n

theorem alike_discard {A : α → α' → Prop} {p : Parser α} {p' : Parser α'} (h : Alike R E A p p') :
    Alike R E (fun _ _ => True) (discard p) (discard p') := by
  intro us us' hus
  show Result.Alike R E _ (EStateM.map _ p us) (EStateM.map _ p' us')
  rw [EStateM.map, EStateM.map]
  have h := h us us' hus
  generalize p us = result, p' us' = result' at h
  cases h with
  | ok _ hrest => exact .ok trivial hrest
  | error he hrest => exact .error he hrest

theorem alike_convert (digits : List Char) :
    Alike R E (· = ·) (convert digits) (convert digits) := by
  rw [convert]
  cases Decimal.convert digits with
  | ok size => exact alike_pure rfl
  | error count => exact alike_throw (.oversized count)

variable (like : Likeness R E)
include like

theorem alike_blame {A : α → α' → Prop} {t t' u u' : Token} (fault : String → GrammarFault)
    (hu : R u u') (ht : R t t') :
    Alike R E A (blame (fault u.text) t) (blame (fault u'.text) t') :=
  alike_throw (.grammar (like.token fault hu ht))

theorem alike_blameEnd {A : α → α' → Prop} (fault : GrammarFault) :
    Alike R E A (blameEnd fault) (blameEnd fault) :=
  alike_throw (.grammar (like.endOfInput fault))

theorem alike_next : Alike R E R next next := by
  intro us us' hus
  cases hus with
  | nil => exact .error (.grammar (like.endOfInput _)) .nil
  | cons ht hus => exact .ok ht hus

theorem alike_expect (kind : TokenKind) (wanted : String) :
    Alike R E (fun t t' => R t t' ∧ t.kind = kind) (expect kind wanted) (expect kind wanted) := by
  intro us us' hus
  simp only [expect]
  cases hus with
  | nil => exact .error (.grammar (like.endOfInput _)) .nil
  | @cons t t' us us' ht hus =>
    simp only [expectOneOf, List.mem_singleton, ← like.kind ht]
    by_cases hk : t.kind = kind
    · rw [if_pos hk, if_pos hk]
      exact .ok ⟨ht, hk⟩ hus
    · rw [if_neg hk, if_neg hk]
      exact .error (.grammar (like.token (.unexpected · wanted) ht ht)) (.cons ht hus)

theorem alike_operator (ofKind? : TokenKind → Option α) (family : String) :
    Alike R E (· = ·) (operator ofKind? family) (operator ofKind? family) := by
  refine (alike_next like).bind fun t t' ht => ?_
  rw [← like.kind ht]
  cases ofKind? t.kind with
  | none => exact alike_blame like (.unknownOperator family) ht ht
  | some op => exact alike_pure rfl

/-! ## Repetitions -/

theorem head?_kind {us us' : List Token} (h : List.Forall₂ R us us') :
    us.head?.map Token.kind = us'.head?.map Token.kind := by
  cases h with
  | nil => rfl
  | cons ht => exact congrArg some (like.kind ht)

theorem alike_untilClosing {item : Parser α} (hitem : Alike R E (· = ·) item item) :
    Alike R E (· = ·) (untilClosing item) (untilClosing item) := by
  intro us us' hus
  have hkind := head?_kind like hus
  have hx := hitem us us' hus
  fun_induction untilClosing item us generalizing us' with
  | case1 us hclosing =>
    rw [untilClosing, if_pos (hkind ▸ hclosing)]
    exact .ok rfl hus
  | case2 us hclosing e rest heq =>
    rw [heq] at hx
    rw [untilClosing, if_neg (hkind ▸ hclosing)]
    generalize item us' = result at hx
    cases hx with
    | error he hrest => exact .error he hrest
  | case3 us hclosing x mid heq hlt xs rest hrec ih =>
    rw [heq] at hx
    rw [untilClosing, if_neg (hkind ▸ hclosing)]
    generalize item us' = result at hx
    cases hx with
    | @ok _ _ _ mid' hxx hmid =>
      have hrest := ih mid' hmid (head?_kind like hmid) (hitem _ _ hmid)
      rw [hrec] at hrest
      rw [hus.length_eq, hmid.length_eq] at hlt
      simp only [hlt, if_true]
      generalize untilClosing item mid' = result at hrest
      cases hrest with
      | ok hxs hrest => exact .ok (by rw [hxx, hxs]) hrest
  | case4 us hclosing x mid heq hlt e rest hrec ih =>
    rw [heq] at hx
    rw [untilClosing, if_neg (hkind ▸ hclosing)]
    generalize item us' = result at hx
    cases hx with
    | @ok _ _ _ mid' hxx hmid =>
      have hrest := ih mid' hmid (head?_kind like hmid) (hitem _ _ hmid)
      rw [hrec] at hrest
      rw [hus.length_eq, hmid.length_eq] at hlt
      simp only [hlt, if_true]
      generalize untilClosing item mid' = result at hrest
      cases hrest with
      | error he hrest => exact .error he hrest
  | case5 us hclosing x mid heq hlt =>
    rw [heq] at hx
    rw [untilClosing, if_neg (hkind ▸ hclosing)]
    generalize item us' = result at hx
    cases hx with
    | ok hxx hmid =>
      rw [hus.length_eq, hmid.length_eq] at hlt
      simp only [hlt, if_false]
      exact .ok (by rw [hxx]) hmid

theorem alike_parameters (function : String) (seen : List String) :
    Alike R E (· = ·) (parameters function seen) (parameters function seen) := by
  intro us us' hus
  induction hus generalizing seen with
  | nil => exact .error (.grammar (like.endOfInput _)) .nil
  | @cons t t' us us' ht hus ih =>
    simp only [parameters, ← like.kind ht]
    by_cases hclosing : t.kind = .closing
    · rw [if_pos hclosing, if_pos hclosing]
      exact .ok rfl (.cons ht hus)
    · rw [if_neg hclosing, if_neg hclosing]
      by_cases hname : t.kind = .identifier
      · have htext := like.text ht (by rw [hname]; decide) hclosing
        rw [if_pos hname, if_pos hname, ← htext]
        by_cases hmem : t.text ∈ seen
        · rw [if_pos hmem, if_pos hmem]
          have he := like.token (.duplicateParameter · function) ht ht
          rw [← htext] at he
          exact .error (.grammar he) hus
        · rw [if_neg hmem, if_neg hmem]
          exact ih _
      · rw [if_neg hname, if_neg hname]
        exact .error (.grammar (like.token (.unexpected · "parameter name") ht ht)) (.cons ht hus)

/-! ## Literals and names -/

theorem alike_numberLiteral (negative : Bool) {start start' : Option Nat}
    (hstart : Option.Rel (fun i i' => ∃ u u', R u u' ∧ i = u.offset ∧ i' = u'.offset)
      start start') :
    Alike R E (· = ·) (numberLiteral negative start) (numberLiteral negative start') := by
  rw [numberLiteral_eq, numberLiteral_eq]
  refine (alike_expect like _ _).bind ?_
  rintro t t' ⟨ht, hk⟩
  have hplace : ∀ fault : String → GrammarFault,
      E ⟨fault t.text, literalPlace start t⟩ ⟨fault t'.text, literalPlace start' t'⟩ := by
    intro fault
    cases hstart with
    | none => exact like.token fault ht ht
    | some hstart =>
      obtain ⟨u, u', hu, rfl, rfl⟩ := hstart
      exact like.upTo fault hu ht
  have hblame := hplace fun s => .literalOutOfRange (if negative then "-" ++ s else s)
  rw [← like.text ht (by rw [hk]; decide) (by rw [hk]; decide)] at hblame ⊢
  refine (alike_convert _).bind ?_
  rintro size _ rfl
  dsimp only
  by_cases hrange : inRange (if negative then -(size : Int) else size) = true
  · rw [if_pos hrange, if_pos hrange]
    exact alike_pure rfl
  · rw [if_neg hrange, if_neg hrange]
    exact alike_throw (.grammar hblame)

theorem alike_negativeLiteral : Alike R E (· = ·) negativeLiteral negativeLiteral := by
  refine (alike_next like).bind fun minus minus' hminus => ?_
  refine alike_peek_bind 0 fun t t' ht => ?_
  cases ht with
  | none => exact alike_blame like .signWithoutNumber hminus hminus
  | @some t t' ht =>
    dsimp only
    rw [← like.kind ht]
    split
    · exact alike_numberLiteral like true (.some ⟨minus, minus', hminus, rfl, rfl⟩)
    · exact alike_blame like .signWithoutNumber hminus ht

theorem alike_booleanLiteral : Alike R E (· = ·) booleanLiteral booleanLiteral := by
  refine (alike_expect like _ _).bind ?_
  rintro t t' ⟨ht, hk⟩
  rw [like.text ht (by rw [hk]; decide) (by rw [hk]; decide)]
  exact alike_pure rfl

theorem alike_variableName : Alike R E (· = ·) variableName variableName := by
  refine (alike_expect like _ _).bind ?_
  rintro t t' ⟨ht, hk⟩
  rw [like.text ht (by rw [hk]; decide) (by rw [hk]; decide)]
  exact alike_pure rfl

/-! ## Forms -/

section Forms

variable {operand : Position → Parser Expr}
  (hop : ∀ p, Alike R E (· = ·) (operand p) (operand p))
include hop

theorem alike_binary (ofKind? : TokenKind → Option α) (family : String) (kind : ValueKind)
    (build : α → Expr → Expr → Expr) :
    Alike R E (· = ·) (binary operand ofKind? family kind build)
      (binary operand ofKind? family kind build) := by
  refine (alike_discard (alike_expect like _ _)).bind fun _ _ _ => ?_
  refine (alike_operator like ofKind? family).bind ?_
  rintro op _ rfl
  refine (hop (.only kind)).bind ?_
  rintro l _ rfl
  refine (hop (.only kind)).bind ?_
  rintro r _ rfl
  exact (alike_discard (alike_expect like _ _)).bind fun _ _ _ => alike_pure rfl

theorem alike_unary : Alike R E (· = ·) (unary operand) (unary operand) := by
  refine (alike_discard (alike_expect like _ _)).bind fun _ _ _ => ?_
  refine (alike_operator like UnaryOp.ofKind? _).bind ?_
  rintro op _ rfl
  refine (hop (.only .boolean)).bind ?_
  rintro e _ rfl
  exact (alike_discard (alike_expect like _ _)).bind fun _ _ _ => alike_pure rfl

theorem alike_caseOf : Alike R E (· = ·) (caseOf operand) (caseOf operand) := by
  refine (alike_discard (alike_expect like _ _)).bind fun _ _ _ => ?_
  refine (hop (.only .boolean)).bind ?_
  rintro condition _ rfl
  refine (hop .any).bind ?_
  rintro result _ rfl
  exact (alike_discard (alike_expect like _ _)).bind fun _ _ _ => alike_pure rfl

theorem alike_conditional : Alike R E (· = ·) (conditional operand) (conditional operand) := by
  refine (alike_discard (alike_expect like _ _)).bind fun _ _ _ => ?_
  refine (alike_expect like _ _).bind ?_
  rintro keyword keyword' ⟨hkeyword, -⟩
  have hcases : Alike R E (· = ·)
      (untilClosing (caseOf operand) >>= fun cases => discard expectClosing >>= fun _ =>
        pure (Expr.cond cases))
      (untilClosing (caseOf operand) >>= fun cases => discard expectClosing >>= fun _ =>
        pure (Expr.cond cases)) := by
    refine (alike_untilClosing like (alike_caseOf like hop)).bind ?_
    rintro cases _ rfl
    exact (alike_discard (alike_expect like _ _)).bind fun _ _ _ => alike_pure rfl
  intro us us' hus
  rw [peekKind_bind, peekKind_bind, ← List.head?_eq_getElem?, ← List.head?_eq_getElem?,
    ← head?_kind like hus]
  split
  · exact .error (.grammar (like.token .emptyCond hkeyword hkeyword)) hus
  · exact hcases us us' hus

theorem alike_definition : Alike R E (· = ·) (definition operand) (definition operand) := by
  refine (alike_discard (alike_expect like _ _)).bind fun _ _ _ => ?_
  refine (alike_discard (alike_expect like _ _)).bind fun _ _ _ => ?_
  refine (alike_discard (alike_expect like _ _)).bind fun _ _ _ => ?_
  refine (alike_expect like _ _).bind ?_
  rintro name name' ⟨hname, hk⟩
  rw [← like.text hname (by rw [hk]; decide) (by rw [hk]; decide)]
  refine (alike_parameters like name.text []).bind ?_
  rintro params _ rfl
  refine (alike_discard (alike_expect like _ _)).bind fun _ _ _ => ?_
  refine (hop .any).bind ?_
  rintro body _ rfl
  exact (alike_discard (alike_expect like _ _)).bind fun _ _ _ => alike_pure rfl

theorem alike_call : Alike R E (· = ·) (call operand) (call operand) := by
  refine (alike_discard (alike_expect like _ _)).bind fun _ _ _ => ?_
  refine (alike_expect like _ _).bind ?_
  rintro name name' ⟨hname, hk⟩
  rw [← like.text hname (by rw [hk]; decide) (by rw [hk]; decide)]
  refine (alike_untilClosing like (hop .any)).bind ?_
  rintro args _ rfl
  exact (alike_discard (alike_expect like _ _)).bind fun _ _ _ => alike_pure rfl

/-- Every reader of the table takes tokens alike into results alike. -/
theorem alike_reader? {p : Position} {kind : TokenKind} {kind? : Option TokenKind}
    {r : Parser Expr} (h : reader? operand p kind kind? = some r) : Alike R E (· = ·) r r := by
  cases entry_of_reader? h with
  | number => exact alike_numberLiteral like false .none
  | negative => exact alike_negativeLiteral like
  | boolean => exact alike_booleanLiteral like
  | var => exact alike_variableName like
  | cond => exact alike_conditional like hop
  | call => exact alike_call like hop
  | define => exact alike_definition like hop
  | arith | logic | compare => exact alike_binary like hop _ _ _ _
  | unary => exact alike_unary like hop

end Forms

/-! ## Refusing -/

theorem alike_blameMisfit (kind : ValueKind) :
    Alike R E (· = ·) (blameMisfit kind) (blameMisfit kind) := by
  refine alike_peek_bind 0 fun t t' ht => ?_
  cases ht with
  | none => exact alike_blameEnd like _
  | @some t t' ht =>
    refine alike_peek_bind 1 fun u u' hu => ?_
    rw [← like.kind ht]
    cases hu with
    | none => cases t.kind <;> exact alike_blame like (.misfit kind) ht ht
    | some hu =>
      cases t.kind
      case opening => exact alike_blame like (.misfit kind) hu hu
      all_goals exact alike_blame like (.misfit kind) ht ht

theorem alike_blameFormStart : Alike R E (· = ·) blameFormStart blameFormStart := by
  refine alike_peek_bind 1 fun t t' ht => ?_
  cases ht with
  | none => exact alike_blameEnd like _
  | @some t t' ht =>
    dsimp only
    rw [← like.kind ht]
    split
    · exact alike_blame like .unsupported ht ht
    · exact alike_blame like .cannotStartForm ht ht

theorem alike_refuse (p : Position) : Alike R E (· = ·) (refuse p) (refuse p) := by
  cases p with
  | only kind => exact alike_blameMisfit like kind
  | any =>
    intro us us' hus
    cases hus with
    | nil => exact .error (.grammar (like.endOfInput _)) .nil
    | @cons t t' us us' ht hus =>
      simp only [refuse, ← like.kind ht]
      split
      · exact alike_blameFormStart like _ _ (.cons ht hus)
      · split
        · exact .error (.grammar (like.token .unsupported ht ht)) (.cons ht hus)
        · exact .error (.grammar (like.token .cannotStart ht ht)) (.cons ht hus)

/-! ## Expressions -/

theorem alike_step {operand : Position → Parser Expr}
    (hop : ∀ p, Alike R E (· = ·) (operand p) (operand p)) (p : Position) :
    Alike R E (· = ·) (step operand p) (step operand p) := by
  intro us us' hus
  cases hus with
  | nil =>
    rw [step_nil]
    exact alike_refuse like p [] [] .nil
  | @cons t t' us us' ht hus =>
    rw [step_cons, step_cons, ← like.kind ht, ← head?_kind like hus]
    cases hr : reader? operand p t.kind (us.head?.map Token.kind) with
    | none => exact alike_refuse like p _ _ (.cons ht hus)
    | some r => exact alike_reader? like hop hr _ _ (.cons ht hus)

theorem alike_expr (p : Position) : Alike R E (· = ·) (expr p) (expr p) := by
  intro us us' hus
  induction hn : us.length using Nat.strongRecOn generalizing p us us' with
  | ind n ih =>
    rw [expr, expr, ← hus.length_eq, hn]
    refine alike_step like (fun q vs vs' hvs => ?_) p us us' hus
    rw [← hvs.length_eq]
    split
    · next hlt => exact ih vs.length hlt q vs vs' hvs rfl
    · exact .error (.grammar (like.endOfInput _)) hvs

theorem alike_program : Alike R E (· = ·) program program := by
  intro us us' hus
  cases hus with
  | nil => exact .error (.grammar (like.endOfInput _)) .nil
  | @cons t t' us us' ht hus =>
    rw [program_cons, program_cons]
    refine (alike_expr like .any).bind ?_ _ _ (.cons ht hus)
    rintro e _ rfl
    refine alike_peek_bind 0 fun t t' ht => ?_
    cases ht with
    | none => exact alike_pure rfl
    | some ht => exact alike_blame like .trailingToken ht ht

end Parser

end DynLisp
