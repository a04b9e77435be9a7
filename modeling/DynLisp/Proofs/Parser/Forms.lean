import DynLisp.Proofs.Parser.Reads

/-!
# The readers of forms read derivations

One lemma for each form: its reader reads exactly the derivations whose tree is a node of the form,
provided that `operand` reads derivations from fewer tokens.  A number is read by two readers, with
and without a sign, and what the kind of the sign is only its caller knows.
-/

namespace DynLisp
namespace Parser

variable {n : Nat} {p : Position}

/-! ## Literals and names -/

/-- Where a literal that is out of range lies: its sign belongs to it. -/
def literalPlace (start : Option Nat) (t : Token) : Place :=
  match start with
  | none => .token t
  | some start => .upTo start t

theorem numberLiteral_eq (negative : Bool) (start : Option Nat) :
    numberLiteral negative start = (expect .number "number" >>= fun t =>
      convert t.text.toList >>= fun size =>
        let value : Int := if negative then -size else size
        if inRange value then pure (.number value)
        else throw (.grammar ⟨.literalOutOfRange (if negative then "-" ++ t.text else t.text),
          literalPlace start t⟩)) := by
  cases start <;> rfl

theorem convert_of_convertible {t : Token} (hk : t.kind = .number) (h : t.Convertible) :
    convert t.text.toList = pure (Decimal.read t.text.toList) := by
  have hle : t.text.toList.length ≤ Decimal.maxDigits := by
    rw [String.length_toList]
    exact h hk
  rw [convert, Decimal.convert_of_le hle]

theorem convert_of_not_convertible {t : Token} (h : ¬ t.Convertible) :
    convert t.text.toList = throw (.oversized t.text.length) := by
  have hlt : Decimal.maxDigits < t.text.toList.length := by
    rw [String.length_toList]
    exact Nat.lt_of_not_le fun hle => h fun _ => hle
  rw [convert, Decimal.convert_of_lt hlt, String.length_toList]

theorem numberLiteral_eq_ok_iff {negative : Bool} {start : Option Nat} {us rest : List Token}
    {e : Expr} :
    numberLiteral negative start us = .ok e rest ↔
      ∃ t, us = t :: rest ∧ t.kind = .number ∧ t.Convertible ∧
        ∃ v, v = (if negative then -t.value else t.value) ∧ inRange v = true ∧ e = .number v := by
  rw [numberLiteral_eq, bind_eq_ok_iff]
  refine exists_congr fun t => ?_
  constructor
  · rintro ⟨mid, ht, he⟩
    obtain ⟨rfl, hk⟩ := expect_eq_ok_iff.1 ht
    by_cases hconv : t.Convertible
    · rw [convert_of_convertible hk hconv] at he
      by_cases hrange : inRange (if negative then -t.value else t.value) = true
      · obtain ⟨rfl, rfl⟩ := pure_eq_ok_iff.1 ((congrFun (if_pos hrange) mid).symm.trans he)
        exact ⟨rfl, hk, hconv, _, rfl, hrange, rfl⟩
      · cases (congrFun (if_neg hrange) mid).symm.trans he
    · rw [convert_of_not_convertible hconv] at he
      cases he
  · rintro ⟨rfl, hk, hconv, v, rfl, hrange, rfl⟩
    refine ⟨rest, expect_eq_ok_iff.2 ⟨rfl, hk⟩, ?_⟩
    rw [convert_of_convertible hk hconv]
    exact (congrFun (if_pos hrange) rest).trans rfl

theorem reads_numberLiteral :
    Reads n (numberLiteral false none) fun ts e =>
      ∃ t, ts = [t] ∧ t.kind = .number ∧ inRange t.value = true ∧ e = .number t.value := by
  intro us _ _ e rest
  rw [numberLiteral_eq_ok_iff]
  constructor
  · rintro ⟨t, rfl, hk, hconv, _, rfl, hrange, rfl⟩
    exact ⟨[t], rfl, ⟨t, rfl, hk, hrange, rfl⟩, List.forall_mem_singleton.2 hconv⟩
  · rintro ⟨_, rfl, ⟨t, rfl, hk, hrange, rfl⟩, hconv⟩
    exact ⟨t, rfl, hk, List.forall_mem_singleton.1 hconv, _, rfl, hrange, rfl⟩

theorem reads_negativeLiteral :
    ∀ us : List Token, (∀ t ∈ us.head?, t.kind = .minus) → ∀ e rest,
      negativeLiteral us = .ok e rest ↔ ∃ ts, us = ts ++ rest ∧
        (∃ sign t, ts = [sign, t] ∧ t.kind = .number ∧ inRange (-t.value) = true ∧
          e = .number (-t.value)) ∧ ∀ t ∈ ts, t.Convertible := by
  intro us hminus e rest
  rw [negativeLiteral]
  constructor
  · intro h
    obtain ⟨sign, mid, hsign, he⟩ := bind_eq_ok_iff.1 h
    rw [peek_bind] at he
    cases us with
    | nil => cases hsign
    | cons u us =>
      obtain ⟨rfl, rfl⟩ := EStateM.Result.ok.inj hsign
      cases us with
      | nil => cases he
      | cons t us =>
        by_cases hk : t.kind = .number
        · replace he := (congrFun (if_pos hk) (t :: us)).symm.trans he
          obtain ⟨_, ⟨rfl, rfl⟩, _, hconv, _, rfl, hrange, rfl⟩ := numberLiteral_eq_ok_iff.1 he
          refine ⟨[u, t], rfl, ⟨u, t, rfl, hk, hrange, rfl⟩, ?_⟩
          exact List.forall_mem_cons.2
            ⟨.of_kind_ne (by rw [hminus u rfl]; decide), List.forall_mem_singleton.2 hconv⟩
        · cases (congrFun (if_neg hk) (t :: us)).symm.trans he
  · rintro ⟨_, rfl, ⟨sign, t, rfl, hk, hrange, rfl⟩, hconv⟩
    refine bind_eq_ok_iff.2 ⟨sign, t :: rest, rfl, ?_⟩
    refine (congrFun (if_pos hk) (t :: rest)).trans ?_
    exact numberLiteral_eq_ok_iff.2 ⟨t, rfl, hk, hconv t (by simp), _, rfl, hrange, rfl⟩

theorem reads_booleanLiteral (hp : p.Admits .boolean) :
    Reads n booleanLiteral fun ts e => Derives p ts e ∧ ∃ b, e = .boolean b := by
  intro us _ hlex e rest
  rw [booleanLiteral, bind_eq_ok_iff]
  constructor
  · rintro ⟨t, mid, ht, he⟩
    obtain ⟨rfl, hk⟩ := expect_eq_ok_iff.1 ht
    obtain ⟨rfl, rfl⟩ := pure_eq_ok_iff.1 he
    refine ⟨[t], rfl, ⟨?_, _, rfl⟩,
      List.forall_mem_singleton.2 (.of_kind_ne (by rw [hk]; decide))⟩
    rcases (hlex t (List.mem_cons_self ..)).text_of_boolean hk with htext | htext
    · rw [htext]
      exact .trueLiteral hp hk htext
    · rw [htext]
      exact .falseLiteral hp hk htext
  · rintro ⟨ts, rfl, ⟨hd, b, rfl⟩, -⟩
    cases hd with
    | @trueLiteral _ t _ hk htext =>
      exact ⟨t, rest, expect_eq_ok_iff.2 ⟨rfl, hk⟩, by rw [htext]; rfl⟩
    | @falseLiteral _ t _ hk htext =>
      exact ⟨t, rest, expect_eq_ok_iff.2 ⟨rfl, hk⟩, by rw [htext]; rfl⟩

theorem reads_variableName :
    Reads n variableName fun ts e => Derives p ts e ∧ ∃ x, e = .var x := by
  refine ((reads_expect (by decide) _).bind fun t => reads_pure _).congr fun ts e => ?_
  constructor
  · rintro ⟨t, _, _, rfl, ⟨rfl, hk⟩, rfl, rfl⟩
    exact ⟨.var hk, t.text, rfl⟩
  · rintro ⟨hd, x, rfl⟩
    cases hd with
    | @var _ t hk => exact ⟨t, [t], [], rfl, ⟨rfl, hk⟩, rfl, rfl⟩

/-! ## Forms -/

variable {operand : Position → Parser Expr} (hop : ∀ q, Reads n (operand q) (Derives q))
include hop

theorem reads_binary {α : Type} {ofKind? : TokenKind → Option α}
    (hnumber : ofKind? .number = none) (family : String) (kind : ValueKind)
    (build : α → Expr → Expr → Expr) :
    Reads (n + 1) (binary operand ofKind? family kind build) fun ts e =>
      ∃ o t c ls rs op l r, ts = o :: t :: (ls ++ (rs ++ [c])) ∧ o.kind = .opening ∧
        ofKind? t.kind = some op ∧ Derives (.only kind) ls l ∧ Derives (.only kind) rs r ∧
        c.kind = .closing ∧ e = build op l r := by
  simp only [binary, discard_bind]
  refine (Reads.afterToken (by decide) fun o => (reads_operator hnumber _).bind fun op =>
    (hop _).bind fun l => (hop _).bind fun r => (reads_expect (by decide) _).bind fun c =>
      reads_pure _).congr fun ts e => ?_
  constructor
  · rintro ⟨o, _, rfl, ho, op, _, _, rfl, ⟨t, rfl, ht⟩, l, ls, _, rfl, hl, r, rs, _, rfl, hr, c, _,
      _, rfl, ⟨rfl, hc⟩, rfl, rfl⟩
    exact ⟨o, t, c, ls, rs, op, l, r, rfl, ho, ht, hl, hr, hc, rfl⟩
  · rintro ⟨o, t, c, ls, rs, op, l, r, rfl, ho, ht, hl, hr, hc, rfl⟩
    exact ⟨o, _, rfl, ho, op, _, _, rfl, ⟨t, rfl, ht⟩, l, ls, _, rfl, hl, r, rs, _, rfl, hr, c, _,
      _, rfl, ⟨rfl, hc⟩, rfl, rfl⟩

theorem reads_arith (hp : p.Admits .number) :
    Reads (n + 1) (arith operand) fun ts e => Derives p ts e ∧ ∃ op l r, e = .arith op l r := by
  refine (reads_binary hop rfl _ _ _).congr fun ts e => ?_
  constructor
  · rintro ⟨o, t, c, ls, rs, op, l, r, rfl, ho, ht, hl, hr, hc, rfl⟩
    exact ⟨.arith hp ho ht hl hr hc, op, l, r, rfl⟩
  · rintro ⟨hd, op, l, r, rfl⟩
    cases hd with
    | arith _ ho ht hl hr hc => exact ⟨_, _, _, _, _, _, _, _, rfl, ho, ht, hl, hr, hc, rfl⟩

theorem reads_logic (hp : p.Admits .boolean) :
    Reads (n + 1) (logic operand) fun ts e => Derives p ts e ∧ ∃ op l r, e = .logic op l r := by
  refine (reads_binary hop rfl _ _ _).congr fun ts e => ?_
  constructor
  · rintro ⟨o, t, c, ls, rs, op, l, r, rfl, ho, ht, hl, hr, hc, rfl⟩
    exact ⟨.logic hp ho ht hl hr hc, op, l, r, rfl⟩
  · rintro ⟨hd, op, l, r, rfl⟩
    cases hd with
    | logic _ ho ht hl hr hc => exact ⟨_, _, _, _, _, _, _, _, rfl, ho, ht, hl, hr, hc, rfl⟩

theorem reads_compare (hp : p.Admits .boolean) :
    Reads (n + 1) (compare operand) fun ts e =>
      Derives p ts e ∧ ∃ op l r, e = .compare op l r := by
  refine (reads_binary hop rfl _ _ _).congr fun ts e => ?_
  constructor
  · rintro ⟨o, t, c, ls, rs, op, l, r, rfl, ho, ht, hl, hr, hc, rfl⟩
    exact ⟨.compare hp ho ht hl hr hc, op, l, r, rfl⟩
  · rintro ⟨hd, op, l, r, rfl⟩
    cases hd with
    | compare _ ho ht hl hr hc => exact ⟨_, _, _, _, _, _, _, _, rfl, ho, ht, hl, hr, hc, rfl⟩

theorem reads_unary (hp : p.Admits .boolean) :
    Reads (n + 1) (unary operand) fun ts e => Derives p ts e ∧ ∃ op a, e = .unary op a := by
  simp only [unary, discard_bind]
  refine (Reads.afterToken (by decide) fun o => (reads_operator rfl _).bind fun op =>
    (hop _).bind fun a => (reads_expect (by decide) _).bind fun c =>
      reads_pure _).congr fun ts e => ?_
  constructor
  · rintro ⟨o, _, rfl, ho, op, _, _, rfl, ⟨t, rfl, ht⟩, a, ls, _, rfl, ha, c, _, _, rfl, ⟨rfl, hc⟩,
      rfl, rfl⟩
    exact ⟨.unary hp ho ht ha hc, op, a, rfl⟩
  · rintro ⟨hd, op, a, rfl⟩
    cases hd with
    | @unary _ o t c ts op a _ ho ht ha hc =>
      exact ⟨o, _, rfl, ho, op, _, _, rfl, ⟨t, rfl, ht⟩, a, ts, _, rfl, ha, c, _, _, rfl, ⟨rfl, hc⟩,
        rfl, rfl⟩

theorem reads_caseOf : Reads n (caseOf operand) DerivesCase := by
  cases n with
  | zero => exact fun us hn => absurd hn (Nat.not_lt_zero _)
  | succ n =>
    have hop' : ∀ q, Reads n (operand q) (Derives q) := fun q us hn => hop q us (by omega)
    simp only [caseOf, discard_bind]
    refine (Reads.afterToken (by decide) fun o => (hop' _).bind fun a => (hop' _).bind fun b =>
      (reads_expect (by decide) _).bind fun c => reads_pure _).congr fun ts e => ?_
    constructor
    · rintro ⟨o, _, rfl, ho, a, ts, _, rfl, ha, b, us, _, rfl, hb, c, _, _, rfl, ⟨rfl, hc⟩, rfl,
        rfl⟩
      exact .mk ho ha hb hc
    · rintro ⟨ho, ha, hb, hc⟩
      exact ⟨_, _, rfl, ho, _, _, _, rfl, ha, _, _, _, rfl, hb, _, _, _, rfl, ⟨rfl, hc⟩, rfl, rfl⟩

theorem reads_conditional :
    Reads (n + 1) (conditional operand) fun ts e => Derives p ts e ∧ ∃ cases, e = .cond cases := by
  simp only [conditional, discard_bind]
  refine (Reads.afterToken (by decide) fun o => (reads_expect (by decide) _).bind fun keyword =>
    Reads.unlessClosing _ _ ((reads_untilClosing (reads_caseOf hop)
      fun _ _ => DerivesCase.startsOpen).bind fun cases => reads_pure _) ?_).congr fun ts e => ?_
  · rintro _ e ⟨cases, us, c, vs, rfl, -⟩
    simp
  constructor
  · rintro ⟨o, _, rfl, ho, t, _, _, rfl, ⟨rfl, ht⟩, ⟨cases, us, c, _, rfl, hcases, hc, rfl, rfl⟩,
      hopen⟩
    refine ⟨.cond ho ht ?_ hcases hc, cases, rfl⟩
    rwa [Ne, hcases.head?_append_closing (fun _ _ => DerivesCase.startsOpen) hc] at hopen
  · rintro ⟨hd, cases, rfl⟩
    cases hd with
    | @cond _ o t c us _ ho ht hne hcases hc =>
      refine ⟨o, _, rfl, ho, t, _, _, rfl, ⟨rfl, ht⟩, ⟨cases, us, c, _, rfl, hcases, hc, rfl, rfl⟩,
        ?_⟩
      rwa [Ne, hcases.head?_append_closing (fun _ _ => DerivesCase.startsOpen) hc]

theorem reads_call :
    Reads (n + 1) (call operand) fun ts e => Derives p ts e ∧ ∃ f args, e = .call f args := by
  simp only [call, discard_bind]
  refine (Reads.afterToken (by decide) fun o => (reads_expect (by decide) _).bind fun t =>
    (reads_untilClosing (hop .any) fun _ _ => Derives.startsOpen).bind fun args =>
      reads_pure _).congr fun ts e => ?_
  constructor
  · rintro ⟨o, _, rfl, ho, t, _, _, rfl, ⟨rfl, ht⟩, args, us, c, _, rfl, hargs, hc, rfl, rfl⟩
    exact ⟨.call ho ht hargs hc, t.text, args, rfl⟩
  · rintro ⟨hd, f, args, rfl⟩
    cases hd with
    | @call _ o t c ts _ ho ht hargs hc =>
      exact ⟨o, _, rfl, ho, t, _, _, rfl, ⟨rfl, ht⟩, args, ts, c, _, rfl, hargs, hc, rfl, rfl⟩

theorem reads_definition :
    Reads (n + 1) (definition operand) fun ts e =>
      Derives .any ts e ∧ ∃ f params body, e = .define f params body := by
  simp only [definition, discard_bind]
  refine (Reads.afterToken (by decide) fun o => (reads_expect (by decide) _).bind fun t =>
    (reads_expect (by decide) _).bind fun o' => (reads_expect (by decide) _).bind fun f =>
      (reads_parameters _).bind fun params => (hop .any).bind fun body =>
        (reads_expect (by decide) _).bind fun c => reads_pure _).congr fun ts e => ?_
  constructor
  · rintro ⟨o, _, rfl, ho, t, _, _, rfl, ⟨rfl, ht⟩, o', _, _, rfl, ⟨rfl, ho'⟩, f, _, _, rfl,
      ⟨rfl, hf⟩, _, us, c', _, rfl, ⟨hparams, rfl, hdistinct⟩, hc', body, vs, _, rfl, hbody, c, _,
      _, rfl, ⟨rfl, hc⟩, rfl, rfl⟩
    exact ⟨.define ho ht ho' hf hparams hdistinct hc' hbody hc, _, _, body, rfl⟩
  · rintro ⟨hd, f, params, body, rfl⟩
    cases hd with
    | define ho ht ho' hf hparams hdistinct hc' hbody hc =>
      exact ⟨_, _, rfl, ho, _, _, _, rfl, ⟨rfl, ht⟩, _, _, _, rfl, ⟨rfl, ho'⟩, _, _, _, rfl,
        ⟨rfl, hf⟩, _, _, _, _, rfl, ⟨hparams, rfl, hdistinct⟩, hc', _, _, _, rfl, hbody, _, _, _,
        rfl, ⟨rfl, hc⟩, rfl, rfl⟩

end Parser

end DynLisp
