import DynLisp.Proofs.Parser.Choice
import DynLisp.Proofs.Parser.Expectation

/-!
# Readers follow the expectations

A reader takes exactly the tokens that meet what is expected of it, and where it stops with a fault
the expectation on top is not met by the next token, and the fault is blamed where `Expected.place`
says.  Or it stops at a number of too many digits, where a number is expected.  `FollowsAt` says
this of a reader on some tokens: it starts where a stack is expected, and where it ends the rest of
that stack is.

It composes along a bind.  The two delimiters, or the delimiter and the keyword, that a form starts
with are known from the choice of the reader; after them the rest of the form is followed part by
part, provided that `operand` follows the expectation of an expression on fewer tokens.
-/

namespace DynLisp
namespace Parser

open Expected

variable {α β : Type} {stack later rest : List Expected} {us : List Token}

/-! ## Following a stack -/

/-- The reader ended where `after` is expected, or with a fault that is blamed on the expectation
that is not met, or at a number of too many digits. -/
inductive Result.Follows (stack : List Expected) (after : α → List Expected) (us : List Token) :
    Result α → Prop
  | ok (ts : List Token) {a : α} {left : List Token} :
      us = ts ++ left → Meets stack ts (after a) → Follows stack after us (.ok a left)
  | error {e : GrammarError} {left : List Token} :
      BlamesAt stack us e.place → Follows stack after us (.error (.grammar e) left)
  | oversized {n : Nat} {left : List Token} :
      OverflowsAt stack us n → Follows stack after us (.error (.oversized n) left)

/-- What is met before what a reader follows. -/
theorem Result.Follows.append_left {after : α → List Expected} {ts : List Token} {r : Result α}
    (hts : Meets stack ts later) (h : Result.Follows later after us r) :
    Result.Follows stack after (ts ++ us) r := by
  cases h with
  | error hblame => exact .error (hblame.append_left hts)
  | oversized hover => exact .oversized (hover.append_left hts)
  | ok vs hus hvs =>
    rw [hus, ← List.append_assoc]
    exact .ok _ rfl (hts.append hvs)

/-- From `stack` on, a reader follows the expectations, and ends where `after` is expected. -/
def FollowsAt (stack : List Expected) (after : α → List Expected) (p : Parser α)
    (us : List Token) : Prop :=
  Result.Follows stack after us (p us)

theorem followsAt_pure (a : α) : FollowsAt stack (fun _ => stack) (pure a : Parser α) us :=
  .ok [] rfl .nil

theorem FollowsAt.bind {p : Parser α} {f : α → Parser β} {after : α → List Expected}
    {after' : β → List Expected} (hp : FollowsAt stack after p us)
    (hf : ∀ a left, p us = .ok a left → left.length ≤ us.length →
      FollowsAt (after a) after' (f a) left) :
    FollowsAt stack after' (p >>= f) us := by
  show Result.Follows stack after' us (EStateM.bind p f us)
  rw [EStateM.bind]
  rw [FollowsAt] at hp
  cases hresult : p us with
  | error e left =>
    rw [hresult] at hp
    cases hp with
    | error hblame => exact .error hblame
    | oversized hover => exact .oversized hover
  | ok a left =>
    rw [hresult] at hp
    cases hp with
    | @ok ts _ _ hus hts =>
      have hnext := hf a left hresult (by rw [hus, List.length_append]; omega)
      rw [hus]
      exact Result.Follows.append_left hts hnext

/-- A token that is known to be taken. -/
theorem FollowsAt.cons {p p' : Parser α} {after : α → List Expected} {t : Token}
    (hp : p (t :: us) = p' us) (ht : take stack t = some later) (hconv : t.Convertible)
    (h : FollowsAt later after p' us) : FollowsAt stack after p (t :: us) := by
  rw [FollowsAt] at h ⊢
  rw [hp]
  exact h.append_left (.singleton ht hconv)

/-- Where another stack is met alike by every token of the next kind, and blamed alike, a reader
that takes a token may start from it as well. -/
theorem FollowsAt.of_take_eq {p : Parser α} {after : α → List Expected} {s s' : Expected}
    {rest' : List Expected} (h : FollowsAt (s :: rest) after p us)
    (htake : ∀ t, us.head?.map Token.kind = some t.kind →
      take (s' :: rest') t = take (s :: rest) t)
    (hplace : s'.place us = s.place us) (hne : ∀ a, after a ≠ s :: rest) :
    FollowsAt (s' :: rest') after p us := by
  have hmeets : ∀ {t ts left later}, us = t :: ts ++ left → Meets (s :: rest) (t :: ts) later →
      Meets (s' :: rest') (t :: ts) later := by
    rintro t ts left later rfl ⟨hrun, hconv⟩
    rw [run_cons, ← htake t rfl, ← run_cons] at hrun
    exact ⟨hrun, hconv⟩
  have hnone : ∀ t, us.head?.map Token.kind = some t.kind →
      (s'.advance t = none ↔ s.advance t = none) := by
    intro t ht
    have hleft : take (s' :: rest') t = none ↔ s'.advance t = none := take_eq_none_iff
    have hright : take (s :: rest) t = none ↔ s.advance t = none := take_eq_none_iff
    rw [← hleft, ← hright, htake t ht]
  rw [FollowsAt] at h ⊢
  generalize p us = result at h
  cases h with
  | @ok ts a left hus hts =>
    cases ts with
    | nil => exact absurd (Option.some.inj hts.run).symm (hne a)
    | cons t ts => exact .ok _ hus (hmeets hus hts)
  | error hblame =>
    obtain ⟨pre, post, top, below, hus, hpre, hstuck, hblamed⟩ := hblame
    refine .error ?_
    rw [hblamed]
    cases pre with
    | nil =>
      rw [List.nil_append] at hus
      obtain rfl := hus
      obtain ⟨rfl, rfl⟩ := List.cons.inj (Option.some.inj hpre.run)
      rw [← hplace]
      refine .top s' fun t ht => ?_
      obtain ⟨hadvance, hnumber⟩ := hstuck t ht
      have hkind : us.head?.map Token.kind = some t.kind := by rw [ht, Option.map_some]
      refine ⟨(hnone t hkind).2 hadvance, ?_⟩
      by_cases hk : t.kind = .number
      · exact hnumber.imp_right (hnone _ (by rw [hkind, hk]; rfl)).2
      · exact .inl (.of_kind_ne hk)
    | cons t pre => exact ⟨t :: pre, post, top, below, hus, hmeets hus hpre, hstuck, rfl⟩
  | oversized hover =>
    obtain ⟨pre, t, post, top, below, hus, hpre, hk, hconv, hlength, hnumber⟩ := hover
    refine .oversized ?_
    cases pre with
    | nil =>
      obtain ⟨rfl, rfl⟩ := List.cons.inj (Option.some.inj hpre.run)
      have hkind : us.head?.map Token.kind = some (sample .number).kind := by
        rw [hus, ← hk]
        rfl
      exact ⟨[], t, post, s', rest', hus, .nil, hk, hconv, hlength,
        fun h => hnumber ((hnone _ hkind).1 h)⟩
    | cons u pre =>
      exact ⟨u :: pre, t, post, top, below, hus, hmeets hus hpre, hk, hconv, hlength, hnumber⟩

/-! ## Single tokens -/

theorem exists_cons_of_head?_kind {kind : TokenKind}
    (h : us.head?.map Token.kind = some kind) : ∃ u us', us = u :: us' ∧ u.kind = kind := by
  cases us with
  | nil => cases h
  | cons u us => exact ⟨u, us, rfl, Option.some.inj h⟩

theorem expect_bind_cons {kind : TokenKind} {wanted : String} {f : Token → Parser α} {t : Token}
    (ht : t.kind = kind) : (expect kind wanted >>= f) (t :: us) = f t us :=
  bind_of_eq_ok (expect_eq_ok_iff.2 ⟨rfl, ht⟩)

theorem operator_bind_cons {ofKind? : TokenKind → Option α} {family : String} {f : α → Parser β}
    {t : Token} {op : α} (ht : ofKind? t.kind = some op) :
    (operator ofKind? family >>= f) (t :: us) = f op us :=
  bind_of_eq_ok (operator_eq_ok_iff.2 ⟨t, rfl, ht⟩)

/-- An expectation that a token of one kind meets, and no other. -/
theorem followsAt_expect {kind : TokenKind} {wanted : String} (s : Expected)
    (above : List Expected)
    (hkind : kind ≠ .number)
    (hs : ∀ t, s.advance t = if t.kind = kind then some above else none)
    (hplace : ∀ us, s.place us = nextPlace us) :
    FollowsAt (s :: rest) (fun _ => above ++ rest) (expect kind wanted) us := by
  rw [FollowsAt, expect]
  cases us with
  | nil =>
    have hblame : BlamesAt (s :: rest) [] (s.place []) := .top_nil s
    rw [hplace] at hblame
    exact .error hblame
  | cons t us =>
    simp only [expectOneOf, List.mem_singleton]
    by_cases hk : t.kind = kind
    · rw [if_pos hk]
      refine .ok [t] rfl (.singleton ?_ (.of_kind_ne (by rwa [hk])))
      rw [take, hs, if_pos hk, Option.map_some]
    · rw [if_neg hk]
      have hblame : BlamesAt (s :: rest) (t :: us) (s.place (t :: us)) := .top s fun u hu =>
        Option.some.inj hu ▸ .of_kind fun v hv => by rw [hs, hv, if_neg hk]
      rw [hplace] at hblame
      exact .error hblame

theorem followsAt_expect_closing {wanted : String} :
    FollowsAt (.closing :: rest) (fun _ => rest) (expect .closing wanted) us :=
  followsAt_expect .closing [] (by decide) (fun _ => rfl) fun us => by cases us <;> rfl

/-! ## Repetitions -/

/-- What a reader leaves starts with a closing delimiter. -/
def EndsAtClosing (p : Parser α) (us : List Token) : Prop :=
  ∀ a left, p us = .ok a left → left.head?.map Token.kind = some .closing

/-- After a reader that stops before a closing delimiter, that delimiter is taken. -/
theorem FollowsAt.closing_bind {p : Parser α} {f : α → Parser β} {after : β → List Expected}
    (top : α → Expected) (hp : FollowsAt stack (fun a => top a :: rest) p us)
    (hclosing : EndsAtClosing p us)
    (htop : ∀ a c, c.kind = .closing → (top a).advance c = some [])
    (hf : ∀ a left, left.length ≤ us.length → FollowsAt rest after (f a) left) :
    FollowsAt stack after (p >>= fun a => expectClosing >>= fun _ => f a) us := by
  refine hp.bind fun a left hresult hlength => ?_
  obtain ⟨c, left, rfl, hc⟩ := exists_cons_of_head?_kind (hclosing a left hresult)
  rw [List.length_cons] at hlength
  refine .cons (expect_bind_cons hc) ?_ (.of_kind_ne (by simp [hc])) (hf a left (by omega))
  rw [take, htop a c hc, Option.map_some, List.nil_append]

/-- Items are followed up to a closing delimiter, where the expectation of further items is met by
the first token of an item as that item is. -/
theorem followsAt_untilClosing {item : Parser α} {s l : Expected} {n : Nat}
    (htake : ∀ t, t.kind ≠ .closing → take (l :: rest) t = take (s :: l :: rest) t)
    (hplace : ∀ us, l.place us = s.place us)
    (hitem : ∀ us, us.length < n → FollowsAt (s :: l :: rest) (fun _ => l :: rest) item us)
    (us : List Token) (hn : us.length < n) :
    FollowsAt (l :: rest) (fun _ => l :: rest) (untilClosing item) us ∧
      EndsAtClosing (untilClosing item) us := by
  induction hlength : us.length using Nat.strongRecOn generalizing us with
  | ind k ih =>
    by_cases hclosing : us.head?.map Token.kind = some .closing
    · have hnil : untilClosing item us = .ok [] us := untilClosing_of_closing hclosing
      unfold FollowsAt EndsAtClosing
      rw [hnil]
      refine ⟨.ok [] rfl .nil, ?_⟩
      rintro _ _ ⟨⟩
      exact hclosing
    · have hne : l :: rest ≠ s :: l :: rest := (List.cons_ne_self s (l :: rest)).symm
      have hfirst := hitem us hn
      have hprogress : ∀ x left, item us = .ok x left → left.length < us.length := by
        intro x left heq
        rw [FollowsAt, heq] at hfirst
        cases hfirst with
        | @ok ts _ _ hus hts =>
          cases ts with
          | nil => exact absurd (Option.some.inj hts.run).symm hne
          | cons t ts =>
            rw [hus, List.length_append, List.length_cons]
            omega
      have hrest := fun x left heq =>
        ih left.length (hlength ▸ hprogress x left heq) left
          ((hprogress x left heq).trans hn) rfl
      unfold FollowsAt EndsAtClosing
      rw [untilClosing_of_not_closing hclosing hprogress]
      constructor
      · refine FollowsAt.bind (hfirst.of_take_eq ?_ (hplace us) fun _ => hne) fun x left heq _ =>
          (hrest x left heq).1.bind fun xs _ _ _ => followsAt_pure _
        intro t ht
        exact htake t fun hk => hclosing (ht.trans (congrArg some hk))
      · intro xs left h
        obtain ⟨x, mid, hx, h⟩ := bind_eq_ok_iff.1 h
        obtain ⟨xs, _, hxs, h⟩ := bind_eq_ok_iff.1 h
        obtain ⟨rfl, -⟩ := pure_eq_ok_iff.1 h
        exact (hrest x mid hx).2 xs _ hxs

theorem followsAt_parameters (function : String) (seen : List String) (us : List Token) :
    FollowsAt (.params seen :: rest) (fun params => .params params :: rest)
        (parameters function seen) us ∧
      EndsAtClosing (parameters function seen) us := by
  unfold FollowsAt EndsAtClosing
  fun_induction parameters function seen us with
  | case1 seen =>
    refine ⟨.error (.top_nil (.params seen)), ?_⟩
    rintro _ _ ⟨⟩
  | case2 seen t ts hclosing =>
    refine ⟨.ok [] rfl .nil, ?_⟩
    rintro _ _ ⟨⟩
    exact congrArg some hclosing
  | case3 seen t ts hclosing hname hmem =>
    refine ⟨.error (.top (.params seen) ?_), ?_⟩
    · rintro _ ⟨⟩
      exact ⟨by simp [advance, hclosing, hmem], .inl (.of_kind_ne (by simp [hname]))⟩
    · rintro _ _ ⟨⟩
  | case4 seen t ts hclosing hname hmem ih =>
    have htake : take (.params seen :: rest) t = some (.params (seen ++ [t.text]) :: rest) := by
      simp [take, advance, hname, hmem]
    exact ⟨FollowsAt.cons (p := fun us => parameters function (seen ++ [t.text]) us.tail) rfl htake
      (.of_kind_ne (by simp [hname])) ih.1, ih.2⟩
  | case5 seen t ts hclosing hname =>
    refine ⟨.error (.top (.params seen) ?_), ?_⟩
    · rintro _ ⟨⟩
      exact .of_kind fun u hu => by simp [advance, hu, hclosing, hname]
    · rintro _ _ ⟨⟩

/-! ## Literals and names -/

theorem followsAt_numberLiteral {negative : Bool} {start : Option Nat} {s : Expected} {t : Token}
    (ht : t.kind = .number)
    (hs : ∀ u : Token, u.kind = .number → s.advance u =
      if inRange (if negative then -u.value else u.value) = true then some [] else none)
    (hplace : s.place (t :: us) = literalPlace start t) :
    FollowsAt (s :: rest) (fun _ => rest) (numberLiteral negative start) (t :: us) := by
  rw [FollowsAt, numberLiteral_eq, expect_bind_cons ht]
  by_cases hconv : t.Convertible
  · rw [convert_of_convertible ht hconv]
    have hadvance := hs t ht
    show Result.Follows _ _ _ ((if inRange (if negative then -t.value else t.value) = true then
      pure _ else throw _ : Parser Expr) us)
    by_cases hrange : inRange (if negative then -t.value else t.value) = true
    · rw [if_pos hrange] at hadvance ⊢
      exact .ok [t] rfl (.singleton (by rw [take, hadvance]; rfl) hconv)
    · rw [if_neg hrange] at hadvance ⊢
      refine .error ?_
      show BlamesAt _ _ (literalPlace start t)
      rw [← hplace]
      exact .top s fun u hu => Option.some.inj hu ▸ ⟨hadvance, .inl hconv⟩
  · rw [convert_of_not_convertible hconv]
    refine .oversized ⟨[], t, us, s, rest, rfl, .nil, ht, hconv, rfl, ?_⟩
    rw [hs (sample .number) rfl]
    cases negative <;> decide

theorem negativeLiteral_cons (sign : Token) (us : List Token) :
    negativeLiteral (sign :: us) = (peek 0 >>= fun next =>
      match next with
      | none => blame (.signWithoutNumber sign.text) sign
      | some t =>
        if t.kind = .number then numberLiteral true (some sign.offset)
        else blame (.signWithoutNumber sign.text) t) us := rfl

theorem followsAt_negativeLiteral {p : Position} {sign : Token} (hp : p.Admits .number)
    (hsign : sign.kind = .minus) :
    FollowsAt (.expr p :: rest) (fun _ => rest) negativeLiteral (sign :: us) := by
  have htake : take (.expr p :: rest) sign = some (.digits sign :: rest) := by
    simp [take, advance, advanceExpr, hsign, hp]
  refine .cons (negativeLiteral_cons sign us) htake (.of_kind_ne (by simp [hsign])) ?_
  rw [FollowsAt, peek_bind]
  cases us with
  | nil => exact .error (.top_nil (.digits sign))
  | cons t us =>
    show Result.Follows _ _ _ ((if t.kind = .number then numberLiteral true (some sign.offset)
      else blame (.signWithoutNumber sign.text) t) (t :: us))
    by_cases ht : t.kind = .number
    · rw [if_pos ht]
      refine followsAt_numberLiteral ht (fun u hu => ?_) ?_
      · simp [advance, hu]
      · rw [place, if_pos ht, literalPlace]
    · rw [if_neg ht]
      have hblame : BlamesAt (.digits sign :: rest) (t :: us) _ := .top _ fun u hu =>
        Option.some.inj hu ▸ .of_kind fun v hv => by simp [advance, hv, ht]
      rw [place, if_neg ht] at hblame
      exact .error hblame

theorem followsAt_booleanLiteral {p : Position} {t : Token} (hp : p.Admits .boolean)
    (ht : t.kind = .boolean) :
    FollowsAt (.expr p :: rest) (fun _ => rest) booleanLiteral (t :: us) :=
  .cons (expect_bind_cons ht) (by simp [take, advance, advanceExpr, ht, hp])
    (.of_kind_ne (by simp [ht])) (followsAt_pure _)

theorem followsAt_variableName {p : Position} {t : Token} (ht : t.kind = .identifier) :
    FollowsAt (.expr p :: rest) (fun _ => rest) variableName (t :: us) :=
  .cons (expect_bind_cons ht) (by simp [take, advance, advanceExpr, ht])
    (.of_kind_ne (by simp [ht])) (followsAt_pure _)

/-! ## Forms -/

section Forms

variable {n : Nat} {p : Position} {o t : Token} {operand : Position → Parser Expr}
  (hop : ∀ q rest us, us.length < n →
    FollowsAt (.expr q :: rest) (fun _ => rest) (operand q) us)

theorem take_opening (ho : o.kind = .opening) :
    take (.expr p :: rest) o = some (.head p o :: rest) := by
  simp [take, advance, advanceExpr, ho]

include hop

theorem followsAt_binary {ofKind? : TokenKind → Option α} {family : String} {kind : ValueKind}
    {build : α → Expr → Expr → Expr} {op : α} (ho : o.kind = .opening)
    (hnumber : ofKind? .number = none) (hk : ofKind? t.kind = some op)
    (hhead : (Expected.head p o).advance t =
      some [.expr (.only kind), .expr (.only kind), .closing])
    (hn : us.length < n) :
    FollowsAt (.expr p :: rest) (fun _ => rest) (binary operand ofKind? family kind build)
      (o :: t :: us) := by
  simp only [binary, discard_bind]
  refine .cons (expect_bind_cons ho) (take_opening ho) (.of_kind_ne (by simp [ho])) ?_
  refine .cons (operator_bind_cons hk) (by rw [take, hhead]; rfl)
    (.of_kind_ne (Token.kind_ne_number_of_operator hnumber hk)) ?_
  exact (hop _ _ _ hn).bind fun l left _ hl => (hop _ _ _ (by omega)).bind fun r left' _ hr =>
    followsAt_expect_closing.bind fun _ _ _ _ => followsAt_pure _

theorem followsAt_unary {op : UnaryOp} (hp : p.Admits .boolean) (ho : o.kind = .opening)
    (hk : UnaryOp.ofKind? t.kind = some op) (hn : us.length < n) :
    FollowsAt (.expr p :: rest) (fun _ => rest) (unary operand) (o :: t :: us) := by
  simp only [unary, discard_bind]
  refine .cons (expect_bind_cons ho) (take_opening ho) (.of_kind_ne (by simp [ho])) ?_
  refine .cons (operator_bind_cons hk) (by rw [take, advance_head_unary hp hk]; rfl)
    (.of_kind_ne (Token.kind_ne_number_of_operator rfl hk)) ?_
  exact (hop _ _ _ hn).bind fun e left _ hl =>
    followsAt_expect_closing.bind fun _ _ _ _ => followsAt_pure _

theorem followsAt_caseOf (hn : us.length < n) :
    FollowsAt (.caseOf none :: rest) (fun _ => rest) (caseOf operand) us := by
  simp only [caseOf, discard_bind]
  refine (followsAt_expect _ [.expr (.only .boolean), .expr .any, .closing]
    (by decide) (fun _ => rfl) fun us => ?_).bind fun _ left _ hl => ?_
  · cases us <;> rfl
  · exact (hop _ _ _ (by omega)).bind fun _ left _ hl => (hop _ _ _ (by omega)).bind fun _ _ _ _ =>
      followsAt_expect_closing.bind fun _ _ _ _ => followsAt_pure _

theorem followsAt_conditional (ho : o.kind = .opening) (ht : t.kind = .cond)
    (hn : us.length < n) :
    FollowsAt (.expr p :: rest) (fun _ => rest) (conditional operand) (o :: t :: us) := by
  simp only [conditional, discard_bind]
  refine .cons (expect_bind_cons ho) (take_opening ho) (.of_kind_ne (by simp [ho])) ?_
  have hhead : take (.head p o :: rest) t = some (.caseOf (some t) :: .cases :: rest) := by
    simp [take, advance, advanceHead, ht]
  refine .cons (expect_bind_cons ht) hhead (.of_kind_ne (by simp [ht])) ?_
  rw [FollowsAt, peekKind_bind, ← List.head?_eq_getElem?]
  by_cases hclosing : us.head?.map Token.kind = some .closing
  · rw [if_pos hclosing]
    obtain ⟨c, us, rfl, hc⟩ := exists_cons_of_head?_kind hclosing
    have hblame : BlamesAt (.caseOf (some t) :: .cases :: rest) (c :: us) _ :=
      .top _ fun u hu =>
        Option.some.inj hu ▸ .of_kind fun v hv => by simp [advance, advanceCase, hv, hc]
    rw [place, if_pos hc] at hblame
    exact .error hblame
  · rw [if_neg hclosing]
    have htake : ∀ keyword u, u.kind ≠ .closing →
        take (.cases :: rest) u = take (.caseOf keyword :: .cases :: rest) u := by
      intro keyword u hu
      simp only [take, advance, if_neg hu]
      cases advanceCase u <;> simp
    obtain ⟨hcases, hends⟩ := followsAt_untilClosing (htake none) (fun us => by cases us <;> rfl)
      (fun us hn => followsAt_caseOf hop hn) us hn
    refine FollowsAt.of_take_eq (hcases.closing_bind (fun _ => .cases) hends
      (fun _ c hc => if_pos hc) fun _ _ _ => followsAt_pure _) ?_ ?_
      (fun _ => (List.cons_ne_self _ _).symm)
    · intro u hu
      exact (htake _ u fun hk => hclosing (hu.trans (congrArg some hk))).symm
    · cases us with
      | nil => rfl
      | cons u us => exact if_neg fun hk => hclosing (congrArg some hk)

theorem followsAt_call (ho : o.kind = .opening) (ht : t.kind = .identifier) (hn : us.length < n) :
    FollowsAt (.expr p :: rest) (fun _ => rest) (call operand) (o :: t :: us) := by
  simp only [call, discard_bind]
  refine .cons (expect_bind_cons ho) (take_opening ho) (.of_kind_ne (by simp [ho])) ?_
  have hhead : take (.head p o :: rest) t = some (.args :: rest) := by
    simp [take, advance, advanceHead, ht]
  refine .cons (expect_bind_cons ht) hhead (.of_kind_ne (by simp [ht])) ?_
  have htake : ∀ u, u.kind ≠ .closing →
      take (.args :: rest) u = take (.expr .any :: .args :: rest) u := by
    intro u hu
    simp only [take, advance, if_neg hu]
    cases advanceExpr .any u <;> simp
  obtain ⟨hargs, hends⟩ := followsAt_untilClosing htake (fun us => by cases us <;> rfl)
    (fun us hn => hop .any _ us hn) us hn
  exact hargs.closing_bind (fun _ => .args) hends (fun _ c hc => if_pos hc)
    fun _ _ _ => followsAt_pure _

theorem followsAt_definition (ho : o.kind = .opening) (ht : t.kind = .define)
    (hn : us.length < n) :
    FollowsAt (.expr .any :: rest) (fun _ => rest) (definition operand) (o :: t :: us) := by
  simp only [definition, discard_bind]
  refine .cons (expect_bind_cons ho) (take_opening ho) (.of_kind_ne (by simp [ho])) ?_
  have hhead : take (.head .any o :: rest) t =
      some (.signature :: .expr .any :: .closing :: rest) := by
    simp [take, advance, advanceHead, ht]
  refine .cons (expect_bind_cons ht) hhead (.of_kind_ne (by simp [ht])) ?_
  refine (followsAt_expect _ [.name, .params []] (by decide) (fun _ => rfl) fun us => ?_).bind
    fun _ left _ hl => ?_
  · cases us <;> rfl
  refine (followsAt_expect _ [] (by decide) (fun _ => rfl) fun us => ?_).bind
    fun f left' _ hl' => ?_
  · cases us <;> rfl
  obtain ⟨hparams, hends⟩ := followsAt_parameters f.text [] left'
  exact hparams.closing_bind .params hends (fun _ c hc => if_pos hc) fun _ left'' hl'' =>
    (hop _ _ _ (by omega)).bind fun _ _ _ _ =>
      followsAt_expect_closing.bind fun _ _ _ _ => followsAt_pure _

/-- Every reader of the table follows the expectation of an expression. -/
theorem followsAt_reader? {r : Parser Expr}
    (hr : reader? operand p t.kind (us.head?.map Token.kind) = some r) (hn : us.length < n) :
    FollowsAt (.expr p :: rest) (fun _ => rest) r (t :: us) := by
  have hentry := entry_of_reader? hr
  -- a form takes the token that told it after the delimiter
  have hform : ∀ {kind}, us.head?.map Token.kind = some kind →
      ∃ u us', us = u :: us' ∧ u.kind = kind ∧ us'.length < n := by
    intro kind hkind
    obtain ⟨u, us', rfl, hu⟩ := exists_cons_of_head?_kind hkind
    exact ⟨u, us', rfl, hu, by rw [List.length_cons] at hn; omega⟩
  generalize hk : t.kind = kind, hk' : us.head?.map Token.kind = kind? at hentry
  cases hentry with
  | number hp =>
    refine followsAt_numberLiteral hk (fun u hu => ?_) rfl
    simp [advance, advanceExpr, hu, hp]
  | negative hp => exact followsAt_negativeLiteral hp hk
  | boolean hp => exact followsAt_booleanLiteral hp hk
  | var => exact followsAt_variableName hk
  | cond =>
    obtain ⟨u, us, rfl, hu, hn⟩ := hform hk'
    exact followsAt_conditional hop hk hu hn
  | call =>
    obtain ⟨u, us, rfl, hu, hn⟩ := hform hk'
    exact followsAt_call hop hk hu hn
  | define hp =>
    obtain rfl := hp
    obtain ⟨u, us, rfl, hu, hn⟩ := hform hk'
    exact followsAt_definition hop hk hu hn
  | arith hp hkind =>
    obtain ⟨u, us, rfl, rfl, hn⟩ := hform hk'
    exact followsAt_binary hop hk rfl hkind (advance_head_arith hp hkind) hn
  | logic hp hkind =>
    obtain ⟨u, us, rfl, rfl, hn⟩ := hform hk'
    exact followsAt_binary hop hk rfl hkind (advance_head_logic hp hkind) hn
  | unary hp hkind =>
    obtain ⟨u, us, rfl, rfl, hn⟩ := hform hk'
    exact followsAt_unary hop hp hk hkind hn
  | compare hp hkind =>
    obtain ⟨u, us, rfl, rfl, hn⟩ := hform hk'
    exact followsAt_binary hop hk rfl hkind (advance_head_compare hp hkind) hn

end Forms

/-! ## Refusing -/

section Refuse

variable {p : Position} {t : Token} {operand : Position → Parser Expr}

theorem advanceExpr_eq_none_of_reader? {kind : Option TokenKind}
    (hr : reader? operand p t.kind kind = none) (ht : t.kind ≠ .opening) :
    advanceExpr p t = none := by
  obtain ⟨k, text, offset⟩ := t
  cases k <;> simp_all [reader?, advanceExpr]

theorem advanceHead_eq_none_of_reader? (hr : reader? operand p .opening (some t.kind) = none) :
    advanceHead p t = none := by
  obtain ⟨k, text, offset⟩ := t
  cases k <;> simp_all [reader?, advanceHead, ArithOp.ofKind?, LogicOp.ofKind?, UnaryOp.ofKind?,
    CompareOp.ofKind?]

/-- A position blames an opening delimiter for what stands after it. -/
theorem exists_refuse_eq_error (p : Position) (t : Token) (us : List Token) :
    ∃ fault, refuse p (t :: us) = .error (.grammar ⟨fault, if t.kind = .opening then
      (Expected.head p t).place us else .token t⟩) (t :: us) := by
  obtain ⟨k, text, offset⟩ := t
  rcases p with _ | kind
  · rcases us with _ | ⟨⟨k', text', offset'⟩, us⟩
    · cases k <;> exact ⟨_, rfl⟩
    · cases k
      case opening => cases k' <;> exact ⟨_, rfl⟩
      all_goals exact ⟨_, rfl⟩
  · rcases us with _ | ⟨u, us⟩ <;> cases k <;> exact ⟨_, rfl⟩

theorem followsAt_refuse (hr : reader? operand p t.kind (us.head?.map Token.kind) = none) :
    FollowsAt (.expr p :: rest) (fun _ => rest) (refuse p) (t :: us) := by
  obtain ⟨fault, hrefuse⟩ := exists_refuse_eq_error p t us
  rw [FollowsAt, hrefuse]
  refine .error ?_
  by_cases ht : t.kind = .opening
  · simp only [if_pos ht]
    rw [ht] at hr
    refine .append_left (.singleton (take_opening ht) (.of_kind_ne (by simp [ht])))
      (.top _ fun u hu => .of_kind fun v hv => ?_)
    rw [hu, Option.map_some, ← hv] at hr
    exact advanceHead_eq_none_of_reader? hr
  · simp only [if_neg ht]
    refine .top (.expr p) fun u hu => Option.some.inj hu ▸ .of_kind fun v hv => ?_
    rw [← hv] at hr ht
    exact advanceExpr_eq_none_of_reader? hr ht

theorem followsAt_refuse_nil :
    FollowsAt (.expr p :: rest) (fun _ => rest) (refuse p) [] := by
  have hblame : BlamesAt (.expr p :: rest) [] _ := .top_nil (.expr p)
  rcases p with _ | kind <;> exact .error hblame

end Refuse

/-! ## Expressions -/

theorem followsAt_step {p : Position} {operand : Position → Parser Expr}
    (hop : ∀ q rest vs, vs.length < us.length →
      FollowsAt (.expr q :: rest) (fun _ => rest) (operand q) vs) :
    FollowsAt (.expr p :: rest) (fun _ => rest) (step operand p) us := by
  cases us with
  | nil =>
    rw [FollowsAt, step_nil]
    exact followsAt_refuse_nil
  | cons t us =>
    rw [FollowsAt, step_cons]
    cases hr : reader? operand p t.kind (us.head?.map Token.kind) with
    | none => exact followsAt_refuse hr
    | some r => exact followsAt_reader? hop hr (Nat.lt_succ_self _)

theorem followsAt_expr (p : Position) :
    FollowsAt (.expr p :: rest) (fun _ => rest) (expr p) us := by
  induction hlength : us.length using Nat.strongRecOn generalizing p us rest with
  | ind n ih =>
    unfold FollowsAt
    rw [expr]
    refine followsAt_step fun q rest vs hlt => ?_
    unfold FollowsAt
    dsimp only
    rw [if_pos hlt]
    exact ih vs.length (hlength ▸ hlt) q rfl

/-- Where a list of tokens is refused, it is blamed on what is expected there, or on the token that
stands after an expression, or the reader stopped at a number of too many digits. -/
theorem blamesAt_of_program {left : List Token} {e : ReadError} (h : program us = .error e left) :
    (∃ n, e = .oversized n ∧ OverflowsAt [.expr .any] us n) ∨ ∃ fault place,
      e = .grammar ⟨fault, place⟩ ∧ (BlamesAt [.expr .any] us place ∨
        ∃ pre t post, us = pre ++ t :: post ∧ Meets [.expr .any] pre [] ∧ place = .token t) := by
  rcases us with _ | ⟨t, us⟩
  · obtain ⟨rfl, -⟩ := EStateM.Result.error.inj h
    exact .inr ⟨_, _, rfl, .inl (.top_nil (.expr .any))⟩
  · have hread : FollowsAt [.expr .any] (fun _ => []) (expr .any) (t :: us) := followsAt_expr .any
    unfold FollowsAt at hread
    rw [program_cons] at h
    replace h : EStateM.bind (expr .any) _ (t :: us) = .error e left := h
    unfold EStateM.bind at h
    generalize expr .any (t :: us) = result at h hread
    cases hread with
    | error hblame =>
      obtain ⟨rfl, -⟩ := EStateM.Result.error.inj h
      exact .inr ⟨_, _, rfl, .inl hblame⟩
    | oversized hover =>
      obtain ⟨rfl, -⟩ := EStateM.Result.error.inj h
      exact .inl ⟨_, rfl, hover⟩
    | @ok ts e' mid hus hts =>
      cases mid with
      | nil => cases h
      | cons u mid =>
        obtain ⟨rfl, -⟩ := EStateM.Result.error.inj h
        exact .inr ⟨_, _, rfl, .inr ⟨ts, u, mid, hus, hts, rfl⟩⟩

end Parser

end DynLisp
