import DynLisp.Cursor
import DynLisp.Proofs.Parser.Choice

/-!
# Readers make progress

A reader that returns has taken tokens from the front, and one that stops with a fault has put none
back.  Where it stops at a number of too many digits it has taken that number.  This is said by
`Result.Takes`, with a lower bound for the tokens that are taken by a reader that returns.

`Parser.expr` compares lengths before it lets a form read an operand, and a reader of items stops
when an item has taken nothing.  Neither test ever decides anything, and for the former this is
`step_eq_expr`: a form asks for its operands on fewer tokens only, so that the recursion ends
without being told to.  For that two readers of operands are compared, with which a form does the
same if they do the same on fewer tokens.  Since what the first operand leaves is what the second
one is read from, this needs the progress of operands, and so `AgreeBelow` speaks of both at once:
on fewer than `n` tokens two readers do the same, and take at least `k` tokens.

`Production` lists the readers of the grammar.  They all take a token (`Production.takes`), and so
they lead forward from any cursor inside its tokens, and never past them
(`Cursor.advances_of_takes`).
-/

namespace DynLisp
namespace Parser

variable {α β : Type} {n k : Nat}

/-! ## Taking tokens -/

/-- The tokens that a result leaves are the last ones of `us`.  At least `k` tokens stand before
them, if there is a result, and a number of too many digits, if that is what reading stopped at. -/
inductive Result.Takes (k : Nat) (us : List Token) : Result α → Prop
  | ok {a : α} {left : List Token} :
      left <:+ us → left.length + k ≤ us.length → Takes k us (.ok a left)
  | error {e : GrammarError} {left : List Token} :
      left <:+ us → Takes k us (.error (.grammar e) left)
  | oversized {t : Token} {left : List Token} :
      t.kind = .number → ¬t.Convertible → t :: left <:+ us →
      Takes k us (.error (.oversized t.text.length) left)

theorem Result.Takes.weaken {us : List Token} {r : Result α} (h : Takes k us r) :
    Takes 0 us r := by
  cases h with
  | ok hleft hlength => exact .ok hleft (Nat.le_of_add_right_le hlength)
  | error hleft => exact .error hleft
  | oversized hk hconv hleft => exact .oversized hk hconv hleft

/-- A reader that fails has no result to make a claim about. -/
theorem Result.Takes.of_error {us left : List Token} {e : ReadError}
    (h : Takes k us (.error e left : Result α)) : Takes k us (.error e left : Result β) := by
  cases h with
  | error hleft => exact .error hleft
  | oversized hk hconv hleft => exact .oversized hk hconv hleft

theorem Result.Takes.length_lt {us left : List Token} {r : Result α} {a : α} (h : Takes 1 us r)
    (hr : r = .ok a left) : left.length < us.length := by
  rw [hr] at h
  cases h with
  | ok _ hlength => exact hlength

/-- What is taken from the tokens that others have left is taken from behind these. -/
theorem Result.Takes.behind {us left : List Token} {r : Result α} (h : Takes 0 left r)
    (hleft : left <:+ us) (hlength : left.length + k ≤ us.length) : Takes k us r := by
  cases h with
  | ok hlater hle => exact .ok (hlater.trans hleft) (by omega)
  | error hlater => exact .error (hlater.trans hleft)
  | oversized hk hconv hlater => exact .oversized hk hconv (hlater.trans hleft)

/-- On fewer than `n` tokens two readers do the same, and they take at least `k` tokens if they do
not fail. -/
def AgreeBelow (n k : Nat) (p p' : Parser α) : Prop :=
  ∀ us, us.length < n → p us = p' us ∧ Result.Takes k us (p us)

theorem AgreeBelow.weaken {p p' : Parser α} (h : AgreeBelow n k p p') : AgreeBelow n 0 p p' :=
  fun us hn => ⟨(h us hn).1, (h us hn).2.weaken⟩

theorem AgreeBelow.below {n' : Nat} {p p' : Parser α} (h : AgreeBelow n k p p') (hle : n' ≤ n) :
    AgreeBelow n' k p p' :=
  fun us hn => h us (Nat.lt_of_lt_of_le hn hle)

theorem AgreeBelow.takes {p p' : Parser α} {us : List Token}
    (h : AgreeBelow (us.length + 1) k p p') : Result.Takes k us (p us) :=
  (h us (Nat.lt_succ_self _)).2

/-! ## Single steps -/

theorem agreeBelow_pure (a : α) : AgreeBelow n 0 (pure a : Parser α) (pure a) :=
  fun us _ => ⟨rfl, .ok List.suffix_rfl (Nat.le_refl us.length)⟩

theorem agreeBelow_throw (e : GrammarError) :
    AgreeBelow n k (throw (.grammar e) : Parser α) (throw (.grammar e)) :=
  fun _ _ => ⟨rfl, .error List.suffix_rfl⟩

theorem agreeBelow_ite {c : Prop} [Decidable c] {p p' q q' : Parser α} (hp : AgreeBelow n k p p')
    (hq : AgreeBelow n k q q') : AgreeBelow n k (if c then p else q) (if c then p' else q') := by
  split
  · exact hp
  · exact hq

/-- What comes after tokens were taken is done on fewer tokens. -/
theorem AgreeBelow.bind_of_le {m : Nat} {p p' : Parser α} {f f' : α → Parser β}
    (hp : AgreeBelow m k p p') (hf : ∀ a, AgreeBelow n 0 (f a) (f' a)) (hle : m ≤ n + k) :
    AgreeBelow m k (p >>= f) (p' >>= f') := by
  intro us hm
  obtain ⟨heq, htakes⟩ := hp us hm
  show EStateM.bind p f us = EStateM.bind p' f' us ∧ Result.Takes k us (EStateM.bind p f us)
  unfold EStateM.bind
  rw [← heq]
  generalize p us = result at htakes
  cases htakes with
  | error hleft => exact ⟨rfl, .error hleft⟩
  | oversized hk hconv hleft => exact ⟨rfl, .oversized hk hconv hleft⟩
  | @ok a left hleft hlength =>
    obtain ⟨heq', htakes'⟩ := hf a left (by omega)
    exact ⟨heq', htakes'.behind hleft hlength⟩

theorem AgreeBelow.bind {p p' : Parser α} {f f' : α → Parser β} (hp : AgreeBelow n k p p')
    (hf : ∀ a, AgreeBelow n 0 (f a) (f' a)) : AgreeBelow n k (p >>= f) (p' >>= f') :=
  hp.bind_of_le hf (Nat.le_add_right n k)

theorem agreeBelow_peek_bind (i : Nat) {f f' : Option Token → Parser β}
    (hf : ∀ t, AgreeBelow n k (f t) (f' t)) : AgreeBelow n k (peek i >>= f) (peek i >>= f') :=
  fun us hn => hf us[i]? us hn

theorem agreeBelow_peekKind_bind (i : Nat) {f f' : Option TokenKind → Parser β}
    (hf : ∀ kind, AgreeBelow n k (f kind) (f' kind)) :
    AgreeBelow n k (peekKind i >>= f) (peekKind i >>= f') :=
  fun us hn => hf (us[i]?.map Token.kind) us hn

theorem agreeBelow_next : AgreeBelow n 1 next next := by
  intro us _
  cases us with
  | nil => exact ⟨rfl, .error List.suffix_rfl⟩
  | cons t us => exact ⟨rfl, .ok (List.suffix_cons t us) (Nat.le_refl _)⟩

theorem agreeBelow_expect (kind : TokenKind) (wanted : String) :
    AgreeBelow n 1 (expect kind wanted) (expect kind wanted) := by
  intro us _
  refine ⟨rfl, ?_⟩
  rw [expect]
  cases us with
  | nil => exact .error List.suffix_rfl
  | cons t us =>
    rw [expectOneOf]
    split
    · exact .ok (List.suffix_cons t us) (Nat.le_refl _)
    · exact .error List.suffix_rfl

/-- A form that starts with a token does the rest on fewer tokens. -/
theorem AgreeBelow.afterToken {kind : TokenKind} {wanted : String} {f f' : Token → Parser β}
    (hf : ∀ t, AgreeBelow n 0 (f t) (f' t)) :
    AgreeBelow (n + 1) 1 (expect kind wanted >>= f) (expect kind wanted >>= f') :=
  (agreeBelow_expect kind wanted).bind_of_le hf (Nat.le_refl _)

theorem agreeBelow_operator (ofKind? : TokenKind → Option α) (family : String) :
    AgreeBelow n 1 (operator ofKind? family) (operator ofKind? family) := by
  refine agreeBelow_next.bind fun t => ?_
  split
  · exact agreeBelow_pure _
  · exact agreeBelow_throw _

/-! ## Repetitions -/

/-- Items that take a token are read as items that do the same, one after the other. -/
theorem agreeBelow_untilClosing {item item' : Parser α} (hitem : AgreeBelow n 1 item item') :
    AgreeBelow n 0 (untilClosing item) (untilClosing item') := by
  induction n with
  | zero => exact fun us hn => absurd hn (Nat.not_lt_zero _)
  | succ n ih =>
    intro us hn
    by_cases hclosing : us.head?.map Token.kind = some .closing
    · rw [untilClosing_of_closing hclosing, untilClosing_of_closing hclosing]
      exact ⟨rfl, .ok List.suffix_rfl (Nat.le_refl _)⟩
    · obtain ⟨heq, htakes⟩ := hitem us hn
      have hprogress : ∀ x left, item us = .ok x left → left.length < us.length :=
        fun x left => htakes.length_lt
      rw [untilClosing_of_not_closing hclosing hprogress,
        untilClosing_of_not_closing hclosing (heq ▸ hprogress)]
      have hlater := ih (hitem.below (Nat.le_succ n))
      have hboth := hitem.bind_of_le (fun x => hlater.bind fun xs => agreeBelow_pure (x :: xs))
        (Nat.le_refl _)
      exact hboth.weaken us hn

theorem agreeBelow_parameters (function : String) (seen : List String) :
    AgreeBelow n 0 (parameters function seen) (parameters function seen) := by
  intro us _
  refine ⟨rfl, ?_⟩
  fun_induction parameters function seen us with
  | case1 => exact .error List.suffix_rfl
  | case2 => exact .ok List.suffix_rfl (Nat.le_refl _)
  | case3 seen t us => exact .error (List.suffix_cons t us)
  | case4 seen t us _ _ _ ih =>
    exact (ih (by rw [List.length_cons] at *; omega)).behind (List.suffix_cons t us)
      (Nat.le_succ _)
  | case5 => exact .error List.suffix_rfl

/-! ## Literals and names -/

theorem agreeBelow_numberLiteral (negative : Bool) (start : Option Nat) :
    AgreeBelow n 1 (numberLiteral negative start) (numberLiteral negative start) := by
  intro us hn
  refine ⟨rfl, ?_⟩
  rw [numberLiteral_eq]
  obtain ⟨-, hexpect⟩ := agreeBelow_expect .number "number" us hn
  cases hresult : expect .number "number" us with
  | error e left =>
    rw [bind_of_eq_error hresult]
    rw [hresult] at hexpect
    exact hexpect.of_error
  | ok t left =>
    rw [bind_of_eq_ok hresult]
    obtain ⟨rfl, hk⟩ := expect_eq_ok_iff.1 hresult
    by_cases hconv : t.Convertible
    · rw [convert_of_convertible hk hconv]
      refine Result.Takes.behind ?_ (List.suffix_cons t left) (Nat.le_refl _)
      show Result.Takes 0 left ((if inRange (if negative then -t.value else t.value) = true then
        pure _ else throw (.grammar _) : Parser Expr) left)
      exact (agreeBelow_ite (agreeBelow_pure _) (agreeBelow_throw _) left (Nat.lt_succ_self _)).2
    · rw [convert_of_not_convertible hconv]
      exact .oversized hk hconv List.suffix_rfl

theorem agreeBelow_negativeLiteral : AgreeBelow n 1 negativeLiteral negativeLiteral := by
  refine agreeBelow_next.bind fun minus => agreeBelow_peek_bind 0 fun t => ?_
  cases t with
  | none => exact agreeBelow_throw _
  | some t =>
    have hliteral : AgreeBelow n 1 (numberLiteral true _) _ :=
      agreeBelow_numberLiteral true (some minus.offset)
    exact agreeBelow_ite (hliteral.weaken) (agreeBelow_throw _)

theorem agreeBelow_booleanLiteral : AgreeBelow n 1 booleanLiteral booleanLiteral :=
  (agreeBelow_expect _ _).bind fun _ => agreeBelow_pure _

theorem agreeBelow_variableName : AgreeBelow n 1 variableName variableName :=
  (agreeBelow_expect _ _).bind fun _ => agreeBelow_pure _

/-! ## Refusing -/

theorem agreeBelow_blameFormStart : AgreeBelow n k blameFormStart blameFormStart := by
  refine agreeBelow_peek_bind 1 fun t => ?_
  cases t with
  | none => exact agreeBelow_throw _
  | some t => exact agreeBelow_ite (agreeBelow_throw _) (agreeBelow_throw _)

theorem agreeBelow_blameMisfit (kind : ValueKind) :
    AgreeBelow n k (blameMisfit kind) (blameMisfit kind) := by
  refine agreeBelow_peek_bind 0 fun t => ?_
  cases t with
  | none => exact agreeBelow_throw _
  | some t =>
    refine agreeBelow_peek_bind 1 fun after => ?_
    split <;> exact agreeBelow_throw _

/-- To find out whether an expression is dynamic takes no token. -/
theorem agreeBelow_isDynamic_bind {f f' : Bool → Parser β} (hf : ∀ b, AgreeBelow n k (f b) (f' b)) :
    AgreeBelow n k (isDynamic >>= f) (isDynamic >>= f') := by
  simp only [isDynamic, bind_assoc]
  refine agreeBelow_peekKind_bind 0 fun kind => ?_
  split
  · simpa only [pure_bind] using hf true
  · simp only [bind_assoc, pure_bind]
    exact agreeBelow_peekKind_bind 1 fun after => hf _
  · simpa only [pure_bind] using hf false

/-! ## Forms -/

section Forms

variable {f g : Position → Parser Expr} (hop : ∀ q, AgreeBelow n 1 (f q) (g q))

/-- A form ends with a closing delimiter. -/
theorem agreeBelow_closing {wanted : String} (a : α) :
    AgreeBelow n 0 (expect .closing wanted >>= fun _ => (pure a : Parser α))
      (expect .closing wanted >>= fun _ => pure a) :=
  ((agreeBelow_expect .closing wanted).bind fun _ => agreeBelow_pure a).weaken

include hop

/-- What comes after an operand is done on no more tokens. -/
theorem agreeBelow_operand_bind (q : Position) {r r' : Expr → Parser β}
    (hr : ∀ e, AgreeBelow n 0 (r e) (r' e)) : AgreeBelow n 0 (f q >>= r) (g q >>= r') :=
  ((hop q).weaken).bind hr

theorem agreeBelow_binary (ofKind? : TokenKind → Option α) (family : String) (kind : ValueKind)
    (build : α → Expr → Expr → Expr) :
    AgreeBelow (n + 1) 1 (binary f ofKind? family kind build)
      (binary g ofKind? family kind build) := by
  simp only [binary, discard_bind]
  refine .afterToken fun _ => ?_
  refine ((agreeBelow_operator ofKind? family).weaken).bind fun op => ?_
  exact agreeBelow_operand_bind hop _ fun left =>
    agreeBelow_operand_bind hop _ fun right => agreeBelow_closing _

theorem agreeBelow_unary : AgreeBelow (n + 1) 1 (unary f) (unary g) := by
  simp only [unary, discard_bind]
  refine .afterToken fun _ => ?_
  refine ((agreeBelow_operator _ _).weaken).bind fun op => ?_
  exact agreeBelow_operand_bind hop _ fun value => agreeBelow_closing _

theorem agreeBelow_caseOf : AgreeBelow (n + 1) 1 (caseOf f) (caseOf g) := by
  simp only [caseOf, discard_bind]
  exact .afterToken fun _ => agreeBelow_operand_bind hop _ fun condition =>
    agreeBelow_operand_bind hop _ fun result => agreeBelow_closing _

theorem agreeBelow_conditional : AgreeBelow (n + 1) 1 (conditional f) (conditional g) := by
  simp only [conditional, discard_bind]
  refine .afterToken fun _ => ?_
  refine ((agreeBelow_expect _ _).weaken).bind fun keyword => ?_
  have hcases : AgreeBelow n 0 (untilClosing (caseOf f)) (untilClosing (caseOf g)) :=
    agreeBelow_untilClosing ((agreeBelow_caseOf hop).below (Nat.le_succ n))
  refine agreeBelow_peekKind_bind 0 fun kind =>
    agreeBelow_ite ?_ (hcases.bind fun cases => agreeBelow_closing _)
  exact (agreeBelow_throw _).bind fun _ => hcases.bind fun cases => agreeBelow_closing _

theorem agreeBelow_call : AgreeBelow (n + 1) 1 (call f) (call g) := by
  simp only [call, discard_bind]
  refine .afterToken fun _ => ?_
  refine ((agreeBelow_expect _ _).weaken).bind fun name => ?_
  exact (agreeBelow_untilClosing (hop .any)).bind fun args => agreeBelow_closing _

theorem agreeBelow_definition : AgreeBelow (n + 1) 1 (definition f) (definition g) := by
  have hexpect : ∀ {kind wanted}, AgreeBelow n 0 (expect kind wanted) (expect kind wanted) :=
    (agreeBelow_expect _ _).weaken
  simp only [definition, discard_bind]
  refine .afterToken fun _ => hexpect.bind fun _ => hexpect.bind fun _ => ?_
  refine hexpect.bind fun name => ?_
  refine (agreeBelow_parameters name.text []).bind fun params => hexpect.bind fun _ => ?_
  exact agreeBelow_operand_bind hop _ fun body => agreeBelow_closing _

theorem agreeBelow_dynamic : AgreeBelow (n + 1) 1 (dynamic f) (dynamic g) :=
  agreeBelow_peekKind_bind 0 fun _ => agreeBelow_ite agreeBelow_variableName <|
    agreeBelow_peekKind_bind 1 fun _ =>
      agreeBelow_ite (agreeBelow_conditional hop) (agreeBelow_call hop)

/-! ## Expressions -/

theorem agreeBelow_numberExpr : AgreeBelow (n + 1) 1 (numberExpr f) (numberExpr g) := by
  refine agreeBelow_peekKind_bind 0 fun kind => ?_
  split
  · exact agreeBelow_numberLiteral _ _
  · exact agreeBelow_negativeLiteral
  · exact agreeBelow_isDynamic_bind fun _ => agreeBelow_ite (agreeBelow_dynamic hop) <|
      agreeBelow_peekKind_bind 1 fun _ =>
        agreeBelow_ite (agreeBelow_binary hop _ _ _ _) (agreeBelow_blameMisfit _)

theorem agreeBelow_booleanExpr : AgreeBelow (n + 1) 1 (booleanExpr f) (booleanExpr g) := by
  refine agreeBelow_peekKind_bind 0 fun kind => ?_
  split
  · exact agreeBelow_booleanLiteral
  · refine agreeBelow_isDynamic_bind fun _ => agreeBelow_ite (agreeBelow_dynamic hop) <|
      agreeBelow_ite (agreeBelow_peekKind_bind 1 fun _ => ?_) (agreeBelow_blameMisfit _)
    exact agreeBelow_ite (agreeBelow_binary hop _ _ _ _) <| agreeBelow_ite (agreeBelow_unary hop) <|
      agreeBelow_ite (agreeBelow_binary hop _ _ _ _) (agreeBelow_blameMisfit _)

theorem agreeBelow_anyForm : AgreeBelow (n + 1) 1 (anyForm f) (anyForm g) := by
  refine agreeBelow_peekKind_bind 1 fun after => ?_
  cases after with
  | none => exact agreeBelow_blameFormStart
  | some after =>
    exact agreeBelow_ite (agreeBelow_conditional hop) <|
      agreeBelow_ite (agreeBelow_binary hop _ _ _ _) <|
      agreeBelow_ite (agreeBelow_booleanExpr hop) <| agreeBelow_ite (agreeBelow_definition hop) <|
      agreeBelow_ite (agreeBelow_call hop) agreeBelow_blameFormStart

theorem agreeBelow_anyExpr : AgreeBelow (n + 1) 1 (anyExpr f) (anyExpr g) := by
  refine agreeBelow_peek_bind 0 fun t => ?_
  cases t with
  | none => exact agreeBelow_throw _
  | some t =>
    dsimp only
    split
    · exact agreeBelow_numberExpr hop
    · exact agreeBelow_numberExpr hop
    · exact agreeBelow_booleanLiteral
    · exact agreeBelow_variableName
    · exact agreeBelow_anyForm hop
    · exact agreeBelow_ite (agreeBelow_throw _) (agreeBelow_throw _)

theorem agreeBelow_step (p : Position) : AgreeBelow (n + 1) 1 (step f p) (step g p) := by
  rcases p with _ | _ | _
  · exact agreeBelow_anyExpr hop
  · exact agreeBelow_numberExpr hop
  · exact agreeBelow_booleanExpr hop

end Forms

/-! ## The recursion -/

/-- The test that `expr` makes before an operand is read never fails: `expr` is a form whose
operands are read by `expr`, and so it takes a token. -/
theorem agreeBelow_step_expr (p : Position) : AgreeBelow n 1 (step expr p) (expr p) := by
  induction n generalizing p with
  | zero => exact fun us hn => absurd hn (Nat.not_lt_zero _)
  | succ n ih =>
    intro us hn
    -- The operands of this form are read through the test, which passes on fewer tokens; that they
    -- take a token there is the induction hypothesis.
    rw [expr]
    refine agreeBelow_step (n := us.length) (fun q vs hlt => ?_) p us (Nat.lt_succ_self _)
    obtain ⟨heq, htakes⟩ := ih q vs (by omega)
    rw [if_pos hlt]
    exact ⟨rfl, heq ▸ htakes⟩

/-- An expression is read with at least one token. -/
theorem takes_expr (p : Position) (us : List Token) : Result.Takes 1 us (expr p us) := by
  obtain ⟨heq, htakes⟩ := agreeBelow_step_expr p us (Nat.lt_succ_self us.length)
  exact heq ▸ htakes

/-- On tokens of their own, the readers of operands agree with themselves. -/
theorem agreeBelow_expr (q : Position) : AgreeBelow n 1 (expr q) (expr q) :=
  fun us _ => ⟨rfl, takes_expr q us⟩

/-- A text that is one expression takes from its tokens as well. -/
theorem takes_program (us : List Token) : Result.Takes 0 us (program us) := by
  cases us with
  | nil => exact .error List.suffix_rfl
  | cons t us =>
    have htakes : ∀ p : Parser Expr, AgreeBelow ((t :: us).length + 1) 0 p p →
        Result.Takes 0 (t :: us) (p (t :: us)) := fun _ => AgreeBelow.takes
    rw [program_cons]
    refine htakes _ ((agreeBelow_expr .any).weaken.bind fun e => ?_)
    refine agreeBelow_peek_bind 0 fun next => ?_
    cases next with
    | none => exact agreeBelow_pure e
    | some t => exact agreeBelow_throw _

/-- **The operands of a form are read from fewer tokens**: whatever they are read by elsewhere, on
fewer tokens it is `expr`, and then the form is read as `expr` reads it. -/
theorem step_eq_expr {f : Position → Parser Expr} {p : Position} {us : List Token}
    (h : ∀ q vs, vs.length < us.length → f q vs = expr q vs) : step f p us = expr p us := by
  have hop : ∀ q, AgreeBelow us.length 1 (f q) (expr q) := by
    intro q vs hlt
    rw [h q vs hlt]
    exact ⟨rfl, takes_expr q vs⟩
  rw [(agreeBelow_step hop p us (Nat.lt_succ_self _)).1]
  exact (agreeBelow_step_expr p us (Nat.lt_succ_self _)).1

/-! ## Cursors -/

/-- The readers of the grammar. -/
inductive Production : {α : Type} → Parser α → Prop
  | expr (p : Position) : Production (expr p)
  | dynamic : Production (dynamic expr)
  | numberLiteral (negative : Bool) (start : Option Nat) : Production (numberLiteral negative start)
  | negativeLiteral : Production negativeLiteral
  | booleanLiteral : Production booleanLiteral
  | operator {α : Type} (ofKind? : TokenKind → Option α) (family : String) :
      Production (operator ofKind? family)
  | arith : Production (arith expr)
  | logic : Production (logic expr)
  | unary : Production (unary expr)
  | compare : Production (compare expr)
  | conditional : Production (conditional expr)
  | caseOf : Production (caseOf expr)
  | variableName : Production variableName
  | definition : Production (definition expr)
  | call : Production (call expr)

/-- Every reader of the grammar takes a token from the front, or it stops with a fault. -/
theorem Production.takes {p : Parser α} (h : Production p) (us : List Token) :
    Result.Takes 1 us (p us) := by
  have hop : ∀ q, AgreeBelow us.length 1 (Parser.expr q) (Parser.expr q) := agreeBelow_expr
  cases h with
  | expr q => exact takes_expr q us
  | dynamic => exact (agreeBelow_dynamic hop).takes
  | numberLiteral negative start => exact (agreeBelow_numberLiteral negative start).takes
  | negativeLiteral => exact agreeBelow_negativeLiteral.takes
  | booleanLiteral => exact agreeBelow_booleanLiteral.takes
  | operator ofKind? family => exact (agreeBelow_operator ofKind? family).takes
  | arith | logic | compare => exact (agreeBelow_binary hop _ _ _ _).takes
  | unary => exact (agreeBelow_unary hop).takes
  | conditional => exact (agreeBelow_conditional hop).takes
  | caseOf => exact (agreeBelow_caseOf hop).takes
  | variableName => exact agreeBelow_variableName.takes
  | definition => exact (agreeBelow_definition hop).takes
  | call => exact (agreeBelow_call hop).takes

end Parser

/-- What reading from a cursor ends in when it goes forward: in a result with a larger index, or in
an error of the grammar with an index that is not smaller, or just behind a number of too many
digits.  The index does not leave the tokens. -/
inductive Cursor.Advances {α : Type} (c : Cursor) : Except Failure α × Cursor → Prop
  | returned {a : α} {i : Nat} :
      c.index < i → i ≤ c.tokens.length → Advances c (.ok a, { c with index := i })
  | raised {fault : GrammarFault} {location : Location} {i : Nat} :
      c.index ≤ i → i ≤ c.tokens.length →
      Advances c (.error (.error (.grammar fault) location), { c with index := i })
  | overflowed {t : Token} {i : Nat} :
      c.index ≤ i → c.tokens[i]? = some t → t.kind = .number → ¬t.Convertible →
      Advances c (.error (.oversized t.text.length), { c with index := i + 1 })

theorem Cursor.advances_of_takes {α : Type} {p : Parser α} {c : Cursor}
    (hc : c.index ≤ c.tokens.length) (h : Parser.Result.Takes 1 c.rest (p c.rest)) :
    c.Advances (c.read p) := by
  have hrest : c.rest.length = c.tokens.length - c.index := List.length_drop
  unfold Cursor.read
  generalize p c.rest = result at h
  cases h with
  | ok _ hlength => exact .returned (by omega) (by omega)
  | error hleft =>
    have hlength := hleft.length_le
    exact .raised (by omega) (by omega)
  | @oversized t left hk hconv hleft =>
    obtain ⟨pre, hpre⟩ := hleft
    have hlength := congrArg List.length hpre
    rw [List.length_append, List.length_cons] at hlength
    have hindex : c.tokens.length - left.length = c.index + pre.length + 1 := by omega
    have ht : c.tokens[c.index + pre.length]? = some t := by
      rw [← List.getElem?_drop]
      show c.rest[pre.length]? = some t
      rw [← hpre, List.getElem?_append_right (Nat.le_refl _), Nat.sub_self]
      rfl
    dsimp only [ReadError.failure, Cursor.leave]
    rw [hindex]
    exact .overflowed (Nat.le_add_right _ _) ht hk hconv

end DynLisp
