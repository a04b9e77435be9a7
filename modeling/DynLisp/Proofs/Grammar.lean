import DynLisp.Parser.Form

/-!
# The grammar

`Derives p ts e` says that the tokens `ts`, all of them, are the expression `e` in the position
`p`.  It is the grammar as a relation, with one constructor for each way of writing a node, and it
does not mention a reader.

    expression  ::= number | boolean | conditional | definition | name | call
    number      ::= "-"? digits | "(" arithmetic-operator number number ")"
    boolean     ::= "true" | "false" | "(" boolean-operator boolean boolean ")"
                  | "(" "!" boolean ")" | "(" comparison number number ")"
    conditional ::= "(" "cond" case+ ")"
    case        ::= "(" boolean expression ")"
    definition  ::= "(" "define" "(" name name* ")" expression ")"
    call        ::= "(" name expression* ")"

A name, a call and a conditional may stand in every position; a number and a boolean only in a
position that admits them (`Position.Admits`); a definition only where any expression may stand.
Every opening delimiter matches every closing one, because the relation looks at the kind of a
delimiter alone.  The signed value of a literal is a number of 32 bits, the parameters of a
definition are distinct, and no keyword of list processing occurs in any rule.

The grammar does not say how many digits a literal has, and leading zeros add nothing to its value.
A reader converts no more than `Decimal.maxDigits` of them.  Tokens that it can convert are
`Token.Convertible`.

The arguments of a call and the cases of a conditional are written one after the other, which
`Sequence` says for items of any sort.
-/

namespace DynLisp

/-- Whether an expression that is a number, or a boolean, by its form may stand in a position. -/
def Position.Admits : Position → ValueKind → Prop
  | any, _ => True
  | only kind, kind' => kind = kind'

instance (p : Position) (kind : ValueKind) : Decidable (p.Admits kind) :=
  match p with
  | .any => .isTrue trivial
  | .only kind' => inferInstanceAs (Decidable (kind' = kind))

/-- The integer that the text of a number token denotes. -/
def Token.value (t : Token) : Int := Decimal.read t.text.toList

/-- A token that has not too many digits to be converted, if it is a number. -/
def Token.Convertible (t : Token) : Prop :=
  t.kind = .number → t.text.length ≤ Decimal.maxDigits

instance (t : Token) : Decidable t.Convertible :=
  inferInstanceAs (Decidable (_ → _))

theorem Token.Convertible.of_kind_ne {t : Token} (h : t.kind ≠ .number) : t.Convertible :=
  fun hk => absurd hk h

/-- An operator of a family that numbers do not belong to is no number. -/
theorem Token.kind_ne_number_of_operator {α : Type} {ofKind? : TokenKind → Option α} {t : Token}
    {op : α} (hnumber : ofKind? .number = none) (h : ofKind? t.kind = some op) :
    t.kind ≠ .number := by
  intro hk
  rw [hk, hnumber] at h
  cases h

/-- Items written one after the other, where `Item ts x` says that the tokens `ts` are `x`. -/
inductive Sequence {α : Type} (Item : List Token → α → Prop) : List Token → List α → Prop
  | nil : Sequence Item [] []
  | cons {ts us : List Token} {x : α} {xs : List α} :
      Item ts x → Sequence Item us xs → Sequence Item (ts ++ us) (x :: xs)

mutual

/-- The tokens of an expression in a position. -/
inductive Derives : Position → List Token → Expr → Prop
  | literal {p : Position} {t : Token} :
      p.Admits .number → t.kind = .number → inRange t.value = true →
      Derives p [t] (.number t.value)
  | negative {p : Position} {sign t : Token} :
      p.Admits .number → sign.kind = .minus → t.kind = .number → inRange (-t.value) = true →
      Derives p [sign, t] (.number (-t.value))
  | arith {p : Position} {o t c : Token} {ls rs : List Token} {op : ArithOp} {l r : Expr} :
      p.Admits .number → o.kind = .opening → ArithOp.ofKind? t.kind = some op →
      Derives (.only .number) ls l → Derives (.only .number) rs r → c.kind = .closing →
      Derives p (o :: t :: (ls ++ (rs ++ [c]))) (.arith op l r)
  | trueLiteral {p : Position} {t : Token} :
      p.Admits .boolean → t.kind = .boolean → t.text = "true" →
      Derives p [t] (.boolean true)
  | falseLiteral {p : Position} {t : Token} :
      p.Admits .boolean → t.kind = .boolean → t.text = "false" →
      Derives p [t] (.boolean false)
  | logic {p : Position} {o t c : Token} {ls rs : List Token} {op : LogicOp} {l r : Expr} :
      p.Admits .boolean → o.kind = .opening → LogicOp.ofKind? t.kind = some op →
      Derives (.only .boolean) ls l → Derives (.only .boolean) rs r → c.kind = .closing →
      Derives p (o :: t :: (ls ++ (rs ++ [c]))) (.logic op l r)
  | unary {p : Position} {o t c : Token} {ts : List Token} {op : UnaryOp} {e : Expr} :
      p.Admits .boolean → o.kind = .opening → UnaryOp.ofKind? t.kind = some op →
      Derives (.only .boolean) ts e → c.kind = .closing →
      Derives p (o :: t :: (ts ++ [c])) (.unary op e)
  | compare {p : Position} {o t c : Token} {ls rs : List Token} {op : CompareOp} {l r : Expr} :
      p.Admits .boolean → o.kind = .opening → CompareOp.ofKind? t.kind = some op →
      Derives (.only .number) ls l → Derives (.only .number) rs r → c.kind = .closing →
      Derives p (o :: t :: (ls ++ (rs ++ [c]))) (.compare op l r)
  | cond {p : Position} {o t c : Token} {ts : List Token} {cases : List (Expr × Expr)} :
      o.kind = .opening → t.kind = .cond → cases ≠ [] → Sequence DerivesCase ts cases →
      c.kind = .closing → Derives p (o :: t :: (ts ++ [c])) (.cond cases)
  | define {o t o' f c' c : Token} {params ts : List Token} {body : Expr} :
      o.kind = .opening → t.kind = .define → o'.kind = .opening → f.kind = .identifier →
      (∀ x ∈ params, x.kind = .identifier) → (params.map Token.text).Nodup →
      c'.kind = .closing → Derives .any ts body → c.kind = .closing →
      Derives .any (o :: t :: o' :: f :: (params ++ c' :: (ts ++ [c])))
        (.define f.text (params.map Token.text) body)
  | var {p : Position} {t : Token} : t.kind = .identifier → Derives p [t] (.var t.text)
  | call {p : Position} {o t c : Token} {ts : List Token} {args : List Expr} :
      o.kind = .opening → t.kind = .identifier → Sequence (Derives .any) ts args →
      c.kind = .closing → Derives p (o :: t :: (ts ++ [c])) (.call t.text args)

/-- The tokens of a case. -/
inductive DerivesCase : List Token → Expr × Expr → Prop
  | mk {o c : Token} {ts us : List Token} {condition result : Expr} :
      o.kind = .opening → Derives (.only .boolean) ts condition → Derives .any us result →
      c.kind = .closing → DerivesCase (o :: (ts ++ (us ++ [c]))) (condition, result)

end

/-! ## How an expression starts -/

/-- Tokens that start with a token that closes nothing. -/
def StartsOpen (ts : List Token) : Prop := ∃ t us, ts = t :: us ∧ t.kind ≠ .closing

theorem Derives.startsOpen {p : Position} {ts : List Token} {e : Expr} (h : Derives p ts e) :
    StartsOpen ts := by
  cases h
  all_goals refine ⟨_, _, rfl, ?_⟩; simp_all

theorem DerivesCase.startsOpen {ts : List Token} {c : Expr × Expr} (h : DerivesCase ts c) :
    StartsOpen ts := by
  cases h with
  | mk ho => exact ⟨_, _, rfl, by rw [ho]; decide⟩

/-- Items that start with a token that closes nothing are none exactly when the closing delimiter
after them comes next. -/
theorem Sequence.head?_append_closing {α : Type} {Item : List Token → α → Prop} {ts : List Token}
    {xs : List α} (hseq : Sequence Item ts xs) (hstart : ∀ ts x, Item ts x → StartsOpen ts)
    {c : Token} (hc : c.kind = .closing) {rest : List Token} :
    (ts ++ c :: rest).head?.map Token.kind = some .closing ↔ xs = [] := by
  cases hseq with
  | nil => simp [hc]
  | cons hx =>
    obtain ⟨t, us, rfl, ht⟩ := hstart _ _ hx
    simp [ht]

end DynLisp
