import DynLisp.Parser
import DynLisp.Proofs.Parser.Forms

/-!
# Choosing a reader

Which reader runs in a position is settled by the next two tokens.  `reader?` is this choice as a
table of kinds, and `step_cons` says that `Parser.step` follows it; where the table has no entry the
position refuses the tokens.  `Entry` lists the entries, so that what holds of every reader that may
run is proved by one case for each of them.

That a position reads all derivations is then a matter of the table.  The tokens of a derivation
are sent to the reader of its node (`exists_reader?_of_derives`), and every reader that the table
names reads derivations (`derives_of_reader?`).  Together they are `reads_step`.
-/

namespace DynLisp
namespace Parser

/-- A program is an expression with nothing after it. -/
theorem program_cons (t : Token) (us : List Token) :
    program (t :: us) = (expr .any >>= fun e => peek 0 >>= fun next =>
      match next with
      | none => pure e
      | some t => blame (.trailingToken t.text) t) (t :: us) := rfl

/-! ## The table -/

section Table

variable (operand : Position → Parser Expr)

/-- The reader that runs in a position, by the kinds of the next two tokens, if any does. -/
def reader? (p : Position) : TokenKind → Option TokenKind → Option (Parser Expr)
  | .number, _ => if p.Admits .number then some (numberLiteral false none) else none
  | .minus, _ => if p.Admits .number then some negativeLiteral else none
  | .boolean, _ => if p.Admits .boolean then some booleanLiteral else none
  | .identifier, _ => some variableName
  | .opening, some .cond => some (conditional operand)
  | .opening, some .identifier => some (call operand)
  | .opening, some .define => if p = .any then some (definition operand) else none
  | .opening, some kind =>
    if (ArithOp.ofKind? kind).isSome ∧ p.Admits .number then some (arith operand)
    else if (LogicOp.ofKind? kind).isSome ∧ p.Admits .boolean then some (logic operand)
    else if (UnaryOp.ofKind? kind).isSome ∧ p.Admits .boolean then some (unary operand)
    else if (CompareOp.ofKind? kind).isSome ∧ p.Admits .boolean then some (compare operand)
    else none
  | _, _ => none

/-- What happens where no reader runs. -/
def refuse : Position → Parser Expr
  | .only kind => blameMisfit kind
  | .any => fun us =>
    match us with
    | [] => .error (.grammar ⟨.endOfInput, .endOfInput⟩) []
    | t :: _ =>
      if t.kind = .opening then blameFormStart us
      else
        .error (.grammar ⟨if t.kind.isReserved then .unsupported t.text else .cannotStart t.text,
          .token t⟩) us

theorem step_cons (p : Position) (t : Token) (us : List Token) :
   step operand p (t :: us) =
     (reader? operand p t.kind (us.head?.map Token.kind)).getD (refuse p) (t :: us) := by
  obtain ⟨first, text, offset⟩ := t
  rcases us with _ | ⟨⟨second, text', offset'⟩, us⟩
  · rcases p with _ | _ | _ <;> cases first <;> rfl
  · rcases p with _ | _ | _ <;> cases first <;> first | rfl | (cases second <;> rfl)

theorem step_nil (p : Position) : step operand p [] = refuse p [] := by
  rcases p with _ | _ | _ <;> rfl

end Table

/-! ## Refusing -/

theorem blameMisfit_ne_ok (kind : ValueKind) (us rest : List Token) (e : Expr) :
    blameMisfit kind us ≠ .ok e rest := by
  rw [blameMisfit, peek_bind]
  rcases us with _ | ⟨⟨k, text, offset⟩, _ | ⟨t, us⟩⟩
  · exact nofun
  · cases k <;> exact nofun
  · cases k <;> exact nofun

theorem blameFormStart_ne_ok (us rest : List Token) (e : Expr) :
    blameFormStart us ≠ .ok e rest := by
  rw [blameFormStart, peek_bind]
  cases us[1]? with
  | none => exact nofun
  | some t =>
    obtain ⟨k, text, offset⟩ := t
    cases k <;> exact nofun

theorem refuse_ne_ok (p : Position) (us rest : List Token) (e : Expr) :
    refuse p us ≠ .ok e rest := by
  rcases p with _ | kind
  · rcases us with _ | ⟨t, us⟩
    · exact nofun
    · rw [refuse]
      by_cases hk : t.kind = .opening
      · simpa only [if_pos hk] using blameFormStart_ne_ok (t :: us) rest e
      · simp only [if_neg hk]
        exact nofun
  · exact blameMisfit_ne_ok kind us rest e

/-! ## The entries of the table -/

section Entries

variable {operand : Position → Parser Expr} {p : Position}

theorem reader?_arith {kind : TokenKind} {op : ArithOp} (hp : p.Admits .number)
    (hk : ArithOp.ofKind? kind = some op) :
    reader? operand p .opening (some kind) = some (arith operand) := by
  cases kind <;> simp_all [ArithOp.ofKind?, reader?]

theorem reader?_logic {kind : TokenKind} {op : LogicOp} (hp : p.Admits .boolean)
    (hk : LogicOp.ofKind? kind = some op) :
    reader? operand p .opening (some kind) = some (logic operand) := by
  cases kind <;> simp_all [LogicOp.ofKind?, ArithOp.ofKind?, reader?]

theorem reader?_unary {kind : TokenKind} {op : UnaryOp} (hp : p.Admits .boolean)
    (hk : UnaryOp.ofKind? kind = some op) :
    reader? operand p .opening (some kind) = some (unary operand) := by
  cases kind <;> simp_all [UnaryOp.ofKind?, LogicOp.ofKind?, ArithOp.ofKind?, reader?]

theorem reader?_compare {kind : TokenKind} {op : CompareOp} (hp : p.Admits .boolean)
    (hk : CompareOp.ofKind? kind = some op) :
    reader? operand p .opening (some kind) = some (compare operand) := by
  cases kind <;>
    simp_all [CompareOp.ofKind?, UnaryOp.ofKind?, LogicOp.ofKind?, ArithOp.ofKind?, reader?]

/-- What the table says, one rule for each reader. -/
inductive Entry (operand : Position → Parser Expr) (p : Position) :
    TokenKind → Option TokenKind → Parser Expr → Prop
  | number {kind? : Option TokenKind} :
      p.Admits .number → Entry operand p .number kind? (numberLiteral false none)
  | negative {kind? : Option TokenKind} :
      p.Admits .number → Entry operand p .minus kind? negativeLiteral
  | boolean {kind? : Option TokenKind} :
      p.Admits .boolean → Entry operand p .boolean kind? booleanLiteral
  | var {kind? : Option TokenKind} : Entry operand p .identifier kind? variableName
  | cond : Entry operand p .opening (some .cond) (conditional operand)
  | call : Entry operand p .opening (some .identifier) (call operand)
  | define : p = .any → Entry operand p .opening (some .define) (definition operand)
  | arith {kind : TokenKind} {op : ArithOp} :
      p.Admits .number → ArithOp.ofKind? kind = some op →
      Entry operand p .opening (some kind) (arith operand)
  | logic {kind : TokenKind} {op : LogicOp} :
      p.Admits .boolean → LogicOp.ofKind? kind = some op →
      Entry operand p .opening (some kind) (logic operand)
  | unary {kind : TokenKind} {op : UnaryOp} :
      p.Admits .boolean → UnaryOp.ofKind? kind = some op →
      Entry operand p .opening (some kind) (unary operand)
  | compare {kind : TokenKind} {op : CompareOp} :
      p.Admits .boolean → CompareOp.ofKind? kind = some op →
      Entry operand p .opening (some kind) (compare operand)

theorem entry_of_reader? {kind : TokenKind} {kind? : Option TokenKind} {r : Parser Expr}
    (h : reader? operand p kind kind? = some r) : Entry operand p kind kind? r := by
  unfold reader? at h
  split at h
  · obtain ⟨hp, ⟨⟩⟩ := (Option.ite_none_right_eq_some ..).1 h
    exact .number hp
  · obtain ⟨hp, ⟨⟩⟩ := (Option.ite_none_right_eq_some ..).1 h
    exact .negative hp
  · obtain ⟨hp, ⟨⟩⟩ := (Option.ite_none_right_eq_some ..).1 h
    exact .boolean hp
  · obtain rfl := Option.some.inj h
    exact .var
  · obtain rfl := Option.some.inj h
    exact .cond
  · obtain rfl := Option.some.inj h
    exact .call
  · obtain ⟨hp, ⟨⟩⟩ := (Option.ite_none_right_eq_some ..).1 h
    exact .define hp
  · split at h
    · next hp =>
      obtain rfl := Option.some.inj h
      exact .arith hp.2 (Option.eq_some_of_isSome hp.1)
    · split at h
      · next hp =>
        obtain rfl := Option.some.inj h
        exact .logic hp.2 (Option.eq_some_of_isSome hp.1)
      · split at h
        · next hp =>
          obtain rfl := Option.some.inj h
          exact .unary hp.2 (Option.eq_some_of_isSome hp.1)
        · obtain ⟨hp, ⟨⟩⟩ := (Option.ite_none_right_eq_some ..).1 h
          exact .compare hp.2 (Option.eq_some_of_isSome hp.1)
  · cases h

theorem Entry.reader?_eq {kind : TokenKind} {kind? : Option TokenKind} {r : Parser Expr}
    (h : Entry operand p kind kind? r) : reader? operand p kind kind? = some r := by
  cases h with
  | number hp | negative hp | boolean hp | define hp => exact if_pos hp
  | var => rfl
  | cond | call => simp [reader?]
  | arith hp hk => exact reader?_arith hp hk
  | logic hp hk => exact reader?_logic hp hk
  | unary hp hk => exact reader?_unary hp hk
  | compare hp hk => exact reader?_compare hp hk

end Entries

/-! ## Reading in a position -/

variable {n : Nat} {p : Position} {operand : Position → Parser Expr}
  (hop : ∀ q, Reads n (operand q) (Derives q))
include hop

/-- The reader that runs reads derivations. -/
theorem derives_of_reader? {r : Parser Expr} {t : Token} {us rest : List Token} {e : Expr}
    (hr : reader? operand p t.kind (us.head?.map Token.kind) = some r)
    (hn : (t :: us).length < n + 1) (hlex : ∀ u ∈ t :: us, u.IsLexical)
    (h : r (t :: us) = .ok e rest) :
    ∃ ts, t :: us = ts ++ rest ∧ Derives p ts e ∧ ∀ t ∈ ts, t.Convertible := by
  have hentry := entry_of_reader? hr
  generalize hk : t.kind = kind, us.head?.map Token.kind = kind? at hentry
  cases hentry with
  | number hp =>
    obtain ⟨ts, hts, ⟨t, rfl, hk, hrange, rfl⟩, hconv⟩ := (reads_numberLiteral _ hn hlex e rest).1 h
    exact ⟨_, hts, .literal hp hk hrange, hconv⟩
  | negative hp =>
    obtain ⟨ts, hts, ⟨sign, t', rfl, hk', hrange, rfl⟩, hconv⟩ :=
      (reads_negativeLiteral _ (by simpa using hk) e rest).1 h
    obtain ⟨rfl, rfl⟩ := List.cons.inj hts
    exact ⟨_, hts, .negative hp hk hk' hrange, hconv⟩
  | boolean hp =>
    obtain ⟨ts, hts, ⟨hd, -⟩, hconv⟩ := (reads_booleanLiteral hp _ hn hlex e rest).1 h
    exact ⟨ts, hts, hd, hconv⟩
  | var =>
    obtain ⟨ts, hts, ⟨hd, -⟩, hconv⟩ := (reads_variableName _ hn hlex e rest).1 h
    exact ⟨ts, hts, hd, hconv⟩
  | cond =>
    obtain ⟨ts, hts, ⟨hd, -⟩, hconv⟩ := (reads_conditional hop _ hn hlex e rest).1 h
    exact ⟨ts, hts, hd, hconv⟩
  | call =>
    obtain ⟨ts, hts, ⟨hd, -⟩, hconv⟩ := (reads_call hop _ hn hlex e rest).1 h
    exact ⟨ts, hts, hd, hconv⟩
  | define hp =>
    obtain rfl := hp
    obtain ⟨ts, hts, ⟨hd, -⟩, hconv⟩ := (reads_definition hop _ hn hlex e rest).1 h
    exact ⟨ts, hts, hd, hconv⟩
  | arith hp =>
    obtain ⟨ts, hts, ⟨hd, -⟩, hconv⟩ := (reads_arith hop hp _ hn hlex e rest).1 h
    exact ⟨ts, hts, hd, hconv⟩
  | logic hp =>
    obtain ⟨ts, hts, ⟨hd, -⟩, hconv⟩ := (reads_logic hop hp _ hn hlex e rest).1 h
    exact ⟨ts, hts, hd, hconv⟩
  | unary hp =>
    obtain ⟨ts, hts, ⟨hd, -⟩, hconv⟩ := (reads_unary hop hp _ hn hlex e rest).1 h
    exact ⟨ts, hts, hd, hconv⟩
  | compare hp =>
    obtain ⟨ts, hts, ⟨hd, -⟩, hconv⟩ := (reads_compare hop hp _ hn hlex e rest).1 h
    exact ⟨ts, hts, hd, hconv⟩

/-- Where an expression stands, the reader runs that reads it. -/
theorem exists_reader?_of_derives {t : Token} {us ts rest : List Token} {e : Expr}
    (hd : Derives p ts e) (hts : t :: us = ts ++ rest) (hconv : ∀ t ∈ ts, t.Convertible)
    (hn : (t :: us).length < n + 1) (hlex : ∀ u ∈ t :: us, u.IsLexical) :
    ∃ r, reader? operand p t.kind (us.head?.map Token.kind) = some r ∧
      r (t :: us) = .ok e rest := by
  have hd' := hd
  cases hd' with
  | literal hp hk hrange =>
    obtain ⟨rfl, rfl⟩ := List.cons.inj hts
    exact ⟨_, by rw [hk]; exact Entry.reader?_eq (.number hp),
      (reads_numberLiteral _ hn hlex _ _).2 ⟨_, rfl, ⟨t, rfl, hk, hrange, rfl⟩, hconv⟩⟩
  | negative hp hsign hk hrange =>
    obtain ⟨rfl, rfl⟩ := List.cons.inj hts
    exact ⟨_, by rw [hsign]; exact Entry.reader?_eq (.negative hp),
      (reads_negativeLiteral _ (by simpa using hsign) _ _).2
        ⟨_, rfl, ⟨t, _, rfl, hk, hrange, rfl⟩, hconv⟩⟩
  | arith hp ho hk =>
    obtain ⟨rfl, rfl⟩ := List.cons.inj hts
    exact ⟨_, by rw [ho]; exact Entry.reader?_eq (.arith hp hk),
      (reads_arith hop hp _ hn hlex _ _).2 ⟨_, rfl, ⟨hd, _, _, _, rfl⟩, hconv⟩⟩
  | trueLiteral hp hk =>
    obtain ⟨rfl, rfl⟩ := List.cons.inj hts
    exact ⟨_, by rw [hk]; exact Entry.reader?_eq (.boolean hp),
      (reads_booleanLiteral hp _ hn hlex _ _).2 ⟨_, rfl, ⟨hd, _, rfl⟩, hconv⟩⟩
  | falseLiteral hp hk =>
    obtain ⟨rfl, rfl⟩ := List.cons.inj hts
    exact ⟨_, by rw [hk]; exact Entry.reader?_eq (.boolean hp),
      (reads_booleanLiteral hp _ hn hlex _ _).2 ⟨_, rfl, ⟨hd, _, rfl⟩, hconv⟩⟩
  | logic hp ho hk =>
    obtain ⟨rfl, rfl⟩ := List.cons.inj hts
    exact ⟨_, by rw [ho]; exact Entry.reader?_eq (.logic hp hk),
      (reads_logic hop hp _ hn hlex _ _).2 ⟨_, rfl, ⟨hd, _, _, _, rfl⟩, hconv⟩⟩
  | unary hp ho hk =>
    obtain ⟨rfl, rfl⟩ := List.cons.inj hts
    exact ⟨_, by rw [ho]; exact Entry.reader?_eq (.unary hp hk),
      (reads_unary hop hp _ hn hlex _ _).2 ⟨_, rfl, ⟨hd, _, _, rfl⟩, hconv⟩⟩
  | compare hp ho hk =>
    obtain ⟨rfl, rfl⟩ := List.cons.inj hts
    exact ⟨_, by rw [ho]; exact Entry.reader?_eq (.compare hp hk),
      (reads_compare hop hp _ hn hlex _ _).2 ⟨_, rfl, ⟨hd, _, _, _, rfl⟩, hconv⟩⟩
  | cond ho hk =>
    obtain ⟨rfl, rfl⟩ := List.cons.inj hts
    exact ⟨conditional operand, by rw [ho]; simp [hk, Entry.reader?_eq .cond],
      (reads_conditional hop _ hn hlex _ _).2 ⟨_, rfl, ⟨hd, _, rfl⟩, hconv⟩⟩
  | define ho hk =>
    obtain ⟨rfl, rfl⟩ := List.cons.inj hts
    exact ⟨definition operand, by rw [ho]; simp [hk, Entry.reader?_eq (.define rfl)],
      (reads_definition hop _ hn hlex _ _).2 ⟨_, rfl, ⟨hd, _, _, _, rfl⟩, hconv⟩⟩
  | var hk =>
    obtain ⟨rfl, rfl⟩ := List.cons.inj hts
    exact ⟨_, by rw [hk]; exact Entry.reader?_eq .var,
      (reads_variableName _ hn hlex _ _).2 ⟨_, rfl, ⟨hd, _, rfl⟩, hconv⟩⟩
  | call ho hk =>
    obtain ⟨rfl, rfl⟩ := List.cons.inj hts
    exact ⟨call operand, by rw [ho]; simp [hk, Entry.reader?_eq .call],
      (reads_call hop _ hn hlex _ _).2 ⟨_, rfl, ⟨hd, _, _, rfl⟩, hconv⟩⟩

theorem reads_step : Reads (n + 1) (step operand p) (Derives p) := by
  intro us hn hlex e rest
  rcases us with _ | ⟨t, us⟩
  · rw [step_nil]
    refine ⟨fun h => absurd h (refuse_ne_ok p [] rest e), ?_⟩
    rintro ⟨ts, hts, hd, -⟩
    obtain ⟨t, us, rfl, -⟩ := hd.startsOpen
    cases hts
  · rw [step_cons]
    constructor
    · intro h
      cases hr : reader? operand p t.kind (us.head?.map Token.kind) with
      | none =>
        rw [hr] at h
        exact absurd h (refuse_ne_ok p _ rest e)
      | some r =>
        rw [hr] at h
        exact derives_of_reader? hop hr hn hlex h
    · rintro ⟨ts, hts, hd, hconv⟩
      obtain ⟨r, hr, h⟩ := exists_reader?_of_derives hop hd hts hconv hn hlex
      rw [hr]
      exact h

end Parser

end DynLisp
