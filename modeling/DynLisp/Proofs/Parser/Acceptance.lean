import DynLisp.Cursor
import DynLisp.Proofs.Parser.Choice
import DynLisp.Proofs.Shortened

/-!
# The expressions that are accepted

`Parser.expr` ties the knot that the forms leave open, and it reads derivations in every position
(`reads_expr`), by induction on the number of tokens.

What a cursor and a whole text are read as follows.  A cursor stops after an expression exactly
when the tokens before it are that expression and its numbers can be converted, whatever comes after
them; and a text is read as an expression exactly when all its tokens are that expression, under the
same condition.

A list of tokens starts with at most one expression, whether its numbers can be converted or not.
What can be converted is read, and a reader returns one result.  Any other derivation is one of the
tokens without leading zeros as well, which can all be converted (`Derives.convertible_shortened`).
-/

namespace DynLisp
namespace Parser

theorem reads_expr (n : Nat) (p : Position) : Reads n (expr p) (Derives p) := by
  induction n generalizing p with
  | zero => exact fun us hn => absurd hn (Nat.not_lt_zero _)
  | succ n ih =>
    intro us hn hlex e rest
    rw [expr]
    refine reads_step (n := us.length) (fun q vs hlt hlex' e' rest' => ?_) us (Nat.lt_succ_self _)
      hlex e rest
    rw [if_pos hlt]
    exact ih q vs (by omega) hlex' e' rest'

/-- What is read from the front of some tokens in a position are the derivations there. -/
theorem expr_eq_ok_iff {p : Position} {us rest : List Token} {e : Expr}
    (hlex : ∀ t ∈ us, t.IsLexical) :
    expr p us = .ok e rest ↔
      ∃ ts, us = ts ++ rest ∧ Derives p ts e ∧ ∀ t ∈ ts, t.Convertible :=
  reads_expr (us.length + 1) p us (Nat.lt_succ_self _) hlex e rest

theorem program_eq_ok_iff {us rest : List Token} {e : Expr} (hlex : ∀ t ∈ us, t.IsLexical) :
    program us = .ok e rest ↔ rest = [] ∧ Derives .any us e ∧ ∀ t ∈ us, t.Convertible := by
  rcases us with _ | ⟨t, us⟩
  · constructor
    · rintro ⟨⟩
    · rintro ⟨-, hd, -⟩
      obtain ⟨t, us, h, -⟩ := hd.startsOpen
      cases h
  · rw [program_cons]
    refine Iff.trans (bind_eq_ok_iff (p := expr .any)) ?_
    constructor
    · rintro ⟨e', mid, hread, hend⟩
      rw [peek_bind] at hend
      obtain ⟨ts, hts, hd, hconv⟩ := (expr_eq_ok_iff hlex).1 hread
      cases mid with
      | nil =>
        obtain ⟨rfl, rfl⟩ := pure_eq_ok_iff.1 hend
        rw [List.append_nil] at hts
        exact ⟨rfl, hts ▸ hd, hts ▸ hconv⟩
      | cons u mid => cases hend
    · rintro ⟨rfl, hd, hconv⟩
      exact ⟨e, [], (expr_eq_ok_iff hlex).2 ⟨_, (List.append_nil _).symm, hd, hconv⟩, rfl⟩

/-- A literal of too many digits is taken, and not read. -/
theorem numberLiteral_of_not_convertible {negative : Bool} {start : Option Nat} {t : Token}
    (hk : t.kind = .number) (h : ¬ t.Convertible) (us : List Token) :
    numberLiteral negative start (t :: us) = .error (.oversized t.text.length) us := by
  rw [numberLiteral_eq, bind_of_eq_ok (expect_eq_ok_iff.2 ⟨rfl, hk⟩), convert_of_not_convertible h]
  rfl

theorem step_of_not_convertible {operand : Position → Parser Expr} {p : Position}
    (hp : p.Admits .number) {t : Token} (hk : t.kind = .number) (h : ¬ t.Convertible)
    (us : List Token) :
    step operand p (t :: us) = .error (.oversized t.text.length) us := by
  rw [step_cons, hk, Entry.reader?_eq (.number hp), Option.getD_some]
  exact numberLiteral_of_not_convertible hk h us

theorem expr_of_not_convertible {p : Position} (hp : p.Admits .number) {t : Token}
    (hk : t.kind = .number) (h : ¬ t.Convertible) (us : List Token) :
    expr p (t :: us) = .error (.oversized t.text.length) us := by
  rw [expr]
  exact step_of_not_convertible hp hk h us

end Parser

@[simp] theorem Cursor.rest_start (ts : List Token) (source : Option String) :
    (Cursor.start ts source).rest = ts := rfl

/-- A cursor stops after an expression when the tokens up to there are that expression and can be
converted. -/
theorem Cursor.read_expr_iff {ts rest : List Token} {source : Option String} {e : Expr}
    (hlex : ∀ t ∈ ts ++ rest, t.IsLexical) :
    (Cursor.start (ts ++ rest) source).read (Parser.expr .any) =
        (.ok e, ⟨ts ++ rest, ts.length, source⟩) ↔
      Derives .any ts e ∧ ∀ t ∈ ts, t.Convertible := by
  have hiff : ∀ e' left, Parser.expr .any (ts ++ rest) = .ok e' left ↔
      ∃ us, ts ++ rest = us ++ left ∧ Derives .any us e' ∧ ∀ t ∈ us, t.Convertible :=
    fun e' left => Parser.expr_eq_ok_iff hlex
  unfold Cursor.read
  rw [Cursor.rest_start]
  constructor
  · intro h
    cases hread : Parser.expr .any (ts ++ rest) with
    | error e' left =>
      rw [hread] at h
      cases (Prod.mk.inj h).1
    | ok e' left =>
      rw [hread] at h
      obtain ⟨he, hleave⟩ := Prod.mk.inj h
      obtain rfl := Except.ok.inj he
      obtain ⟨us, hus, hd, hconv⟩ := (hiff e' left).1 hread
      -- the index says how many tokens were taken, and so which
      have hindex : (ts ++ rest).length - left.length = ts.length := congrArg Cursor.index hleave
      have hlength := congrArg List.length hus
      rw [List.length_append, List.length_append] at hlength
      rw [List.length_append] at hindex
      rw [(List.append_inj hus (by omega)).1]
      exact ⟨hd, hconv⟩
  · rintro ⟨hd, hconv⟩
    rw [(hiff e rest).2 ⟨ts, rfl, hd, hconv⟩]
    simp [Cursor.leave, Cursor.start]

/-- Some tokens start with at most one expression. -/
theorem Derives.unique {us ts ts' : List Token} {p : Position} {e e' : Expr}
    (hlex : ∀ t ∈ us, t.IsLexical) (hts : ts <+: us) (hts' : ts' <+: us) (hd : Derives p ts e)
    (hd' : Derives p ts' e') : ts = ts' ∧ e = e' := by
  have hread : ∀ {vs : List Token} {e : Expr}, vs <+: us → Derives p vs e →
      Parser.expr p (us.map Token.shortened) = .ok e ((us.drop vs.length).map Token.shortened) := by
    rintro vs e ⟨rest, rfl⟩ hd
    have hlex' : ∀ t ∈ (vs ++ rest).map Token.shortened, t.IsLexical :=
      List.forall_mem_map.2 fun t ht => (hlex t ht).shortened
    refine (Parser.expr_eq_ok_iff hlex').2 ⟨vs.map Token.shortened, ?_,
      derives_map_shortened_iff.2 hd, List.forall_mem_map.2 hd.convertible_shortened⟩
    rw [List.drop_left, List.map_append]
  obtain ⟨rfl, hrest⟩ := EStateM.Result.ok.inj ((hread hts hd).symm.trans (hread hts' hd'))
  have hlength := congrArg List.length hrest
  rw [List.length_map, List.length_map, List.length_drop, List.length_drop] at hlength
  have hle := hts.length_le
  have hle' := hts'.length_le
  exact ⟨List.prefix_of_prefix_length_le hts hts' (by omega) |>.eq_of_length (by omega), rfl⟩

theorem parse_of_tokenize {source : String} {ts : List Token} (h : tokenize source = .ok ts) :
    parse source = match Parser.program ts with
      | .ok e _ => .ok e
      | .error e _ => .error (e.failure (some source)) := by
  rw [parse, tokens, h]
  rfl

/-- A text that does not cut into tokens is not read. -/
theorem parse_of_refused {source : String} {bad : IllegalCharacter}
    (h : tokenize source = .error bad) : parse source = .error (bad.failure source) := by
  rw [parse, tokens, h]
  rfl

/-- A text is read as an expression when all its tokens are that expression. -/
theorem parse_eq_ok_iff {source : String} {e : Expr} :
    parse source = .ok e ↔
      ∃ ts, tokenize source = .ok ts ∧ Derives .any ts e ∧ ∀ t ∈ ts, t.Convertible := by
  cases htokens : tokenize source with
  | error bad =>
    rw [parse_of_refused htokens]
    exact ⟨nofun, nofun⟩
  | ok ts =>
    have hiff : ∀ e' rest, Parser.program ts = .ok e' rest ↔
        rest = [] ∧ Derives .any ts e' ∧ ∀ t ∈ ts, t.Convertible :=
      fun e' rest => Parser.program_eq_ok_iff (isLexical_of_mem_tokenize htokens)
    rw [parse_of_tokenize htokens]
    constructor
    · intro h
      split at h
      · next e' rest hread =>
        obtain rfl := Except.ok.inj h
        exact ⟨ts, rfl, ((hiff e' rest).1 hread).2⟩
      · cases h
    · rintro ⟨_, ⟨⟩, hd⟩
      rw [(hiff e []).2 ⟨rfl, hd⟩]

/-! ## Literals of too many digits -/

namespace Token

/-- A literal of one digit, written again and again. -/
def repeated (c : Char) (n : Nat) : Token := ⟨.number, String.ofList (List.replicate n c), 0⟩

variable {c : Char} {n : Nat}

@[simp] theorem toList_repeated (c : Char) (n : Nat) :
    (repeated c n).text.toList = List.replicate n c :=
  String.toList_ofList

@[simp] theorem length_repeated (c : Char) (n : Nat) : (repeated c n).text.length = n := by
  rw [← String.length_toList, toList_repeated, List.length_replicate]

theorem isLexical_repeated (hc : c.isDigit = true) (hn : n ≠ 0) : (repeated c n).IsLexical := by
  refine .number rfl ?_ ?_
  · rw [toList_repeated, Ne, List.replicate_eq_nil_iff]
    exact hn
  · rw [toList_repeated]
    intro d hd
    rwa [List.eq_of_mem_replicate hd]

theorem not_convertible_repeated (h : Decimal.maxDigits < n) : ¬ (repeated c n).Convertible := by
  intro hconv
  have hle := hconv rfl
  rw [length_repeated] at hle
  omega

/-- A text of digits only is one token. -/
theorem tokenize_repeated (hc : c.isDigit = true) (hn : n ≠ 0) :
    tokenize (repeated c n).text = .ok [repeated c n] := by
  have hends : EndsWords [] := nofun
  have hlex := (isLexical_repeated hc hn).lex_append hends 0
  rw [List.append_nil, lex_nil] at hlex
  exact hlex

/-- Zeros add nothing. -/
theorem value_zeros (n : Nat) : (repeated '0' n).value = 0 := by
  have hzeros : Nat.ofDigitChars 10 (List.replicate n '0') 0 = 0 := by
    induction n with
    | zero => rfl
    | succ n ih => exact ih
  rw [value, toList_repeated, Decimal.read, hzeros]
  rfl

theorem le_ofDigitChars (cs : List Char) (size : Nat) : size ≤ Nat.ofDigitChars 10 cs size := by
  induction cs generalizing size with
  | nil => exact Nat.le_refl size
  | cons c cs ih =>
    rw [Nat.ofDigitChars_cons]
    exact Nat.le_trans (by omega) (ih _)

/-- Eleven ones are more than a number has room for. -/
theorem inRange_ones (hn : 11 ≤ n) : inRange (repeated '1' n).value = false := by
  obtain ⟨m, rfl⟩ := Nat.exists_eq_add_of_le hn
  have hle : 11111111111 ≤ Decimal.read (List.replicate (11 + m) '1') := by
    rw [List.replicate_add, Decimal.read, Nat.ofDigitChars_append]
    exact le_ofDigitChars _ _
  rw [Bool.eq_false_iff, Ne, inRange_iff, maxNumber, value, toList_repeated]
  omega

end Token

/-- A text of digits only is not read if these are too many. -/
theorem parse_repeated {c : Char} {n : Nat} (hc : c.isDigit = true) (h : Decimal.maxDigits < n) :
    parse (Token.repeated c n).text = .error (.oversized n) := by
  have hread := Parser.expr_of_not_convertible (p := .any) trivial rfl
    (Token.not_convertible_repeated (c := c) h) []
  rw [Token.length_repeated] at hread
  rw [parse_of_tokenize (Token.tokenize_repeated hc (by omega)), Parser.program_cons,
    Parser.bind_of_eq_error hread]
  rfl

/-! ## Acceptance -/

/-- **What is accepted is the grammar, less literals of too many digits**, whatever comes after an
expression: a cursor over tokens that fit their kinds stops after `ts` with the tree `e` exactly
when `ts` is `e` and no number in it has too many digits; tokens start with at most one expression,
and it is one tree, however many digits its numbers have; and a text is read as `e` exactly when all
its tokens are `e` and none of them has too many digits. -/
theorem accepts_iff_derives (ts : List Token) (e : Expr) :
    (∀ (rest : List Token) (source : Option String), (∀ t ∈ ts ++ rest, t.IsLexical) →
      ((Cursor.start (ts ++ rest) source).read (Parser.expr .any) =
        (.ok e, ⟨ts ++ rest, ts.length, source⟩) ↔
          Derives .any ts e ∧ ∀ t ∈ ts, t.Convertible)) ∧
    (∀ us : List Token, (∀ t ∈ us, t.IsLexical) → ∀ ts' e', ts <+: us → ts' <+: us →
      Derives .any ts e → Derives .any ts' e' → ts = ts' ∧ e = e') ∧
    ∀ source : String, parse source = .ok e ↔
      ∃ us, tokenize source = .ok us ∧ Derives .any us e ∧ ∀ t ∈ us, t.Convertible :=
  ⟨fun _ _ hlex => Cursor.read_expr_iff hlex,
    fun _ hlex _ _ hts hts' hd hd' => Derives.unique hlex hts hts' hd hd',
    fun _ => parse_eq_ok_iff⟩

/-- The tokens of `[- 1 -2)` before a closing bracket that belongs to nothing: the first sign is
an operator and the second one belongs to a literal, and the two brackets match. -/
theorem accepts_iff_derives_difference :
    let ts : List Token := [⟨.opening, "[", 0⟩, ⟨.minus, "-", 1⟩, ⟨.number, "1", 3⟩,
      ⟨.minus, "-", 5⟩, ⟨.number, "2", 6⟩, ⟨.closing, ")", 7⟩]
    let rest : List Token := [⟨.closing, "]", 8⟩]
    (∀ t ∈ ts ++ rest, t.IsLexical) ∧
      (Cursor.start (ts ++ rest) none).read (Parser.expr .any) =
        (.ok (.arith .sub (.number 1) (.number (-2))), ⟨ts ++ rest, 6, none⟩) ∧
      ∀ ts' e, ts' <+: ts ++ rest → Derives .any ts' e → ts' = ts := by
  intro ts rest
  have hlex : ∀ t ∈ ts ++ rest, t.IsLexical := by
    simp only [ts, rest, List.cons_append, List.nil_append, List.forall_mem_cons]
    exact ⟨.punctuation '[' rfl rfl, .punctuation '-' rfl rfl, .number rfl (by decide) (by simp),
      .punctuation '-' rfl rfl, .number rfl (by decide) (by simp), .punctuation ')' rfl rfl,
      .punctuation ']' rfl rfl, List.forall_mem_nil _⟩
  have hone : Derives (.only .number) [⟨.number, "1", 3⟩] (.number 1) :=
    .literal rfl rfl (by decide)
  have htwo : Derives (.only .number) [⟨.minus, "-", 5⟩, ⟨.number, "2", 6⟩] (.number (-2)) :=
    .negative rfl rfl rfl (by decide)
  have hd : Derives .any ts (.arith .sub (.number 1) (.number (-2))) :=
    .arith (p := .any) trivial rfl rfl hone htwo rfl
  have hread := ((accepts_iff_derives ts _).1 rest none hlex).2 ⟨hd, by decide⟩
  refine ⟨hlex, hread, fun ts' e hts' hd' => ?_⟩
  exact ((accepts_iff_derives ts _).2.1 _ hlex ts' e ⟨rest, rfl⟩ hts' hd hd').1.symm

/-- A literal of 4301 zeros is the number zero by the grammar, and it is not read. -/
theorem accepts_iff_derives_zeros :
    let zeros := Token.repeated '0' 4301
    (∀ t ∈ [zeros] ++ [], t.IsLexical) ∧ Derives .any [zeros] (.number 0) ∧
      (Cursor.start ([zeros] ++ []) none).read (Parser.expr .any) ≠
        (.ok (.number 0), ⟨[zeros] ++ [], [zeros].length, none⟩) ∧
      tokenize zeros.text = .ok [zeros] ∧ parse zeros.text = .error (.oversized 4301) := by
  intro zeros
  have hlex : zeros.IsLexical := Token.isLexical_repeated rfl (by decide)
  have hconv : ¬ zeros.Convertible := Token.not_convertible_repeated (by decide)
  have hd : Derives .any [zeros] (.number zeros.value) :=
    .literal (p := .any) trivial rfl (by rw [Token.value_zeros]; decide)
  rw [Token.value_zeros] at hd
  refine ⟨List.forall_mem_singleton.2 hlex, hd, fun hread => ?_,
    Token.tokenize_repeated rfl (by decide), parse_repeated rfl (by decide)⟩
  exact hconv (((Cursor.read_expr_iff (List.forall_mem_singleton.2 hlex)).1 hread).2 zeros
    (List.mem_singleton_self zeros))

end DynLisp
