import DynLisp.Proofs.Shortened
import Mathlib.Data.List.Induction

/-!
# What is expected next

What a reader of tokens still has to see is a stack of expectations, the next one on top.  A token
either meets the expectation on top, which is then replaced by what the token leaves to be seen
(`Expected.advance`), or it does not, and then nothing that goes on with this token is an
expression.  `Expected.run` meets the tokens of a list one after the other.

Expectations do not look ahead.  After an opening delimiter the next token tells the form, after a
sign digits have to come, and the first case comes after its keyword; these three expectations keep
the token that they follow, since faults are blamed on it (`Expected.place`).  They are met at
once: no other expectation ever stands above them (`Patient`), and so the last token tells whether
one of them is on top.

Every stack can be emptied (`exists_run_eq_nil`).  How many digits a number has does not matter to
what is expected (`run_map_shortened`), but a reader has to convert the numbers that it takes: it
gets as far as the tokens that it can convert meet what is expected (`Meets`).
-/

namespace DynLisp
namespace Parser

/-- What has to come next. -/
inductive Expected where
  /-- An expression in a position. -/
  | expr (p : Position)
  /-- The digits of a literal, after its sign. -/
  | digits (sign : Token)
  /-- What tells the form in a position, after the delimiter that opens it. -/
  | head (p : Position) (opening : Token)
  /-- A case, after its keyword if it is the first one. -/
  | caseOf (keyword : Option Token)
  /-- More cases, and the closing delimiter. -/
  | cases
  /-- More arguments, and the closing delimiter. -/
  | args
  /-- The name and the parameters of a function, in delimiters. -/
  | signature
  /-- The name of a function. -/
  | name
  /-- More parameters, distinct from those that are seen, and the closing delimiter. -/
  | params (seen : List String)
  /-- A closing delimiter. -/
  | closing
  deriving DecidableEq

namespace Expected

/-! ## Meeting expectations -/

/-- What is expected after the first token of an expression. -/
def advanceExpr (p : Position) (t : Token) : Option (List Expected) :=
  match t.kind with
  | .number => if p.Admits .number ∧ inRange t.value = true then some [] else none
  | .minus => if p.Admits .number then some [digits t] else none
  | .boolean => if p.Admits .boolean then some [] else none
  | .identifier => some []
  | .opening => some [head p t]
  | _ => none

/-- What is expected after the token that tells a form. -/
def advanceHead (p : Position) (t : Token) : Option (List Expected) :=
  match t.kind with
  | .cond => some [caseOf (some t), cases]
  | .identifier => some [args]
  | .define => if p = .any then some [signature, expr .any, closing] else none
  | kind =>
    if (ArithOp.ofKind? kind).isSome ∧ p.Admits .number then
      some [expr (.only .number), expr (.only .number), closing]
    else if (LogicOp.ofKind? kind).isSome ∧ p.Admits .boolean then
      some [expr (.only .boolean), expr (.only .boolean), closing]
    else if (UnaryOp.ofKind? kind).isSome ∧ p.Admits .boolean then
      some [expr (.only .boolean), closing]
    else if (CompareOp.ofKind? kind).isSome ∧ p.Admits .boolean then
      some [expr (.only .number), expr (.only .number), closing]
    else none

/-- What is expected after the first token of a case. -/
def advanceCase (t : Token) : Option (List Expected) :=
  if t.kind = .opening then some [expr (.only .boolean), expr .any, closing] else none

/-- What is expected in the place of an expectation after a token that meets it. -/
def advance : Expected → Token → Option (List Expected)
  | expr p, t => advanceExpr p t
  | digits _, t => if t.kind = .number ∧ inRange (-t.value) = true then some [] else none
  | head p _, t => advanceHead p t
  | caseOf _, t => advanceCase t
  | cases, t => if t.kind = .closing then some [] else (advanceCase t).map (· ++ [cases])
  | args, t => if t.kind = .closing then some [] else (advanceExpr .any t).map (· ++ [args])
  | signature, t => if t.kind = .opening then some [name, params []] else none
  | name, t => if t.kind = .identifier then some [] else none
  | params seen, t =>
    if t.kind = .closing then some []
    else if t.kind = .identifier ∧ t.text ∉ seen then some [params (seen ++ [t.text])]
    else none
  | closing, t => if t.kind = .closing then some [] else none

/-- Meets the expectation on top of a stack. -/
def take : List Expected → Token → Option (List Expected)
  | [], _ => none
  | s :: rest, t => (s.advance t).map (· ++ rest)

/-- Meets the expectations of a stack with the tokens of a list, one after the other. -/
def run (stack : List Expected) (ts : List Token) : Option (List Expected) :=
  ts.foldlM take stack

variable {stack stack' rest later : List Expected} {s : Expected} {t : Token} {ts us : List Token}

theorem take_eq_some_iff :
    take stack t = some later ↔
      ∃ s rest above, stack = s :: rest ∧ s.advance t = some above ∧ later = above ++ rest := by
  cases stack with
  | nil =>
    refine ⟨fun h => ?_, ?_⟩
    · cases h
    · rintro ⟨_, _, _, ⟨⟩, -⟩
  | cons s rest =>
    rw [take, Option.map_eq_some_iff]
    constructor
    · rintro ⟨above, h, rfl⟩
      exact ⟨s, rest, above, rfl, h, rfl⟩
    · rintro ⟨_, _, above, ⟨⟩, h, rfl⟩
      exact ⟨above, h, rfl⟩

theorem take_eq_none_iff : take (s :: rest) t = none ↔ s.advance t = none :=
  Option.map_eq_none_iff

theorem run_cons : run stack (t :: ts) = (take stack t).bind (run · ts) :=
  List.foldlM_cons

theorem run_singleton : run stack [t] = take stack t := by
  rw [run_cons]
  cases take stack t <;> rfl

theorem run_append : run stack (ts ++ us) = (run stack ts).bind (run · us) :=
  List.foldlM_append

theorem run_append_of_eq (h : run stack ts = some later) : run stack (ts ++ us) = run later us := by
  rw [run_append, h]
  rfl

theorem run_cons_of_eq (h : take stack t = some later) : run stack (t :: ts) = run later ts := by
  rw [run_cons, h]
  rfl

theorem run_concat_of_eq (h : run stack ts = some later) :
    run stack (ts ++ [t]) = take later t :=
  (run_append_of_eq h).trans run_singleton

theorem run_concat_eq_some_iff :
    run stack (ts ++ [t]) = some later ↔
      ∃ mid, run stack ts = some mid ∧ take mid t = some later := by
  cases h : run stack ts with
  | none =>
    rw [run_append, h]
    exact ⟨nofun, nofun⟩
  | some mid =>
    rw [run_concat_of_eq h]
    constructor
    · exact fun ht => ⟨mid, rfl, ht⟩
    · rintro ⟨_, hmid, ht⟩
      exact Option.some.inj hmid ▸ ht

/-- The tokens that empty a stack empty its upper part first. -/
theorem exists_run_eq_nil_of_append (h : run (stack ++ rest) us = some []) :
    ∃ ts vs, us = ts ++ vs ∧ run stack ts = some [] ∧ run rest vs = some [] := by
  induction us generalizing stack with
  | nil =>
    obtain ⟨rfl, rfl⟩ := List.append_eq_nil_iff.1 (Option.some.inj h)
    exact ⟨[], [], rfl, rfl, rfl⟩
  | cons u us ih =>
    cases stack with
    | nil => exact ⟨[], u :: us, rfl, rfl, h⟩
    | cons s stack =>
      rw [List.cons_append, run_cons, Option.bind_eq_some_iff] at h
      obtain ⟨mid, hmid, h⟩ := h
      obtain ⟨above, hs, rfl⟩ := Option.map_eq_some_iff.1 hmid
      rw [← List.append_assoc] at h
      obtain ⟨ts, vs, rfl, hts, hvs⟩ := ih h
      have htake : take (s :: stack) u = some (above ++ stack) := by
        rw [take, hs, Option.map_some]
      exact ⟨u :: ts, vs, rfl, (run_cons_of_eq htake).trans hts, hvs⟩

/-! ## Numbers -/

/-- Leading zeros play no part in what is expected. -/
theorem advance_shortened (s : Expected) (t : Token) : s.advance t.shortened = s.advance t := by
  by_cases hk : t.kind = .number
  · cases s <;> simp [advance, advanceExpr, advanceHead, advanceCase, hk, Token.value_shortened hk,
      ArithOp.ofKind?, LogicOp.ofKind?, UnaryOp.ofKind?, CompareOp.ofKind?]
  · rw [Token.shortened_of_kind_ne hk]

theorem run_map_shortened : run stack (ts.map Token.shortened) = run stack ts := by
  induction ts generalizing stack with
  | nil => rfl
  | cons t ts ih =>
    have htake : take stack t.shortened = take stack t := by
      cases stack with
      | nil => rfl
      | cons s rest => rw [take, take, advance_shortened]
    rw [List.map_cons, run_cons, run_cons, htake]
    simp only [ih]

/-- Tokens that can be converted meet the expectations of a stack, and leave others. -/
structure Meets (stack : List Expected) (ts : List Token) (later : List Expected) : Prop where
  run : run stack ts = some later
  convertible : ∀ t ∈ ts, t.Convertible

theorem Meets.nil : Meets stack [] stack := ⟨rfl, List.forall_mem_nil _⟩

theorem Meets.singleton (ht : take stack t = some later) (hconv : t.Convertible) :
    Meets stack [t] later :=
  ⟨run_singleton.trans ht, List.forall_mem_singleton.2 hconv⟩

theorem Meets.append (hts : Meets stack ts stack') (hus : Meets stack' us later) :
    Meets stack (ts ++ us) later :=
  ⟨(run_append_of_eq hts.run).trans hus.run,
    List.forall_mem_append.2 ⟨hts.convertible, hus.convertible⟩⟩

theorem Meets.cons (ht : take stack t = some stack') (hconv : t.Convertible)
    (hus : Meets stack' us later) : Meets stack (t :: us) later :=
  (Meets.singleton ht hconv).append hus

/-! ## Forms by their operators -/

section Operators

variable {p : Position} {o : Token}

theorem advance_head_arith {op : ArithOp} (hp : p.Admits .number)
    (hk : ArithOp.ofKind? t.kind = some op) :
    (head p o).advance t = some [expr (.only .number), expr (.only .number), closing] := by
  obtain ⟨kind, text, offset⟩ := t
  cases kind <;> simp_all [ArithOp.ofKind?, advance, advanceHead]

theorem advance_head_logic {op : LogicOp} (hp : p.Admits .boolean)
    (hk : LogicOp.ofKind? t.kind = some op) :
    (head p o).advance t = some [expr (.only .boolean), expr (.only .boolean), closing] := by
  obtain ⟨kind, text, offset⟩ := t
  cases kind <;> simp_all [LogicOp.ofKind?, ArithOp.ofKind?, advance, advanceHead]

theorem advance_head_unary {op : UnaryOp} (hp : p.Admits .boolean)
    (hk : UnaryOp.ofKind? t.kind = some op) :
    (head p o).advance t = some [expr (.only .boolean), closing] := by
  obtain ⟨kind, text, offset⟩ := t
  cases kind <;>
    simp_all [UnaryOp.ofKind?, LogicOp.ofKind?, ArithOp.ofKind?, advance, advanceHead]

theorem advance_head_compare {op : CompareOp} (hp : p.Admits .boolean)
    (hk : CompareOp.ofKind? t.kind = some op) :
    (head p o).advance t = some [expr (.only .number), expr (.only .number), closing] := by
  obtain ⟨kind, text, offset⟩ := t
  cases kind <;>
    simp_all [CompareOp.ofKind?, UnaryOp.ofKind?, LogicOp.ofKind?, ArithOp.ofKind?, advance,
      advanceHead]

end Operators

/-! ## Where faults are blamed -/

/-- The next token, or the end of the input. -/
def nextPlace : List Token → Place
  | [] => .endOfInput
  | t :: _ => .token t

/-- Where it is blamed that an expectation is not met by the tokens that come next. -/
def place : Expected → List Token → Place
  | digits sign, [] => .token sign
  | digits sign, t :: _ => if t.kind = .number then .upTo sign.offset t else .token t
  | head (.only _) opening, [] => .token opening
  | caseOf (some keyword), t :: _ => if t.kind = .closing then .token keyword else .token t
  | _, us => nextPlace us

/-- A token of a kind. -/
def sample (kind : TokenKind) : Token :=
  ⟨kind, match kind with
    | .number => "0"
    | .boolean => "true"
    | .identifier => "x"
    | kind => kind.symbol, 0⟩

/-- A token does not meet an expectation, and is not a number that would have to be converted to
find that out. -/
def Stuck (s : Expected) (t : Token) : Prop :=
  s.advance t = none ∧ (t.Convertible ∨ s.advance (sample .number) = none)

/-- No token of its kind meets the expectation. -/
theorem Stuck.of_kind (h : ∀ u : Token, u.kind = t.kind → s.advance u = none) : s.Stuck t := by
  refine ⟨h t rfl, ?_⟩
  by_cases hk : t.kind = .number
  · exact .inr (h (sample .number) hk.symm)
  · exact .inl (.of_kind_ne hk)

/-- Among tokens that start from a stack, `place` is where it is blamed that an expectation is not
met: the tokens before it meet theirs, and the next one, if there is one, does not. -/
def BlamesAt (stack : List Expected) (us : List Token) (place : Place) : Prop :=
  ∃ pre post s rest, us = pre ++ post ∧ Meets stack pre (s :: rest) ∧
    (∀ t, post.head? = some t → s.Stuck t) ∧ place = s.place post

/-- The expectation on top is not met. -/
theorem BlamesAt.top (s : Expected) (h : ∀ t, us.head? = some t → s.Stuck t) :
    BlamesAt (s :: rest) us (s.place us) :=
  ⟨[], us, s, rest, rfl, .nil, h, rfl⟩

/-- Where tokens run out, what is expected next is missing. -/
theorem BlamesAt.top_nil (s : Expected) : BlamesAt (s :: rest) [] (s.place []) := by
  refine .top s ?_
  rintro _ ⟨⟩

theorem BlamesAt.append_left {place : Place} (hts : Meets stack ts later)
    (h : BlamesAt later us place) : BlamesAt stack (ts ++ us) place := by
  obtain ⟨pre, post, s, rest, rfl, hpre, hstuck, rfl⟩ := h
  exact ⟨ts ++ pre, post, s, rest, (List.append_assoc ..).symm, hts.append hpre, hstuck, rfl⟩

/-- A stack is not emptied where the expectation on top is not met. -/
theorem BlamesAt.run_ne_nil {place : Place} (h : BlamesAt stack us place) :
    run stack us ≠ some [] := by
  obtain ⟨pre, post, s, rest, rfl, hpre, hstuck, -⟩ := h
  rw [run_append_of_eq hpre.run]
  cases post with
  | nil => exact nofun
  | cons t post =>
    rw [run_cons, take_eq_none_iff.2 (hstuck t rfl).1]
    exact nofun

/-- Among tokens that start from a stack, there is a number of `n` digits, which are too many, where
a number is expected: the tokens before it meet their expectations. -/
def OverflowsAt (stack : List Expected) (us : List Token) (n : Nat) : Prop :=
  ∃ pre t post s rest, us = pre ++ t :: post ∧ Meets stack pre (s :: rest) ∧ t.kind = .number ∧
    ¬t.Convertible ∧ t.text.length = n ∧ s.advance (sample .number) ≠ none

theorem OverflowsAt.append_left {n : Nat} (hts : Meets stack ts later)
    (h : OverflowsAt later us n) : OverflowsAt stack (ts ++ us) n := by
  obtain ⟨pre, t, post, s, rest, rfl, hpre, ht⟩ := h
  exact ⟨ts ++ pre, t, post, s, rest, (List.append_assoc ..).symm, hts.append hpre, ht⟩

/-! ## Emptying a stack -/

/-- Tokens that meet an expectation and everything that this leaves to be seen. -/
def fill : Expected → List Token
  | expr _ => [sample .identifier]
  | digits _ => [sample .number]
  | head _ _ => [sample .identifier, sample .closing]
  | caseOf _ => [sample .opening, sample .identifier, sample .identifier, sample .closing]
  | cases => [sample .closing]
  | args => [sample .closing]
  | signature => [sample .opening, sample .identifier, sample .closing]
  | name => [sample .identifier]
  | params _ => [sample .closing]
  | closing => [sample .closing]

theorem isLexical_sample {kind : TokenKind}
    (h : kind ∈ [TokenKind.number, .boolean, .identifier, .opening, .closing]) :
    (sample kind).IsLexical := by
  simp only [List.mem_cons, List.not_mem_nil, or_false] at h
  rcases h with rfl | rfl | rfl | rfl | rfl
  · exact .number rfl (by decide) (by simp [sample])
  · exact .word (by decide) (by decide)
  · exact .word (by decide) (by decide)
  · exact .punctuation '(' rfl rfl
  · exact .punctuation ')' rfl rfl

theorem isLexical_of_mem_fill (s : Expected) : ∀ t ∈ s.fill, t.IsLexical := by
  cases s <;> simp only [fill, List.forall_mem_cons, List.not_mem_nil, false_imp_iff,
    implies_true, and_true] <;> simp [isLexical_sample]

theorem run_fill (s : Expected) : run (s :: rest) s.fill = some rest := by
  cases s <;> rfl

/-- Every stack is emptied by some tokens. -/
theorem exists_run_eq_nil (stack : List Expected) :
    ∃ us, (∀ t ∈ us, t.IsLexical) ∧ run stack us = some [] := by
  induction stack with
  | nil => exact ⟨[], nofun, rfl⟩
  | cons s rest ih =>
    obtain ⟨us, hlex, hrun⟩ := ih
    exact ⟨s.fill ++ us, List.forall_mem_append.2 ⟨isLexical_of_mem_fill s, hlex⟩,
      (run_append_of_eq (run_fill s)).trans hrun⟩

/-! ## What is on top -/

/-- An expectation that may stand below another one. -/
def Patient : Expected → Prop
  | digits _ | head _ _ | caseOf (some _) => False
  | _ => True

/-- What a token leaves on top of a stack where it meets `s`, as far as its kind tells. -/
inductive Turn (s : Expected) (t : Token) : List Expected → Prop
  | met : t.kind ≠ .minus → t.kind ≠ .cond → t.kind ≠ .opening → Turn s t []
  | sign {below : List Expected} :
      t.kind = .minus → (∃ p, p.Admits .number ∧ s = expr p) ∨ s = args →
      Turn s t (digits t :: below)
  | opening {p : Position} {below : List Expected} :
      t.kind = .opening → s = expr p ∨ s = args ∧ p = .any → Turn s t (head p t :: below)
  | case {below : List Expected} : t.kind = .opening → Turn s t (expr (.only .boolean) :: below)
  | signature {below : List Expected} : t.kind = .opening → Turn s t (name :: below)
  | keyword {below : List Expected} : t.kind = .cond → Turn s t (caseOf (some t) :: below)
  | other {top : Expected} {below : List Expected} :
      Patient top → t.kind ≠ .cond → t.kind ≠ .opening →
      (t.kind = .minus → ∃ p o, s = head p o) → Turn s t (top :: below)

theorem advanceExpr_cases {p : Position} {above : List Expected}
    (h : advanceExpr p t = some above) :
    (above = [] ∧ t.kind ≠ .minus ∧ t.kind ≠ .cond ∧ t.kind ≠ .opening) ∨
      (above = [digits t] ∧ t.kind = .minus ∧ p.Admits .number) ∨
      (above = [head p t] ∧ t.kind = .opening) := by
  obtain ⟨kind, text, offset⟩ := t
  cases kind <;> simp_all [advanceExpr]

theorem advanceHead_cases {p : Position} {above : List Expected}
    (h : advanceHead p t = some above) :
    (above = [caseOf (some t), cases] ∧ t.kind = .cond) ∨
      ∃ top below, above = top :: below ∧ (∀ x ∈ above, Patient x) ∧ t.kind ≠ .cond ∧
        t.kind ≠ .opening := by
  have hopening : t.kind ≠ .opening := fun hk => by
    simp [advanceHead, hk, ArithOp.ofKind?, LogicOp.ofKind?, UnaryOp.ofKind?,
      CompareOp.ofKind?] at h
  unfold advanceHead at h
  split at h
  · next hk => exact .inl ⟨(Option.some.inj h).symm, hk⟩
  · next hk =>
    obtain rfl := Option.some.inj h
    exact .inr ⟨args, [], rfl, by simp [Patient], by simp [hk], hopening⟩
  · next hk =>
    obtain ⟨-, ⟨⟩⟩ := (Option.ite_none_right_eq_some ..).1 h
    exact .inr ⟨signature, _, rfl, by simp [Patient], by simp [hk], hopening⟩
  · next hcond _ _ =>
    refine .inr ?_
    split at h
    · obtain rfl := Option.some.inj h
      exact ⟨_, _, rfl, by simp [Patient], hcond, hopening⟩
    · split at h
      · obtain rfl := Option.some.inj h
        exact ⟨_, _, rfl, by simp [Patient], hcond, hopening⟩
      · split at h
        · obtain rfl := Option.some.inj h
          exact ⟨_, _, rfl, by simp [Patient], hcond, hopening⟩
        · obtain ⟨-, ⟨⟩⟩ := (Option.ite_none_right_eq_some ..).1 h
          exact ⟨_, _, rfl, by simp [Patient], hcond, hopening⟩

theorem turn_of_kind {kind : TokenKind} (hk : t.kind = kind)
    (hkind : kind ∉ [TokenKind.minus, .cond, .opening]) :
    Turn s t [] ∧ ∀ x ∈ [].tail, Patient x := by
  subst hk
  simp only [List.mem_cons, List.not_mem_nil, or_false, not_or] at hkind
  exact ⟨.met hkind.1 hkind.2.1 hkind.2.2, List.forall_mem_nil _⟩

theorem turn_of_advance {above : List Expected} (h : s.advance t = some above) :
    Turn s t above ∧ ∀ x ∈ above.tail, Patient x := by
  cases s with
  | expr p =>
    obtain ⟨rfl, hminus, hcond, hopening⟩ | ⟨rfl, hk, hp⟩ | ⟨rfl, hk⟩ := advanceExpr_cases h
    · exact ⟨.met hminus hcond hopening, List.forall_mem_nil _⟩
    · exact ⟨.sign hk (.inl ⟨p, hp, rfl⟩), List.forall_mem_nil _⟩
    · exact ⟨.opening hk (.inl rfl), List.forall_mem_nil _⟩
  | digits sign =>
    obtain ⟨⟨hk, -⟩, ⟨⟩⟩ := (Option.ite_none_right_eq_some ..).1 h
    exact turn_of_kind hk (by decide)
  | head p o =>
    obtain ⟨rfl, hk⟩ | ⟨top, below, rfl, hpatient, hcond, hopening⟩ := advanceHead_cases h
    · exact ⟨.keyword hk, by simp [Patient]⟩
    · obtain ⟨htop, hbelow⟩ := List.forall_mem_cons.1 hpatient
      exact ⟨.other htop hcond hopening fun _ => ⟨p, o, rfl⟩, hbelow⟩
  | caseOf keyword =>
    obtain ⟨hk, ⟨⟩⟩ := (Option.ite_none_right_eq_some ..).1 h
    exact ⟨.case hk, by simp [Patient]⟩
  | cases =>
    simp only [advance] at h
    split at h
    · next hk =>
      obtain rfl := Option.some.inj h
      exact turn_of_kind hk (by decide)
    · obtain ⟨above, habove, rfl⟩ := Option.map_eq_some_iff.1 h
      obtain ⟨hk, ⟨⟩⟩ := (Option.ite_none_right_eq_some ..).1 habove
      exact ⟨.case hk, by simp [Patient]⟩
  | args =>
    simp only [advance] at h
    split at h
    · next hk =>
      obtain rfl := Option.some.inj h
      exact turn_of_kind hk (by decide)
    · obtain ⟨above, habove, rfl⟩ := Option.map_eq_some_iff.1 h
      obtain ⟨rfl, hminus, hcond, hopening⟩ | ⟨rfl, hk, hp⟩ | ⟨rfl, hk⟩ := advanceExpr_cases habove
      · exact ⟨.other trivial hcond hopening fun hk => absurd hk hminus, List.forall_mem_nil _⟩
      · exact ⟨.sign hk (.inr rfl), by simp [Patient]⟩
      · exact ⟨.opening hk (.inr ⟨rfl, rfl⟩), by simp [Patient]⟩
  | signature =>
    obtain ⟨hk, ⟨⟩⟩ := (Option.ite_none_right_eq_some ..).1 h
    exact ⟨.signature hk, by simp [Patient]⟩
  | name =>
    obtain ⟨hk, ⟨⟩⟩ := (Option.ite_none_right_eq_some ..).1 h
    exact turn_of_kind hk (by decide)
  | params seen =>
    simp only [advance] at h
    split at h
    · next hk =>
      obtain rfl := Option.some.inj h
      exact turn_of_kind hk (by decide)
    · obtain ⟨⟨hk, -⟩, ⟨⟩⟩ := (Option.ite_none_right_eq_some ..).1 h
      exact ⟨.other trivial (by simp [hk]) (by simp [hk]) (by simp [hk]), List.forall_mem_nil _⟩
  | closing =>
    obtain ⟨hk, ⟨⟩⟩ := (Option.ite_none_right_eq_some ..).1 h
    exact turn_of_kind hk (by decide)

/-- Only on top of a stack stands an expectation that has to be met at once. -/
theorem patient_of_run {p : Position} (h : run [expr p] ts = some (s :: rest)) :
    ∀ x ∈ rest, Patient x := by
  induction ts using List.reverseRecOn generalizing s rest with
  | nil =>
    obtain ⟨-, rfl⟩ := List.cons.inj (Option.some.inj h)
    simp
  | append_singleton ts t ih =>
    obtain ⟨mid, hmid, htake⟩ := run_concat_eq_some_iff.1 h
    obtain ⟨met, below, above, rfl, hadvance, hlater⟩ := take_eq_some_iff.1 htake
    have hbelow := ih hmid
    cases above with
    | nil =>
      rw [← hlater.trans (List.nil_append _)] at hbelow
      exact (List.forall_mem_cons.1 hbelow).2
    | cons top above =>
      obtain ⟨rfl, rfl⟩ := List.cons.inj hlater
      exact List.forall_mem_append.2 ⟨(turn_of_advance hadvance).2, hbelow⟩

/-- The last token met an expectation, and left what is on top now, or met it altogether and left
an expectation that had been waiting. -/
theorem exists_turn_of_run {p : Position} (h : run [expr p] (ts ++ [t]) = some (s :: rest)) :
    ∃ met below, run [expr p] ts = some (met :: below) ∧
      ((Turn met t [] ∧ Patient s) ∨ ∃ above, Turn met t (s :: above)) := by
  obtain ⟨mid, hmid, htake⟩ := run_concat_eq_some_iff.1 h
  obtain ⟨met, below, above, rfl, hadvance, hlater⟩ := take_eq_some_iff.1 htake
  refine ⟨met, below, hmid, ?_⟩
  cases above with
  | nil =>
    rw [List.nil_append] at hlater
    exact .inl ⟨(turn_of_advance hadvance).1,
      patient_of_run hmid s (hlater ▸ List.mem_cons_self ..)⟩
  | cons top above =>
    obtain ⟨rfl, -⟩ := List.cons.inj hlater
    exact .inr ⟨above, (turn_of_advance hadvance).1⟩

end Expected

end Parser

end DynLisp
