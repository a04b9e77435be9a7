import DynLisp.Proofs.Lexing.Comments
import DynLisp.Proofs.Session.Jobs

/-!
# The forms at the front of a text

The tokens of a text are read as forms to their end exactly when they derive a sequence of
expressions and no number among them has too many digits, `ReadAs`, and then the forms are these
(`readForms_iff`).  In any case the forms that are read are the longest such sequence that the
tokens start with (`startsWith_iff`).

No expression goes on when more tokens follow.  So in a sequence of expressions with more behind it
the forms are read as they are read without, and then those of the rest (`readForms_append`), and
they are taken in this order (`Session.takeForms_append`).
-/

namespace DynLisp

open DynLisp.Action

/-! ## Reading forms -/

theorem Derives.ne_nil {p : Position} {ts : List Token} {e : Expr} (h : Derives p ts e) :
    ts ≠ [] := by
  obtain ⟨t, us, rfl, -⟩ := h.startsOpen
  exact List.cons_ne_nil t us

/-- The tokens of an expression are read as this expression to their end, or not at all. -/
theorem expr_of_derives {ts : List Token} {e : Expr} (hlex : ∀ t ∈ ts, t.IsLexical)
    (h : Derives .any ts e) :
    Parser.expr .any ts = .ok e [] ∨ ∃ fault left, Parser.expr .any ts = .error fault left := by
  cases hread : Parser.expr .any ts with
  | error fault left => exact .inr ⟨fault, left, rfl⟩
  | ok e' rest =>
    obtain ⟨us, hts, hderives, -⟩ := (Parser.expr_eq_ok_iff hlex).1 hread
    obtain ⟨rfl, rfl⟩ := Derives.unique hlex List.prefix_rfl (hts ▸ List.prefix_append us rest) h
      hderives
    exact .inl (by rw [List.append_right_eq_self.1 hts.symm])

/-- Tokens are a sequence of expressions, and no number among them has too many digits. -/
structure ReadAs (ts : List Token) (es : List Expr) : Prop where
  derives : Sequence (Derives .any) ts es
  convertible : ∀ t ∈ ts, t.Convertible

theorem ReadAs.nil : ReadAs [] [] := ⟨.nil, nofun⟩

theorem ReadAs.cons {ts us : List Token} {e : Expr} {es : List Expr} (hd : Derives .any ts e)
    (hconv : ∀ t ∈ ts, t.Convertible) (h : ReadAs us es) : ReadAs (ts ++ us) (e :: es) :=
  ⟨.cons hd h.derives, List.forall_mem_append.2 ⟨hconv, h.convertible⟩⟩

/-- Tokens read as some expressions if the first expression is read from them and the tokens that
are left read as the others. -/
theorem readAs_iff {us : List Token} (hlex : ∀ t ∈ us, t.IsLexical) (hne : us ≠ [])
    {es : List Expr} :
    ReadAs us es ↔ ∃ e rest es', Parser.expr .any us = .ok e rest ∧ es = e :: es' ∧
      ReadAs rest es' := by
  constructor
  · rintro ⟨hseq, hconv⟩
    cases hseq with
    | nil => exact absurd rfl hne
    | cons he hes =>
      obtain ⟨hfirst, hrest⟩ := List.forall_mem_append.1 hconv
      exact ⟨_, _, _, (Parser.expr_eq_ok_iff hlex).2 ⟨_, rfl, he, hfirst⟩, rfl, hes, hrest⟩
  · rintro ⟨e, rest, es', hread, rfl, hes⟩
    obtain ⟨ts, rfl, he, hconv⟩ := (Parser.expr_eq_ok_iff hlex).1 hread
    exact .cons he hconv hes

/-- All tokens are read as forms exactly when they read as these. -/
theorem readForms_iff {us : List Token} (hlex : ∀ t ∈ us, t.IsLexical) {es : List Expr} :
    (readForms us).2 = none ∧ (readForms us).1.map Prod.snd = es ↔ ReadAs us es := by
  fun_induction readForms us generalizing es with
  | case1 =>
    constructor
    · rintro ⟨-, rfl⟩
      exact .nil
    · rintro ⟨hseq, -⟩
      generalize hnil : ([] : List Token) = us at hseq
      cases hseq with
      | nil => exact ⟨rfl, rfl⟩
      | cons he _ => exact absurd (List.append_eq_nil_iff.1 hnil.symm).1 he.ne_nil
  | case2 start later e rest hread =>
    rw [readAs_iff hlex (List.cons_ne_nil _ _), hread]
    constructor
    · rintro ⟨⟨⟩, -⟩
    · rintro ⟨_, _, _, ⟨⟩, -⟩
  | case3 start later e rest hread _ forms fault hrec ih =>
    obtain ⟨ts, hts, -⟩ := (Parser.expr_eq_ok_iff hlex).1 hread
    have hrest : ∀ t ∈ rest, t.IsLexical := fun t ht =>
      hlex t (by rw [hts]; exact List.mem_append_right _ ht)
    rw [hrec] at ih
    rw [readAs_iff hlex (List.cons_ne_nil _ _), hread]
    constructor
    · rintro ⟨hnone, rfl⟩
      exact ⟨e, rest, _, rfl, rfl, (ih hrest).1 ⟨hnone, rfl⟩⟩
    · rintro ⟨_, _, es', ⟨⟩, rfl, hes⟩
      obtain ⟨hnone, rfl⟩ := (ih hrest).2 hes
      exact ⟨hnone, rfl⟩
  | case4 start later e rest hread hle =>
    -- an expression takes a token at least, so this never happens
    obtain ⟨ts, hts, he, -⟩ := (Parser.expr_eq_ok_iff hlex).1 hread
    have hlength := congrArg List.length hts
    have hpos := List.length_pos_iff.2 he.ne_nil
    rw [List.length_cons, List.length_append] at hlength
    exact absurd (by omega) hle

/-- An expression at the front of some tokens is their first form, whatever follows. -/
theorem readForms_of_derives {ts : List Token} {e : Expr} (h : Derives .any ts e)
    (hconv : ∀ t ∈ ts, t.Convertible) :
    ∃ start, ∀ rest, (∀ t ∈ ts ++ rest, t.IsLexical) →
      readForms (ts ++ rest) = ((start, e) :: (readForms rest).1, (readForms rest).2) := by
  obtain ⟨start, later, rfl, -⟩ := h.startsOpen
  refine ⟨start, fun rest hlex => ?_⟩
  have hread : Parser.expr .any (start :: (later ++ rest)) = .ok e rest :=
    (Parser.expr_eq_ok_iff hlex).2 ⟨start :: later, rfl, h, hconv⟩
  have hle : rest.length ≤ (later ++ rest).length := by
    rw [List.length_append]
    omega
  rw [List.cons_append, readForms, hread]
  simp only [hle, if_true]

/-- The forms of tokens that read as expressions are read as they are without what follows, and
then those of what follows are. -/
theorem readForms_append {us rest : List Token} {es : List Expr} (h : ReadAs us es)
    (hlex : ∀ t ∈ us ++ rest, t.IsLexical) :
    readForms (us ++ rest) = ((readForms us).1 ++ (readForms rest).1, (readForms rest).2) := by
  obtain ⟨hseq, hconv⟩ := h
  induction hseq with
  | nil =>
    rw [readForms]
    rfl
  | @cons ts us e es he _ ih =>
    have hall : ∀ t ∈ ts ++ (us ++ rest), t.IsLexical := by rwa [← List.append_assoc]
    have hlater := (List.forall_mem_append.1 hall).2
    obtain ⟨hfirst, hrest⟩ := List.forall_mem_append.1 hconv
    obtain ⟨start, hread⟩ := readForms_of_derives he hfirst
    rw [List.append_assoc, hread _ hall, hread _ (List.forall_mem_append.1 hlex).1, ih hlater hrest]
    rfl

/-! ## Sequences at the front -/

theorem Sequence.of_append {α : Type} {Item : List Token → α → Prop} {ts : List Token}
    {xs ys : List α} (h : Sequence Item ts (xs ++ ys)) :
    ∃ us rest, ts = us ++ rest ∧ Sequence Item us xs ∧ Sequence Item rest ys := by
  induction xs generalizing ts with
  | nil => exact ⟨[], ts, rfl, .nil, h⟩
  | cons x xs ih =>
    cases h with
    | cons hx hrest =>
      obtain ⟨us, rest, rfl, hxs, hys⟩ := ih hrest
      exact ⟨_, rest, (List.append_assoc _ _ _).symm, .cons hx hxs, hys⟩

/-- Some tokens, before any others, read as expressions. -/
def StartsWith (ts : List Token) (es : List Expr) : Prop :=
  ∃ us rest, ts = us ++ rest ∧ ReadAs us es

/-- Tokens start with the forms that are read from them. -/
theorem startsWith_readForms {ts : List Token} (hlex : ∀ t ∈ ts, t.IsLexical) :
    StartsWith ts ((readForms ts).1.map Prod.snd) := by
  have hfirst : ∀ {us : List Token} {e : Expr} {rest : List Token}, (∀ t ∈ us, t.IsLexical) →
      Parser.expr .any us = .ok e rest →
        ∃ ts, us = ts ++ rest ∧ (∀ {vs es}, ReadAs vs es → ReadAs (ts ++ vs) (e :: es)) ∧
          ∀ t ∈ rest, t.IsLexical := by
    intro us e rest hlex hread
    obtain ⟨ts, rfl, hd, hconv⟩ := (Parser.expr_eq_ok_iff hlex).1 hread
    exact ⟨ts, rfl, .cons hd hconv, (List.forall_mem_append.1 hlex).2⟩
  fun_induction readForms ts with
  | case1 => exact ⟨[], [], rfl, .nil⟩
  | case2 start later e rest _ => exact ⟨[], _, rfl, .nil⟩
  | case3 start later e rest hread hle forms fault hrec ih =>
    obtain ⟨us, hus, hcons, hrest⟩ := hfirst hlex hread
    rw [hrec] at ih
    obtain ⟨us', rest', rfl, hreads⟩ := ih hrest
    exact ⟨us ++ us', rest', by rw [hus, List.append_assoc], hcons hreads⟩
  | case4 start later e rest hread _ =>
    obtain ⟨us, hus, hcons, -⟩ := hfirst hlex hread
    exact ⟨us ++ [], rest, by rw [hus, List.append_nil], hcons .nil⟩

/-- The forms that are read from some tokens are the longest sequence of expressions that the
tokens start with. -/
theorem startsWith_iff {ts : List Token} (hlex : ∀ t ∈ ts, t.IsLexical) {es : List Expr} :
    StartsWith ts es ↔ es <+: (readForms ts).1.map Prod.snd := by
  constructor
  · rintro ⟨us, rest, rfl, hreads⟩
    have hus : ∀ t ∈ us, t.IsLexical := (List.forall_mem_append.1 hlex).1
    rw [readForms_append hreads hlex, List.map_append, ((readForms_iff hus).2 hreads).2]
    exact List.prefix_append es _
  · rintro ⟨es', hes⟩
    obtain ⟨us, rest, hts, hseq, hconv⟩ := startsWith_readForms hlex
    rw [← hes] at hseq
    obtain ⟨us, rest', rfl, hus, -⟩ := hseq.of_append
    exact ⟨us, rest' ++ rest, by rw [hts, List.append_assoc], hus,
      (List.forall_mem_append.1 hconv).1⟩

/-! ## Taking forms -/

namespace Session

variable {α : Type} {env env' : Environment}

/-- Forms are taken one after the other, and so are two lists of them. -/
theorem takeForms_append (act : Token → Expr → Action (List α))
    (before forms : List (Token × Expr)) :
    takeForms act (before ++ forms) = (do
      let results ← takeForms act before
      return results ++ (← takeForms act forms)) := by
  induction before with
  | nil => simp only [takeForms, List.nil_append, pure_bind, bind_pure]
  | cons form before ih =>
    obtain ⟨start, e⟩ := form
    simp only [takeForms, List.cons_append, ih, bind_assoc, pure_bind, List.append_assoc]

/-- Once some forms are taken, the others are taken from where these have led. -/
theorem after_takeForms_append {act : Token → Expr → Action (List α)}
    {before : List (Token × Expr)} {results : List α}
    (h : takeForms act before env = .ok results env') (forms : List (Token × Expr)) :
    (takeForms act (before ++ forms)).after env = (takeForms act forms).after env' := by
  rw [takeForms_append, after_bind_of_ok _ h, after_bind]
  cases (takeForms act forms).outcome env' <;> rfl

/-- A text leaves the environment that its forms leave, if it cuts into tokens. -/
theorem after_takeText {act : String → Token → Expr → Action (List α)} {source : String}
    {ts : List Token} (h : tokens (blankComments source) = .ok ts) (env : Environment) :
    (takeText source act).after env =
      (takeForms (act (blankComments source)) (readForms ts).1).after
        (env.noted (.tokens ts)) := by
  rw [Action.after, takeText_run h, ← Action.after, after_bind]
  cases (takeForms (act (blankComments source)) (readForms ts).1).outcome
      (env.noted (.tokens ts)) with
  | error failure => rfl
  | ok results => cases (readForms ts).2 <;> rfl

/-- A text ends in a result if its tokens are read to their end and all forms are taken. -/
theorem outcome_takeText_iff {act : String → Token → Expr → Action (List α)} {source : String}
    {ts : List Token} (h : tokens (blankComments source) = .ok ts) (env : Environment) :
    (∃ results, (takeText source act).outcome env = .ok results) ↔
      (readForms ts).2 = none ∧ ∃ results,
        (takeForms (act (blankComments source)) (readForms ts).1).outcome (env.noted (.tokens ts)) =
          .ok results := by
  rw [Action.outcome, takeText_run h, ← Action.outcome, outcome_bind]
  cases (takeForms (act (blankComments source)) (readForms ts).1).outcome
      (env.noted (.tokens ts)) with
  | error failure => simp
  | ok results =>
    cases (readForms ts).2 with
    | none => exact ⟨fun _ => ⟨rfl, results, rfl⟩, fun _ => ⟨results, rfl⟩⟩
    | some e =>
      constructor
      · rintro ⟨_, ⟨⟩⟩
      · rintro ⟨⟨⟩, -⟩

/-- A text that ends in a result cuts into tokens, and these are read to their end. -/
theorem exists_tokens_of_takeText {act : String → Token → Expr → Action (List α)}
    {source : String} {results : List α} (h : takeText source act env = .ok results env') :
    ∃ ts, tokens (blankComments source) = .ok ts ∧ (readForms ts).2 = none := by
  cases htokens : tokens (blankComments source) with
  | error failure =>
    rw [takeText, htokens] at h
    cases h
  | ok ts =>
    have hok : ∃ results, (takeText source act).outcome env = .ok results :=
      ⟨results, outcome_of_ok h⟩
    exact ⟨ts, rfl, ((outcome_takeText_iff htokens env).1 hok).1⟩

/-- A text fails where its forms do. -/
theorem outcome_takeText_of_error {act : String → Token → Expr → Action (List α)}
    {source : String} {ts : List Token} {failure : Failure}
    (h : tokens (blankComments source) = .ok ts)
    (hfails : (takeForms (act (blankComments source)) (readForms ts).1).outcome
      (env.noted (.tokens ts)) = .error failure) :
    (takeText source act).outcome env = .error failure := by
  rw [Action.outcome, takeText_run h]
  exact outcome_bind_eq_error_iff.2 (.inl hfails)

/-- Once its forms are taken, a text ends in their results if no tokens are left. -/
theorem outcome_takeText_of_ok {act : String → Token → Expr → Action (List α)}
    {source : String} {ts : List Token} {results : List α}
    (h : tokens (blankComments source) = .ok ts)
    (htaken : (takeForms (act (blankComments source)) (readForms ts).1).outcome
      (env.noted (.tokens ts)) = .ok results) :
    (takeText source act).outcome env = match (readForms ts).2 with
      | none => .ok results
      | some e => .error (e.failure (some (blankComments source))) := by
  rw [Action.outcome, takeText_run h, run_bind_of_ok _ (run_of_outcome_eq_ok htaken)]
  cases (readForms ts).2 <;> rfl

theorem load_of_error {source : String} {failure : Failure}
    (h : takeText source loadForm env = .error failure env') :
    load source env = .error failure env' := by
  rw [load_eq, discard_eq]
  exact run_bind_of_error _ h

theorem outcome_load (source : String) (env : Environment) :
    (load source).outcome env = ((takeText source loadForm).outcome env).map fun _ => () := by
  rw [load_eq, discard_eq, outcome_bind]
  cases (takeText source loadForm).outcome env <;> rfl

/-! ### Digits only -/

theorem blankComments_repeated {c : Char} (hc : c.isDigit = true) (n : Nat) :
    blankComments (Token.repeated c n).text = (Token.repeated c n).text := by
  have hnone : ';' ∉ (Token.repeated c n).text.toList := by
    rw [Token.toList_repeated]
    intro hmem
    rw [← List.eq_of_mem_replicate hmem] at hc
    cases hc
  exact blankComments_of_not_mem hnone

/-- A text of digits only has no comments and is one token. -/
theorem tokens_repeated {c : Char} {n : Nat} (hc : c.isDigit = true) (hn : n ≠ 0) :
    tokens (blankComments (Token.repeated c n).text) = .ok [Token.repeated c n] := by
  rw [blankComments_repeated hc]
  exact tokens_eq_ok_iff.2 (Token.tokenize_repeated hc hn)

/-- A text of digits only is not taken if these are too many. -/
theorem takeText_repeated {c : Char} {n : Nat} (hc : c.isDigit = true) (h : Decimal.maxDigits < n)
    (act : String → Token → Expr → Action (List α)) (env : Environment) :
    takeText (Token.repeated c n).text act env =
      .error (.oversized n) (env.noted (.tokens [Token.repeated c n])) := by
  have hread : readForms [Token.repeated c n] = ([], some (.oversized n)) := by
    rw [readForms, Parser.expr_of_not_convertible (p := .any) trivial rfl
      (Token.not_convertible_repeated h), Token.length_repeated]
  rw [takeText_run (tokens_repeated hc (by omega)), hread]
  rfl

/-! ## Definitions -/

variable {f : String} {params : List String} {body : Expr} {source : String} {start : Token}

theorem defineAt_of_none (h : env.functions.lookup f = none) :
    defineAt source start (.define f params body) env =
      .ok () ((env.withFunction f ⟨params, body⟩).noted (.defined f params)) := by
  rw [defineAt, Environment.define_of_none params body h]

theorem defineAt_of_defined (h : env.functions.lookup f ≠ none) :
    defineAt source start (.define f params body) env =
      .error ((Fault.alreadyDefined f).failureAt source start.offset) env := by
  rw [defineAt, Environment.define_of_defined params body h]
  rfl

end Session

end DynLisp
