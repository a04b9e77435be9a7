import DynLisp.Proofs.Environment.Likeness
import DynLisp.Proofs.Evaluation.Induction
import DynLisp.Proofs.Lexing.Words
import DynLisp.Proofs.Parser.Likeness
import DynLisp.Proofs.Session.Invariant

/-!
# Texts with the same words

What a session does with a text depends on the words that stand in it outside of comments, and not
on where they stand.  The tokens of two texts with the same words are alike, so the same forms are
read from them, up to the same fault if there is one (`alike_readForms`).  Taking these forms goes
alike: a place enters the failures, and tokens enter the notices, and nothing else.

`alike_execute` says this of whole texts.
-/

namespace DynLisp

open DynLisp.Parser (ErrorAlike Likeness)
open DynLisp.Action

/-! ## Reading forms -/

section

variable {R : Token → Token → Prop} {E : GrammarError → GrammarError → Prop}

/-- The same trees from tokens that are alike. -/
abbrev FormsAlike (R : Token → Token → Prop) (forms forms' : List (Token × Expr)) : Prop :=
  List.Forall₂ (fun form form' => R form.1 form'.1 ∧ form.2 = form'.2) forms forms'

theorem FormsAlike.map_snd_eq {forms forms' : List (Token × Expr)}
    (h : FormsAlike R forms forms') : forms.map Prod.snd = forms'.map Prod.snd := by
  induction h with
  | nil => rfl
  | cons hform _ ih => rw [List.map_cons, List.map_cons, ih, hform.2]

theorem alike_readForms (like : Likeness R E) {us us' : List Token} (hus : List.Forall₂ R us us') :
    FormsAlike R (readForms us).1 (readForms us').1 ∧
      Option.Rel (ErrorAlike E) (readForms us).2 (readForms us').2 := by
  fun_induction readForms us generalizing us' with
  | case1 =>
    cases hus
    rw [readForms]
    exact ⟨.nil, .none⟩
  | case2 start later e rest heq =>
    cases hus with
    | @cons _ start' _ later' hstart hlater =>
      have h := Parser.alike_expr like .any _ _ (.cons hstart hlater)
      rw [heq] at h
      rw [readForms]
      generalize Parser.expr .any (start' :: later') = result at h
      cases h with
      | error he _ => exact ⟨.nil, .some he⟩
  | case3 start later e rest heq hle forms fault hrec ih =>
    cases hus with
    | @cons _ start' _ later' hstart hlater =>
      have h := Parser.alike_expr like .any _ _ (.cons hstart hlater)
      rw [heq] at h
      rw [readForms]
      generalize Parser.expr .any (start' :: later') = result at h
      cases h with
      | ok he hrest =>
        obtain ⟨hforms, hfault⟩ := ih hrest
        rw [hrec] at hforms hfault
        rw [hrest.length_eq, hlater.length_eq] at hle
        simp only [hle, if_true]
        exact ⟨.cons ⟨hstart, he⟩ hforms, hfault⟩
  | case4 start later e rest heq hle =>
    cases hus with
    | @cons _ start' _ later' hstart hlater =>
      have h := Parser.alike_expr like .any _ _ (.cons hstart hlater)
      rw [heq] at h
      rw [readForms]
      generalize Parser.expr .any (start' :: later') = result at h
      cases h with
      | ok he hrest =>
        rw [hrest.length_eq, hlater.length_eq] at hle
        simp only [hle, if_false]
        exact ⟨.cons ⟨hstart, he⟩ .nil, .none⟩

end

/-! ## The same words -/

/-- Two tokens are the same word. -/
def SameWord (t t' : Token) : Prop := t.lexeme = t'.lexeme

/-- Two errors are the same fault, wherever it lies. -/
def SameFault (e e' : GrammarError) : Prop := e.fault = e'.fault

theorem likeness_sameWord : Likeness SameWord SameFault where
  kind h := congrArg Prod.fst h
  text h _ _ := congrArg Prod.snd h
  endOfInput _ := rfl
  token fault hu _ := congrArg (fault ∘ Prod.snd) hu
  upTo fault _ ht := congrArg (fault ∘ Prod.snd) ht

theorem forall₂_sameWord {ts ts' : List Token} (h : ts.map Token.lexeme = ts'.map Token.lexeme) :
    List.Forall₂ SameWord ts ts' := by
  rw [← List.forall₂_eq_eq_eq, List.forall₂_map_left_iff, List.forall₂_map_right_iff] at h
  exact h

theorem unlocated_failure {e e' : ReadError} (h : ErrorAlike SameFault e e')
    (source source' : Option String) :
    (e.failure source).unlocated = (e'.failure source').unlocated := by
  cases h with
  | grammar hfault => exact congrArg (fun fault => Failure.error (.grammar fault) .unknown) hfault
  | oversized digits => rfl

/-! ## Taking forms -/

theorem evaluative_alike [Machine] : Evaluative fun act => act.Alike act where
  pure := alike_pure
  fault _ := alike_throw rfl
  depthExceeded := alike_throw rfl
  bind hact hf := hact.bind hf
  lookup := Environment.alike_lookup
  function := Environment.alike_function
  note notice := Environment.alike_note notice notice
  binding room pairs hbody := Environment.alike_binding hbody (Machine.kept room) pairs

namespace Session

theorem alike_evaluateExpr [Machine] (e : Expr) : (evaluateExpr e).Alike (evaluateExpr e) := by
  rw [evaluateExpr]
  have hvalue := evaluative_alike.evaluate Machine.calls e
  cases e.display 0 with
  | ok lines => exact (Environment.alike_note _ _).bind fun _ => hvalue
  | error part => exact (alike_throw rfl).bind fun _ => hvalue

/-- Where a definition stands only enters the place of a failure. -/
theorem alike_defineAt (source source' : String) (start start' : Token) (e : Expr) :
    (defineAt source start e).Alike (defineAt source' start' e) := by
  intro env env' henv
  have h := Environment.alike_define e env env' henv
  rw [defineAt, defineAt]
  generalize Environment.define e env = result, Environment.define e env' = result' at h
  cases h with
  | ok hafter => exact .ok hafter
  | @error failure failure' _ _ hfailure hafter =>
    cases failure <;> cases failure' <;> cases hfailure <;> exact .error rfl hafter

theorem alike_loadForm (source source' : String) (start start' : Token) (e : Expr) :
    (loadForm source start e).Alike (loadForm source' start' e) := by
  cases e with
  | define f params body =>
    exact (alike_defineAt source source' start start' _).bind fun _ => alike_pure _
  | _ => exact fun env env' henv => .error rfl henv

theorem alike_takeForms {α : Type} {R : Token → Token → Prop}
    {act act' : Token → Expr → Action (List α)}
    (hact : ∀ t t' e, R t t' → (act t e).Alike (act' t' e))
    {forms forms' : List (Token × Expr)} (h : FormsAlike R forms forms') :
    (takeForms act forms).Alike (takeForms act' forms') := by
  induction h with
  | nil => exact alike_pure _
  | @cons form form' forms forms' hform _ ih =>
    obtain ⟨t, e⟩ := form
    obtain ⟨t', e'⟩ := form'
    obtain ⟨ht, rfl⟩ := hform
    refine (hact t t' e ht).bind fun results => ?_
    exact ih.bind fun later => alike_pure _

/-- The tokens of texts with the same words are the same words, or both texts are refused for the
same character. -/
theorem tokens_of_wordsOf {source source' : String} (h : wordsOf source = wordsOf source') :
    (∃ ts ts', tokens (blankComments source) = .ok ts ∧ tokens (blankComments source') = .ok ts' ∧
        List.Forall₂ SameWord ts ts') ∨
      ∃ failure failure', tokens (blankComments source) = .error failure ∧
        tokens (blankComments source') = .error failure' ∧
        failure.unlocated = failure'.unlocated := by
  rw [← words_blankComments, ← words_blankComments, words, words] at h
  rw [tokens, tokens, tokenize, tokenize]
  generalize lex 0 (blankComments source).toList = result,
    lex 0 (blankComments source').toList = result' at h
  rcases result with bad | ts <;> rcases result' with bad' | ts'
  · refine .inr ⟨_, _, rfl, rfl, ?_⟩
    exact congrArg (fun c => Failure.error (.illegalCharacter c) .unknown) (Except.error.inj h)
  · cases h
  · cases h
  · exact .inl ⟨ts, ts', rfl, rfl, forall₂_sameWord (Except.ok.inj h)⟩

theorem alike_takeText {α : Type} {source source' : String}
    {act : String → Token → Expr → Action (List α)}
    (hact : ∀ s s' t t' e, SameWord t t' → (act s t e).Alike (act s' t' e))
    (h : wordsOf source = wordsOf source') :
    (takeText source act).Alike (takeText source' act) := by
  rw [takeText, takeText]
  rcases tokens_of_wordsOf h with ⟨ts, ts', hts, hts', halike⟩ |
    ⟨failure, failure', hts, hts', hfailure⟩
  · obtain ⟨hforms, hfault⟩ := alike_readForms likeness_sameWord halike
    simp only [hts, hts']
    refine (Environment.alike_note _ _).bind fun _ => ?_
    refine (alike_takeForms (fun t t' e => hact _ _ t t' e) hforms).bind fun results => ?_
    generalize (readForms ts).2 = fault, (readForms ts').2 = fault' at hfault
    cases hfault with
    | none => exact alike_pure results
    | some hfault => exact alike_throw (unlocated_failure hfault _ _)
  · simp only [hts, hts']
    exact alike_throw hfailure

variable [Machine]

theorem alike_executeForm (source source' : String) (start start' : Token) (e : Expr) :
    (executeForm source start e).Alike (executeForm source' start' e) := by
  cases e with
  | define f params body =>
    exact (alike_defineAt source source' start start' _).bind fun _ => alike_pure _
  | _ => exact (alike_evaluateExpr _).bind fun _ => alike_pure _

/-- Texts with the same words are executed alike. -/
theorem alike_execute {source source' : String} (h : wordsOf source = wordsOf source') :
    (execute source).Alike (execute source') :=
  @alike_takeText _ source source' executeForm
    (fun s s' t t' e _ => alike_executeForm s s' t t' e) h

/-- An empty text is executed and nothing happens. -/
theorem execute_empty (env : Environment) :
    execute "" env = .ok [] { env with notices := .tokens [] :: env.notices } := by
  have htokenize : tokenize (blankComments "") = .ok [] := lex_nil 0
  have htokens : tokens (blankComments "") = .ok [] := by rw [tokens, htokenize]
  simp only [execute, takeText, htokens, readForms]
  rfl

end Session

end DynLisp
