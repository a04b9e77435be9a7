import DynLisp.Proofs.Session.Forms
import DynLisp.Proofs.Session.Likeness

/-!
# Joined texts

Two texts are joined by a newline, which ends the last word of the first and the comment that it may
end in.  So the words of the join are those of the one and then those of the other, and if the first
text is read to its end then the forms of the join are those of both (`readForms_append`).  Taking
them goes as it does text by text, up to places and notices (`Session.alike_takeText_join`).

The exception is a second text that does not cut into tokens.  The lexer meets what is wrong with it
before the first text is taken (`Session.execute_join`).
-/

namespace DynLisp

open DynLisp.Action

/-! ## Words -/

/-- The words of a text are its tokens, as far as they are words. -/
theorem wordsOf_eq (s : String) : wordsOf s = forgetOffsets (tokenize (blankComments s)) := by
  rw [← words_blankComments, words, tokenize]

theorem wordsOf_of_tokens {s : String} {ts : List Token}
    (h : tokens (blankComments s) = .ok ts) : wordsOf s = .ok (ts.map Token.lexeme) := by
  rw [wordsOf_eq, tokens_eq_ok_iff.1 h]
  rfl

theorem exists_wordsOf_of_tokens {s : String} {failure : Failure}
    (h : tokens (blankComments s) = .error failure) : ∃ c, wordsOf s = .error c := by
  rw [wordsOf_eq]
  cases htokenize : tokenize (blankComments s) with
  | ok ts => cases h.symm.trans (tokens_eq_ok_iff.2 htokenize)
  | error bad => exact ⟨bad.char, rfl⟩

/-- The tokens of joined texts are the words of the one and then those of the other. -/
theorem tokens_join {s₁ s₂ : String} {ts₁ ts₂ : List Token}
    (h₁ : tokens (blankComments s₁) = .ok ts₁) (h₂ : tokens (blankComments s₂) = .ok ts₂) :
    ∃ ts, tokens (blankComments (s₁ ++ "\n" ++ s₂)) = .ok ts ∧
      List.Forall₂ SameWord ts (ts₁ ++ ts₂) := by
  have hwords : wordsOf (s₁ ++ "\n" ++ s₂) = .ok ((ts₁ ++ ts₂).map Token.lexeme) := by
    rw [wordsOf_join, wordsOf_of_tokens h₁, wordsOf_of_tokens h₂, List.map_append]
    rfl
  obtain ⟨ts, htokenize, hlexemes⟩ := tokenize_of_wordsOf hwords
  exact ⟨ts, tokens_eq_ok_iff.2 htokenize, forall₂_sameWord hlexemes⟩

/-- The forms of joined texts are those of the one, which is read to its end, and then those of the
other. -/
theorem readForms_join {ts ts₁ ts₂ : List Token} (hlex : ∀ t ∈ ts₁ ++ ts₂, t.IsLexical)
    (hts : List.Forall₂ SameWord ts (ts₁ ++ ts₂)) (hnone : (readForms ts₁).2 = none) :
    ∃ forms₁ forms₂, (readForms ts).1 = forms₁ ++ forms₂ ∧
      FormsAlike SameWord forms₁ (readForms ts₁).1 ∧
      FormsAlike SameWord forms₂ (readForms ts₂).1 ∧
      Option.Rel (Parser.ErrorAlike SameFault) (readForms ts).2 (readForms ts₂).2 := by
  have hseq := (readForms_iff (List.forall_mem_append.1 hlex).1).1 ⟨hnone, rfl⟩
  obtain ⟨hforms, hfault⟩ := alike_readForms likeness_sameWord hts
  rw [readForms_append hseq hlex] at hforms hfault
  exact ⟨_, _, (List.take_append_drop _ _).symm, List.forall₂_take_append _ _ _ hforms,
    List.forall₂_drop_append _ _ _ hforms, hfault⟩

namespace Session

/-! ## Taking joined texts -/

/-- Notices that are given in between make no difference. -/
theorem Alike.note_bind {α : Type} {act act' : Action α} (h : act.Alike act') (notice : Notice) :
    Action.Alike act (Environment.note notice >>= fun _ => act') :=
  fun env _ henv => h env _ ⟨henv.bindings, henv.functions⟩

/-- A text that is read to its end and another one that cuts into tokens are taken, when they are
joined, as they are one after the other. -/
theorem alike_takeText_join {α : Type} {s₁ s₂ : String} {ts₁ ts₂ : List Token}
    {act : String → Token → Expr → Action (List α)}
    (hact : ∀ s s' t t' e, SameWord t t' → (act s t e).Alike (act s' t' e))
    (h₁ : tokens (blankComments s₁) = .ok ts₁) (hnone : (readForms ts₁).2 = none)
    (h₂ : tokens (blankComments s₂) = .ok ts₂) :
    (takeText (s₁ ++ "\n" ++ s₂) act).Alike (do
      let results ← takeText s₁ act
      return results ++ (← takeText s₂ act)) := by
  have hlex : ∀ t ∈ ts₁ ++ ts₂, t.IsLexical :=
    List.forall_mem_append.2 ⟨isLexical_of_mem_tokens h₁, isLexical_of_mem_tokens h₂⟩
  obtain ⟨ts, h, hts⟩ := tokens_join h₁ h₂
  obtain ⟨forms₁, forms₂, hforms, hforms₁, hforms₂, hfault⟩ := readForms_join hlex hts hnone
  rw [takeText, takeText, takeText]
  simp only [h, h₁, h₂, hnone, hforms, takeForms_append, bind_assoc, pure_bind]
  refine (Environment.alike_note _ _).bind fun _ => ?_
  refine (alike_takeForms (fun t t' e => hact _ _ t t' e) hforms₁).bind fun results => ?_
  refine Alike.note_bind ?_ _
  refine (alike_takeForms (fun t t' e => hact _ _ t t' e) hforms₂).bind fun later => ?_
  generalize (readForms ts).2 = fault, (readForms ts₂).2 = fault' at hfault
  cases hfault with
  | none => exact alike_pure _
  | some hfault => exact fun env env' henv => .error (unlocated_failure hfault _ _) henv

/-- **To execute joined texts is to execute one after the other.**  After a text that is executed
with some values, another one that cuts into tokens adds its values to these, or its failure is that
of the join up to its place; and the bindings and functions that are left are the same.  If the
other text does not cut into tokens, then neither does the join, and nothing happens. -/
theorem execute_join [Machine] {s₁ s₂ : String} {env env₁ : Environment} {vs : List Value}
    (h : execute s₁ env = .ok vs env₁) :
    (∀ ts, tokens (blankComments s₂) = .ok ts →
      (∀ ws, (execute s₂).outcome env₁ = .ok ws →
        (execute (s₁ ++ "\n" ++ s₂)).outcome env = .ok (vs ++ ws)) ∧
      (∀ failure, (execute s₂).outcome env₁ = .error failure →
        ∃ failure', (execute (s₁ ++ "\n" ++ s₂)).outcome env = .error failure' ∧
          failure'.unlocated = failure.unlocated) ∧
      ((execute (s₁ ++ "\n" ++ s₂)).after env).Same ((execute s₂).after env₁)) ∧
    ∀ failure, tokens (blankComments s₂) = .error failure →
      ∃ failure', execute (s₁ ++ "\n" ++ s₂) env = .error failure' env ∧
        failure'.kind? = some .lexical ∧ failure'.unlocated = failure.unlocated := by
  obtain ⟨ts₁, h₁, hnone⟩ := exists_tokens_of_takeText h
  constructor
  · intro ts h₂
    have hjoin : (execute (s₁ ++ "\n" ++ s₂)).Alike
        (do return (← execute s₁) ++ (← execute s₂)) :=
      alike_takeText_join (fun s s' t t' e _ => alike_executeForm s s' t t' e) h₁ hnone h₂
    have henv : env.Same env := ⟨rfl, rfl⟩
    refine ⟨fun ws hws => ?_, fun failure hfailure => ?_, ?_⟩
    · refine hjoin.outcome_eq_ok henv ((outcome_bind_of_ok _ h).trans ?_)
      exact outcome_bind_of_ok _ (run_of_outcome_eq_ok hws)
    · refine hjoin.exists_outcome_eq_error henv ((outcome_bind_of_ok _ h).trans ?_)
      exact outcome_bind_eq_error_iff.2 (.inl hfailure)
    · have hsame := hjoin.same_after henv
      rw [after_bind_of_ok _ h, after_bind] at hsame
      cases hout : (execute s₂).outcome env₁ with
      | ok ws =>
        rw [hout] at hsame
        exact hsame
      | error failure =>
        rw [hout] at hsame
        exact hsame
  · intro failure h₂
    have hwords : wordsOf (s₁ ++ "\n" ++ s₂) = wordsOf s₂ := by
      rw [wordsOf_join, wordsOf_of_tokens h₁]
      obtain ⟨c, hc⟩ := exists_wordsOf_of_tokens h₂
      rw [hc]
      rfl
    rcases tokens_of_wordsOf hwords with ⟨_, ts, -, hts, -⟩ | ⟨failure', _, h, hts, hfailure⟩
    · cases hts.symm.trans h₂
    · obtain rfl := Except.error.inj (hts.symm.trans h₂)
      refine ⟨failure', ?_, kind_of_tokens h, hfailure⟩
      rw [execute_eq, takeText, h]
      rfl

/-- A text that ends in a comment and defines `f`, joined with calls of `f`, with a call that fails,
and with a text that does not cut into tokens. -/
theorem execute_join_calls :
    let _ : Machine := .ofCalls 1
    let first := "(define (f x) (/ 6 x)) (f 3) ; ("
    let env := (execute first).after .empty
    let division : Failure := (Fault.arithmetic (.divisionByZero 6)).failure
    execute first .empty = .ok [.number 2] env ∧
      (∃ ts, tokens (blankComments "(f 2) (f 6)") = .ok ts) ∧
      (execute "(f 2) (f 6)").outcome env = .ok [.number 3, .number 1] ∧
      (execute (first ++ "\n" ++ "(f 2) (f 6)")).outcome .empty =
        .ok [.number 2, .number 3, .number 1] ∧
      (execute "(f 0) (f 1)").outcome env = .error division ∧
      (∃ failure, (execute (first ++ "\n" ++ "(f 0) (f 1)")).outcome .empty = .error failure ∧
        failure.unlocated = division.unlocated) ∧
      ∃ failure, execute (first ++ "\n" ++ "(f 1) $") .empty = .error failure .empty ∧
        failure.kind? = some .lexical := by
  intro _ first env division
  have hfirst : (execute first).outcome .empty = .ok [.number 2] := by decide +kernel
  have hcut : (tokens (blankComments "(f 2) (f 6)")).map (fun _ => ()) = .ok () := by
    decide +kernel
  have hcut' : (tokens (blankComments "(f 0) (f 1)")).map (fun _ => ()) = .ok () := by
    decide +kernel
  obtain ⟨ts, htokens, -⟩ := Except.map_eq_ok_iff.1 hcut
  obtain ⟨ts', htokens', -⟩ := Except.map_eq_ok_iff.1 hcut'
  have hrefused : tokens (blankComments "(f 1) $") =
      .error (.error (.illegalCharacter '$') ⟨some "(f 1) $", some 6, some 7⟩) := by
    decide +kernel
  have hvalues : (execute "(f 2) (f 6)").outcome env = .ok [.number 3, .number 1] := by
    decide +kernel
  have hfails : (execute "(f 0) (f 1)").outcome env = .error division := by decide +kernel
  have hrun := run_of_outcome_eq_ok hfirst
  obtain ⟨failure, hjoin, hkind, -⟩ := (execute_join hrun).2 _ hrefused
  exact ⟨hrun, ⟨ts, htokens⟩, hvalues, ((execute_join hrun).1 ts htokens).1 _ hvalues, hfails,
    ((execute_join hrun).1 ts' htokens').2.1 _ hfails, failure, hjoin, hkind⟩

end Session

end DynLisp
