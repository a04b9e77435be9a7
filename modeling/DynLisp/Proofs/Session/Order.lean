import Mathlib.Data.List.Perm.Basic
import DynLisp.Proofs.Session.Likeness
import DynLisp.Proofs.Session.Program

/-!
# The order of definitions

Texts each of which consists of one definition are, joined by newlines, a text of these definitions:
the newline ends the last word of a text, and none of them can hold a comment
(`definesAll_intercalate`).  A run asks for the functions by their names only.  So the texts may be
joined in any order: if the names are different then the outcome is the same, and if two of them are
the same then the text is refused in every order (`runProgram_perm`).
-/

namespace DynLisp

open DynLisp.Action

/-! ## Joined texts -/

/-- The words of tokens decide which expressions they read as. -/
theorem readAs_of_sameWord {us us' : List Token} {es : List Expr}
    (hlex : ∀ t ∈ us, t.IsLexical) (hlex' : ∀ t ∈ us', t.IsLexical)
    (hus : List.Forall₂ SameWord us us') (h : ReadAs us es) : ReadAs us' es := by
  obtain ⟨hnone, hforms⟩ := (readForms_iff hlex).2 h
  obtain ⟨halike, hfault⟩ := alike_readForms likeness_sameWord hus
  rw [hnone] at hfault
  refine (readForms_iff hlex').1 ⟨?_, ?_⟩
  · cases hfault' : (readForms us').2 with
    | none => rfl
    | some e =>
      rw [hfault'] at hfault
      cases hfault
  · rw [← hforms]
    exact halike.map_snd_eq.symm

/-- Each text consists of the definition of one function. -/
def DefineEach (texts : List String) (functions : List (String × Definition)) : Prop :=
  List.Forall₂ (fun text f => parse text = .ok (defining f)) texts functions

theorem DefineEach.exists_words {texts : List String} {functions : List (String × Definition)}
    (h : DefineEach texts functions) :
    ∃ us, (∀ t ∈ us, t.IsLexical) ∧ ReadAs us (functions.map defining) ∧
      wordsOf ("\n".intercalate texts) = .ok (us.map Token.lexeme) := by
  induction h with
  | nil => exact ⟨[], nofun, .nil, by rw [String.intercalate_nil, wordsOf_empty]; rfl⟩
  | @cons text f texts functions hparse _ ih =>
    obtain ⟨ts, htokenize, hd, hconv⟩ := parse_eq_ok_iff.1 hparse
    obtain ⟨us, hlex, hreads, hwords⟩ := ih
    refine ⟨ts ++ us, List.forall_mem_append.2 ⟨isLexical_of_mem_tokenize htokenize, hlex⟩,
      .cons hd hconv hreads, ?_⟩
    rw [wordsOf_intercalate_cons, wordsOf_of_tokenize htokenize, hwords, List.map_append]
    rfl

/-- Texts of one definition each are a text of these definitions when they are joined. -/
theorem DefineEach.definesAll_intercalate {texts : List String}
    {functions : List (String × Definition)} (h : DefineEach texts functions) :
    DefinesAll ("\n".intercalate texts) functions := by
  obtain ⟨us, hlex, hreads, hwords⟩ := h.exists_words
  obtain ⟨ts, htokenize, hlexemes⟩ := tokenize_of_wordsOf hwords
  exact ⟨ts, htokenize, readAs_of_sameWord hlex (isLexical_of_mem_tokenize htokenize)
    (forall₂_sameWord hlexemes.symm) hreads⟩

/-! ## Texts of the same definitions -/

theorem defining_injective : Function.Injective defining := by
  rintro ⟨f, params, body⟩ ⟨f', params', body'⟩ h
  obtain ⟨rfl, rfl, rfl⟩ := Expr.define.inj h
  rfl

/-- A text is one sequence of definitions only. -/
theorem DefinesAll.unique {source : String} {functions functions' : List (String × Definition)}
    (h : DefinesAll source functions) (h' : DefinesAll source functions') :
    functions = functions' := by
  rw [definesAll_iff] at h h'
  have hpair := Except.ok.inj (h.symm.trans h')
  exact List.map_injective_iff.2 defining_injective (Prod.mk.inj hpair).2

/-- Texts that define the same functions, in whatever order, run alike. -/
theorem outcome_runProgram_perm [Machine] {source source' : String}
    {functions functions' : List (String × Definition)} (h : DefinesAll source functions)
    (h' : DefinesAll source' functions') (hperm : functions.Perm functions')
    (hdistinct : (functions.map Prod.fst).Nodup) :
    (runProgram source').outcome .empty = (runProgram source).outcome .empty := by
  rw [h.outcome_runProgram hdistinct,
    h'.outcome_runProgram ((hperm.map Prod.fst).nodup_iff.1 hdistinct)]
  exact Session.outcome_run_congr rfl fun f => (Environment.lookup_perm hperm hdistinct f).symm

/-- Definitions of functions two of which have the same name are refused. -/
theorem kind_of_not_distinct [Machine] {source : String} {functions : List (String × Definition)}
    (h : DefinesAll source functions) (hdistinct : ¬ (functions.map Prod.fst).Nodup) :
    ∃ failure, (runProgram source).outcome .empty = .error failure ∧
      failure.kind? = some .grammar := by
  have hprogram : ¬ ∃ functions' body, IsProgram source functions' body := by
    rintro ⟨functions', body, hprogram⟩
    obtain rfl := h.unique hprogram.defines
    exact hdistinct hprogram.distinct
  obtain ⟨failure, env, hrun, hrefused, -⟩ := exists_refusal hprogram
  obtain ⟨ts, htokenize, hreads⟩ := h
  have htokens : tokens (blankComments source) = .ok ts := tokens_eq_ok_iff.2 htokenize
  refine ⟨failure, outcome_of_error hrun, ?_⟩
  rcases hrefused with hlexical | hkind | hexceeds
  · cases htokens.symm.trans hlexical
  · exact hkind
  · cases hexceeds with
    | intro hmem _ hconv =>
      obtain ⟨ts', htokens', hmem⟩ := hmem
      obtain rfl := Except.ok.inj (htokens.symm.trans htokens')
      exact absurd (hreads.convertible _ hmem) hconv

/-- **The order of definitions does not matter.**  If each of some texts consists of the definition
of one function, then the program that they are, joined by newlines, ends in the same value or
failure in whatever order they are joined, as long as the names of the functions are different; and
if two names are the same then it is refused for its grammar in every order. -/
theorem runProgram_perm [Machine] (texts texts' : List String)
    (functions : List (String × Definition)) (hdefine : DefineEach texts functions)
    (hperm : texts.Perm texts') :
    ((functions.map Prod.fst).Nodup →
      (runProgram ("\n".intercalate texts')).outcome .empty =
        (runProgram ("\n".intercalate texts)).outcome .empty) ∧
    (¬ (functions.map Prod.fst).Nodup →
      ∀ joined ∈ ["\n".intercalate texts, "\n".intercalate texts'],
        ∃ failure, (runProgram joined).outcome .empty = .error failure ∧
          failure.kind? = some .grammar) := by
  obtain ⟨functions', hdefine', hperm'⟩ := List.perm_comp_forall₂ hperm.symm hdefine
  have hall := hdefine.definesAll_intercalate
  have hall' := DefineEach.definesAll_intercalate hdefine'
  refine ⟨fun hdistinct => outcome_runProgram_perm hall hall' hperm'.symm hdistinct,
    fun hdistinct => ?_⟩
  have hdistinct' : ¬ (functions'.map Prod.fst).Nodup :=
    mt (hperm'.map Prod.fst).nodup_iff.1 hdistinct
  exact List.forall_mem_cons.2 ⟨kind_of_not_distinct hall hdistinct,
    List.forall_mem_singleton.2 (kind_of_not_distinct hall' hdistinct')⟩

/-- Two functions that call each other, before and after the function that calls one of them, and
two functions of one name. -/
theorem runProgram_perm_mutual :
    let _ : Machine := .ofCalls 5
    let main := "(define (main) (even 3))"
    let even := "(define (even n) (cond ((< n 1) true) (true (odd (- n 1)))))"
    let odd := "(define (odd n)\n  [cond ((< n 1) false) (true (even (- n 1)))])"
    let other := "(define (even) true)"
    (runProgram ("\n".intercalate [main, even, odd])).outcome .empty = .ok (.boolean false) ∧
      (runProgram ("\n".intercalate [odd, even, main])).outcome .empty = .ok (.boolean false) ∧
      ∃ failure, (runProgram ("\n".intercalate [other, main, even])).outcome .empty =
          .error failure ∧ failure.kind? = some .grammar := by
  intro _ main even odd other
  let step (atZero : Bool) (f : String) : Definition :=
    ⟨["n"], .cond [(.compare .less (.var "n") (.number 1), .boolean atZero),
      (.boolean true, .call f [.arith .sub (.var "n") (.number 1)])]⟩
  have hmain : parse main = .ok (defining ("main", ⟨[], .call "even" [.number 3]⟩)) := by
    decide +kernel
  have heven : parse even = .ok (defining ("even", step true "odd")) := by decide +kernel
  have hodd : parse odd = .ok (defining ("odd", step false "even")) := by decide +kernel
  have hother : parse other = .ok (defining ("even", ⟨[], .boolean true⟩)) := by decide +kernel
  have hdefine : DefineEach [main, even, odd] [("main", ⟨[], .call "even" [.number 3]⟩),
      ("even", step true "odd"), ("odd", step false "even")] :=
    .cons hmain (.cons heven (.cons hodd .nil))
  have hout : (runProgram ("\n".intercalate [main, even, odd])).outcome .empty =
      .ok (.boolean false) := by
    rw [hdefine.definesAll_intercalate.outcome_runProgram (by decide)]
    decide +kernel
  have hsame := (runProgram_perm [main, even, odd] [odd, even, main] _ hdefine
    (List.reverse_perm _).symm).1 (by decide)
  have hrefused := (runProgram_perm [even, main, other] [other, main, even] _
    (.cons heven (.cons hmain (.cons hother .nil))) (List.reverse_perm _).symm).2 (by decide)
  exact ⟨hout, hsame.trans hout, hrefused _ (List.mem_cons_of_mem _ List.mem_cons_self)⟩

end DynLisp
