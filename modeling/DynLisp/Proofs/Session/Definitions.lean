import DynLisp.Proofs.Session.Forms

/-!
# Texts of definitions

A text is loaded without a failure exactly when its tokens are definitions of functions all of whose
names are new and different (`Session.load_of_definesAll`, `Session.definesAll_of_load`), and can be
read as such.  It leaves
the functions in the order of their definitions, after those that there were, and changes no
bindings.
-/

namespace DynLisp

open DynLisp.Action

/-! ## Loading definitions -/

/-- The form that defines a function. -/
def defining (f : String × Definition) : Expr := .define f.1 f.2.params f.2.body

/-- A text reads as a sequence of definitions of functions, apart from comments. -/
def DefinesAll (source : String) (functions : List (String × Definition)) : Prop :=
  ∃ ts, tokenize (blankComments source) = .ok ts ∧ ReadAs ts (functions.map defining)

/-- Whether a text is a sequence of definitions can be read off its forms. -/
theorem definesAll_iff {source : String} {functions : List (String × Definition)} :
    DefinesAll source functions ↔
      (tokenize (blankComments source)).map
          (fun ts => ((readForms ts).2, (readForms ts).1.map Prod.snd)) =
        .ok (none, functions.map defining) := by
  rw [Except.map_eq_ok_iff]
  refine exists_congr fun ts => and_congr_right fun htokenize => ?_
  rw [← readForms_iff (isLexical_of_mem_tokenize htokenize), Prod.mk.injEq]

instance (source : String) (functions : List (String × Definition)) :
    Decidable (DefinesAll source functions) := decidable_of_iff _ definesAll_iff.symm

namespace Session

theorem loadForm_of_none {source : String} {start : Token} {f : String × Definition}
    {env : Environment} (h : env.functions.lookup f.1 = none) :
    loadForm source start (defining f) env =
      .ok [] ((env.withFunction f.1 f.2).noted (.defined f.1 f.2.params)) := by
  rw [defining, loadForm]
  exact run_bind_of_ok _ (defineAt_of_none h)

/-- A form that is loaded without a failure defines a new function. -/
theorem exists_of_loadForm {source : String} {start : Token} {e : Expr} {env env' : Environment}
    {results : List Unit} (h : loadForm source start e env = .ok results env') :
    ∃ f, e = defining f ∧ env.functions.lookup f.1 = none ∧
      env' = (env.withFunction f.1 f.2).noted (.defined f.1 f.2.params) := by
  cases e with
  | define f params body =>
    refine ⟨(f, ⟨params, body⟩), rfl, ?_⟩
    by_cases hf : env.functions.lookup f = none
    · have hrun := @loadForm_of_none source start (f, ⟨params, body⟩) env hf
      exact ⟨hf, (EStateM.Result.ok.inj (h.symm.trans hrun)).2⟩
    · have hrun : loadForm source start (.define f params body) env = _ :=
        run_bind_of_error _ (defineAt_of_defined hf)
      cases hrun.symm.trans h
  | _ => cases h

/-- Definitions of functions with new and different names are taken. -/
theorem takeForms_loadForm {source : String} {functions : List (String × Definition)}
    {forms : List (Token × Expr)} {env : Environment}
    (hforms : forms.map Prod.snd = functions.map defining)
    (hnames : ((env.functions ++ functions).map Prod.fst).Nodup) :
    ∃ results env', takeForms (loadForm source) forms env = .ok results env' ∧
      env'.functions = env.functions ++ functions ∧ env'.bindings = env.bindings := by
  induction functions generalizing forms env with
  | nil =>
    obtain rfl := List.map_eq_nil_iff.1 hforms
    exact ⟨[], env, rfl, (List.append_nil _).symm, rfl⟩
  | cons f functions ih =>
    obtain ⟨⟨start, e⟩, forms, rfl, he, hrest⟩ := List.map_eq_cons_iff.1 hforms
    obtain rfl : e = defining f := he
    have hf : env.functions.lookup f.1 = none := by
      rw [Environment.lookup_eq_none_iff]
      rw [List.map_append, List.map_cons, List.nodup_append] at hnames
      exact fun hmem => hnames.2.2 _ hmem _ List.mem_cons_self rfl
    rw [List.append_cons] at hnames
    obtain ⟨results, env', hrun, hfunctions, hbindings⟩ :=
      @ih forms ((env.withFunction f.1 f.2).noted (.defined f.1 f.2.params)) hrest hnames
    refine ⟨[] ++ results, env', ?_, ?_, hbindings⟩
    · rw [takeForms]
      exact (run_bind_of_ok _ (loadForm_of_none hf)).trans (run_bind_of_ok _ hrun)
    · rw [hfunctions, List.append_cons]
      rfl

/-- Forms that are taken without a failure define functions with new and different names. -/
theorem exists_of_takeForms_loadForm {source : String} {forms : List (Token × Expr)}
    {env env' : Environment} {results : List Unit}
    (h : takeForms (loadForm source) forms env = .ok results env')
    (hnames : (env.functions.map Prod.fst).Nodup) :
    ∃ functions, forms.map Prod.snd = functions.map defining ∧
      ((env.functions ++ functions).map Prod.fst).Nodup := by
  induction forms generalizing env env' results with
  | nil => exact ⟨[], rfl, by rwa [List.append_nil]⟩
  | cons form forms ih =>
    obtain ⟨start, e⟩ := form
    rw [takeForms] at h
    obtain ⟨_, env₁, hform, h⟩ := run_bind_eq_ok h
    obtain ⟨_, _, hlater, -⟩ := run_bind_eq_ok h
    obtain ⟨f, rfl, hf, rfl⟩ := exists_of_loadForm hform
    have hnames' : ((env.functions ++ [f]).map Prod.fst).Nodup := by
      rw [List.map_append, List.nodup_append]
      refine ⟨hnames, List.nodup_singleton _, fun x hx y hy => ?_⟩
      rw [List.mem_singleton.1 hy]
      rintro rfl
      exact Environment.lookup_eq_none_iff.1 hf hx
    obtain ⟨functions, hforms, hdistinct⟩ :=
      @ih ((env.withFunction f.1 f.2).noted (.defined f.1 f.2.params)) _ _ hlater hnames'
    refine ⟨f :: functions, ?_, ?_⟩
    · rw [List.map_cons, List.map_cons, hforms]
    · rw [List.append_cons]
      exact hdistinct

/-- A text of definitions of new and different functions is loaded, and adds these functions. -/
theorem load_of_definesAll {source : String} {functions : List (String × Definition)}
    {env : Environment} (h : DefinesAll source functions)
    (hnames : ((env.functions ++ functions).map Prod.fst).Nodup) :
    ∃ env', load source env = .ok () env' ∧ env'.functions = env.functions ++ functions ∧
      env'.bindings = env.bindings := by
  obtain ⟨ts, htokenize, hreads⟩ := h
  obtain ⟨hnone, hforms⟩ := (readForms_iff (isLexical_of_mem_tokenize htokenize)).2 hreads
  have htokens : tokens (blankComments source) = .ok ts := tokens_eq_ok_iff.2 htokenize
  obtain ⟨results, env', hrun, hfunctions, hbindings⟩ :=
    @takeForms_loadForm (blankComments source) _ _ (env.noted (.tokens ts)) hforms hnames
  refine ⟨env', ?_, hfunctions, hbindings⟩
  have htext : takeText source loadForm env = .ok results env' := by
    rw [takeText_run htokens, hnone]
    exact run_bind_of_ok _ hrun
  rw [load_eq, discard_eq]
  exact run_bind_of_ok _ htext

/-- A text that is loaded without a failure is one of definitions of new and different functions. -/
theorem definesAll_of_load {source : String} {env env' : Environment}
    (h : load source env = .ok () env') (hnames : (env.functions.map Prod.fst).Nodup) :
    ∃ functions, DefinesAll source functions ∧
      ((env.functions ++ functions).map Prod.fst).Nodup ∧
      env'.functions = env.functions ++ functions ∧ env'.bindings = env.bindings := by
  have hload := h
  rw [load_eq, discard_eq] at h
  obtain ⟨results, env₁, htext, -⟩ := run_bind_eq_ok h
  obtain ⟨ts, htokens, hnone⟩ := exists_tokens_of_takeText htext
  rw [takeText_run htokens] at htext
  obtain ⟨_, env₂, hforms, -⟩ := run_bind_eq_ok htext
  obtain ⟨functions, hmap, hdistinct⟩ := exists_of_takeForms_loadForm hforms hnames
  have hreads := (readForms_iff (isLexical_of_mem_tokens htokens)).1 ⟨hnone, hmap⟩
  have hdefines : DefinesAll source functions := ⟨ts, tokens_eq_ok_iff.1 htokens, hreads⟩
  obtain ⟨env₃, hrun, hfunctions, hbindings⟩ := @load_of_definesAll _ _ env hdefines hdistinct
  obtain ⟨-, rfl⟩ := EStateM.Result.ok.inj (hrun.symm.trans hload)
  exact ⟨functions, hdefines, hdistinct, hfunctions, hbindings⟩

end Session

end DynLisp
