import DynLisp.Proofs.Lexing.Comments
import DynLisp.Proofs.Parser.Blame
import DynLisp.Proofs.Session.Midway

/-!
# Where failures lie

What is wrong with a text itself is found before or between the forms that are taken, and there are
four ways (`Session.TextFault`): a character starts no token, the tokens that are left read as no
form, a form is no definition where only definitions may stand, and a function is defined that there
is already.  Each is located in the text with its comments blanked.  A location starts at a token,
at the character that starts none or at the end of the text less its blanks, and it covers at least
one character; nothing but the offset just after the text may be covered besides (`Marks`).

That a location lies inside the text is a matter of what it is computed from.  A place is one of the
tokens, the end of them, or a sign and the token after it (`Place.Among`), and tokens follow each
other in the text (`Cut`).  The name of a function that is defined twice stands after the token that
its definition is blamed at, so a part of its length does not reach over the end of the text.

Every other failure of a text is about a number of too many digits, or it is raised by a form that
is evaluated; both lie nowhere (`Session.textFault_or_raises_of_execute`).
-/

namespace DynLisp

open DynLisp.Action

variable {ts us : List Token} {place : Place}

/-! ## Places among tokens -/

/-- A place is one of some tokens, a token together with the sign before it, or their end. -/
inductive Place.Among (ts : List Token) : Place → Prop
  | token {t : Token} : t ∈ ts → Among ts (.token t)
  | upTo {before after : List Token} {sign t : Token} :
      ts = before ++ sign :: t :: after → Among ts (.upTo sign.offset t)
  | endOfInput : Among ts .endOfInput

theorem Place.Among.append_left (h : place.Among ts) (us : List Token) :
    place.Among (us ++ ts) := by
  cases h with
  | token ht => exact .token (List.mem_append_right us ht)
  | upTo hts => exact .upTo (by rw [hts, List.append_assoc])
  | endOfInput => exact .endOfInput

namespace Parser

open Expected

theorem among_offendingPlace (before after : List Token) (t : Token) :
    (offendingPlace before t).Among (before ++ t :: after) := by
  have ht : t ∈ before ++ t :: after := List.mem_append_cons_self
  rcases List.eq_nil_or_concat before with rfl | ⟨before, last, rfl⟩
  · exact .token ht
  · rw [List.concat_eq_append] at ht ⊢
    simp only [offendingPlace, List.getLast?_concat, List.dropLast_concat]
    split
    · exact .token (by simp)
    · split
      · have hsplit : before ++ [last] ++ t :: after = before ++ last :: t :: after := by simp
        exact .upTo hsplit
      · exact .token ht

theorem Unfinished.among (h : Unfinished ts place) : place.Among ts := by
  cases h with
  | sign hts => exact .token (by simp [hts])
  | opening hts => exact .token (by simp [hts])
  | endOfInput => exact .endOfInput

/-- What is blamed on an expectation is blamed on tokens that are there. -/
theorem among_of_blamesAt (hlex : ∀ t ∈ ts, t.IsLexical) (h : BlamesAt [.expr .any] ts place) :
    place.Among ts := by
  obtain ⟨before, after, s, rest, rfl, hmeets, -, rfl⟩ := h
  cases after with
  | nil =>
    rw [List.append_nil] at hlex ⊢
    exact (unfinished_place hlex hmeets.run).among
  | cons t after =>
    rw [place_eq_offendingPlace hmeets.run]
    exact among_offendingPlace before after t

theorem among_of_expr {left : List Token} {e : GrammarError} (hlex : ∀ t ∈ ts, t.IsLexical)
    (h : expr .any ts = .error (.grammar e) left) : e.place.Among ts := by
  have hfollows : FollowsAt [.expr .any] (fun _ => []) (expr .any) ts := followsAt_expr .any
  unfold FollowsAt at hfollows
  rw [h] at hfollows
  cases hfollows with
  | error hblame => exact among_of_blamesAt hlex hblame

end Parser

/-! ## Where the forms of a text stand -/

/-- The fault that keeps a form from being read lies among the tokens that are left. -/
theorem among_of_readForms (hlex : ∀ t ∈ ts, t.IsLexical) {fault : GrammarError}
    (h : (readForms ts).2 = some (.grammar fault)) : fault.place.Among ts := by
  fun_induction readForms ts with
  | case1 => cases h
  | case2 start later e rest hread =>
    obtain rfl := Option.some.inj h
    exact Parser.among_of_expr hlex hread
  | case3 start later e rest hread _ forms fault' hrec ih =>
    obtain ⟨us, hus, -⟩ := (Parser.expr_eq_ok_iff hlex).1 hread
    rw [hrec] at ih
    rw [hus] at hlex ⊢
    exact (ih (List.forall_mem_append.1 hlex).2 h).append_left us
  | case4 => cases h

/-- A form that is read stands after those read before it, and starts with the token that it is read
with. -/
theorem exists_of_readForms (hlex : ∀ t ∈ ts, t.IsLexical) {before later : List (Token × Expr)}
    {start : Token} {e : Expr} (h : (readForms ts).1 = before ++ (start, e) :: later) :
    ∃ us vs rest, ts = us ++ (start :: vs ++ rest) ∧
      ReadAs us (before.map Prod.snd) ∧ Derives .any (start :: vs) e := by
  have hfirst : ∀ {t : Token} {us ts rest : List Token} {e : Expr}, t :: us = ts ++ rest →
      Derives .any ts e → ∃ vs, ts = t :: vs := by
    intro t us ts rest e hus he
    obtain ⟨u, vs, rfl⟩ := List.exists_cons_of_ne_nil he.ne_nil
    obtain ⟨rfl, -⟩ := List.cons.inj hus
    exact ⟨vs, rfl⟩
  fun_induction readForms ts generalizing before with
  | case1 => cases before <;> cases h
  | case2 => cases before <;> cases h
  | case3 t us e' rest hread hle forms fault hrec ih =>
    obtain ⟨ts, hts, he, hconv⟩ := (Parser.expr_eq_ok_iff hlex).1 hread
    obtain ⟨vs, rfl⟩ := hfirst hts he
    rw [hrec] at ih
    cases before with
    | nil =>
      obtain ⟨hform, -⟩ := List.cons.inj h
      obtain ⟨rfl, rfl⟩ := Prod.mk.inj hform
      exact ⟨[], vs, rest, hts, .nil, he⟩
    | cons form before =>
      obtain ⟨rfl, hforms⟩ := List.cons.inj h
      rw [hts] at hlex ⊢
      obtain ⟨us', vs', rest', rfl, hreads, hderives⟩ :=
        ih (List.forall_mem_append.1 hlex).2 hforms
      exact ⟨t :: vs ++ us', vs', rest', (List.append_assoc ..).symm, .cons he hconv hreads,
        hderives⟩
  | case4 t us e' rest hread _ =>
    obtain ⟨ts, hts, he, hconv⟩ := (Parser.expr_eq_ok_iff hlex).1 hread
    obtain ⟨vs, rfl⟩ := hfirst hts he
    cases before with
    | nil =>
      obtain ⟨hform, -⟩ := List.cons.inj h
      obtain ⟨rfl, rfl⟩ := Prod.mk.inj hform
      exact ⟨[], vs, rest, hts, .nil, he⟩
    | cons form before => cases before <;> cases (List.cons.inj h).2

/-- The name that a definition defines stands in it, after its first token. -/
theorem Derives.exists_name {p : Position} {start : Token} {vs : List Token} {f : String}
    {params : List String} {body : Expr} (h : Derives p (start :: vs) (.define f params body)) :
    ∃ name ∈ vs, name.text = f := by
  cases h with
  | define => exact ⟨_, by simp, rfl⟩

/-! ## Parts of a text -/

/-- Where a fault of a text may start: at a token, at the character that starts none, or at the end
of the text less its blanks. -/
inductive Landmark (text : String) : Nat → Prop
  | token {ts : List Token} {t : Token} :
      tokenize text = .ok ts → t ∈ ts → Landmark text t.offset
  | character {bad : IllegalCharacter} : tokenize text = .error bad → Landmark text bad.offset
  | textEnd {ts : List Token} : tokenize text = .ok ts → Landmark text (Text.trimEnd text).length

/-- A location marks the part of a text from `start` up to and without `stop`.  The part is not
empty, and it starts at a landmark; what it covers lies in the text, apart from the offset just
after it. -/
structure Location.Marks (location : Location) (text : String) (start : Nat) (stop : Int) :
    Prop where
  eq : location = ⟨some text, some start, some stop⟩
  start_le : start ≤ text.length
  start_lt : start < stop
  stop_le : stop ≤ text.length + 1
  landmark : Landmark text start

variable {text : String}

theorem length_trimEnd_le (text : String) : (Text.trimEnd text).length ≤ text.length := by
  obtain ⟨blanks, htext, -⟩ := exists_dropBlankEnd_append text.toList
  have hlength := congrArg List.length htext
  rw [List.length_append, String.length_toList] at hlength
  rw [Text.trimEnd, ← String.length_toList, String.toList_ofList]
  omega

/-- A part that starts at a token and stops after it in the text. -/
theorem marks_of_token (h : tokenize text = .ok ts) {t : Token} (ht : t ∈ ts) {stop : Nat}
    (hlt : t.offset < stop) (hle : stop ≤ text.length) :
    Location.Marks ⟨some text, some t.offset, some stop⟩ text t.offset stop where
  eq := rfl
  start_le := by omega
  start_lt := by omega
  stop_le := by omega
  landmark := .token h ht

theorem marks_of_character {bad : IllegalCharacter} (h : tokenize text = .error bad) :
    Location.Marks ⟨some text, some bad.offset, some (bad.offset + 1)⟩ text bad.offset
      (bad.offset + 1) := by
  have hchar := (stuck_of_tokenize h).char
  obtain ⟨hlt, -⟩ := List.getElem?_eq_some_iff.1 hchar
  rw [String.length_toList] at hlt
  exact ⟨rfl, by omega, by omega, by omega, .character h⟩

/-- A place among the tokens of a text marks a part of it. -/
theorem Place.Among.marks (h : tokenize text = .ok ts) (hplace : place.Among ts) :
    ∃ start stop, (place.locate (some text)).Marks text start stop := by
  have hcut := cut_of_tokenize h
  cases hplace with
  | @token t ht =>
    obtain ⟨-, hlt, hle⟩ := hcut.within t ht
    exact ⟨_, _, marks_of_token h ht hlt hle⟩
  | @upTo before after sign t hts =>
    have hsign : sign ∈ ts := by simp [hts]
    have ht : t ∈ ts := by simp [hts]
    obtain ⟨-, hlt, -⟩ := hcut.within sign hsign
    obtain ⟨-, hlt', hle⟩ := hcut.within t ht
    -- the digits come after their sign
    have hordered : sign.stop ≤ t.offset := (hts ▸ hcut).stop_le_offset List.mem_cons_self
    exact ⟨_, _, marks_of_token h hsign (hlt.trans_le (hordered.trans hlt'.le)) hle⟩
  | endOfInput =>
    have hle := length_trimEnd_le text
    exact ⟨_, _, rfl, hle, by omega, Int.le_refl _, .textEnd h⟩

namespace Session

/-! ## What is wrong with a text -/

/-- The faults of a text that is taken in an environment which are not those of an evaluation. -/
inductive TextFault (source : String) (env : Environment) : Failure → Prop
  | character {bad : IllegalCharacter} :
      tokenize (blankComments source) = .error bad →
      TextFault source env (bad.failure (blankComments source))
  | remainder {ts : List Token} {fault : GrammarError} :
      tokenize (blankComments source) = .ok ts → (readForms ts).2 = some (.grammar fault) →
      TextFault source env (fault.failure (some (blankComments source)))
  | notDefinition {ts : List Token} {before later : List (Token × Expr)} {start : Token}
      {e : Expr} :
      tokenize (blankComments source) = .ok ts → (readForms ts).1 = before ++ (start, e) :: later →
      TextFault source env
        (.error (.notDefinition e) ((Place.token start).locate (some (blankComments source))))
  | redefinition {ts : List Token} {before later : List (Token × Expr)} {start : Token}
      {f : String} {params : List String} {body : Expr} :
      tokenize (blankComments source) = .ok ts →
      (readForms ts).1 = before ++ (start, .define f params body) :: later →
      (env.withForms (before.map Prod.snd)).functions.lookup f ≠ none →
      TextFault source env ((Fault.alreadyDefined f).failureAt (blankComments source) start.offset)

variable {source : String} {env : Environment} {failure : Failure}

section

variable {α : Type} [Machine] {act : String → Token → Expr → Action (List α)}
  {takes : Environment → Expr → Prop}

/-- A text fails for what is wrong with it or for a number of too many digits, or one of its forms
fails after those before it have been taken, and added their functions. -/
theorem textFault_or_form (P : ∀ source, Processes (act source) takes)
    (h : (takeText source act).outcome env = .error failure) :
    TextFault source env failure ∨ failure.Exceeds (Job.load source).Holds ∨
      ∃ ts before start e later env', tokenize (blankComments source) = .ok ts ∧
        (readForms ts).1 = before ++ (start, e) :: later ∧ e.WellFormed .any ∧
        env'.functions = (env.withForms (before.map Prod.snd)).functions ∧
        (act (blankComments source) start e).outcome env' = .error failure := by
  rcases takeText_fails_at h with hrefused | ⟨ts, htokens, ⟨fault, hfault, rfl⟩ | ⟨before, start, e,
    later, results, env', hforms, hbefore, hfails⟩⟩
  · obtain ⟨bad, hbad, rfl⟩ := tokens_eq_error_iff.1 hrefused
    exact .inl (.character hbad)
  · cases fault with
    | grammar fault => exact .inl (.remainder (tokens_eq_ok_iff.1 htokens) hfault)
    | oversized digits =>
      refine .inr (.inl (Failure.Exceeds.mono ?_ fun t ht => ⟨ts, htokens, ht⟩))
      refine (kind_or_exceeds_of_readForms hfault (some (blankComments source))).resolve_left ?_
      rintro ⟨⟩
  · have hwell := wellFormed_of_mem_readForms (isLexical_of_mem_tokens htokens)
    obtain ⟨hfirst, hrest⟩ := List.forall_mem_append.1 (hforms ▸ hwell)
    obtain ⟨-, hrestored⟩ := (P _).runsThrough_of_run hfirst hbefore
    refine .inr (.inr ⟨ts, before, start, e, later, env', tokens_eq_ok_iff.1 htokens, hforms,
      (List.forall_mem_cons.1 hrest).1, ?_, hfails⟩)
    rw [hrestored.functions]
    rfl

end

theorem textFault_of_define {ts : List Token} {before later : List (Token × Expr)} {start : Token}
    {f : String} {params : List String} {body : Expr} {env' : Environment}
    (htokens : tokenize (blankComments source) = .ok ts)
    (hforms : (readForms ts).1 = before ++ (start, .define f params body) :: later)
    (hfunctions : env'.functions = (env.withForms (before.map Prod.snd)).functions)
    (h : (defineAt (blankComments source) start (.define f params body)).outcome env' =
      .error failure) : TextFault source env failure := by
  by_cases hf : env'.functions.lookup f = none
  · rw [outcome_of_ok (defineAt_of_none hf)] at h
    cases h
  · rw [outcome_of_error (defineAt_of_defined hf)] at h
    obtain rfl := Except.error.inj h
    rw [hfunctions] at hf
    exact .redefinition htokens hforms hf

/-- A text that is not loaded is wrong itself, or a number in it has too many digits. -/
theorem textFault_of_load [Machine] (h : (load source).outcome env = .error failure) :
    TextFault source env failure ∨ failure.Exceeds (Job.load source).Holds := by
  rw [load_eq, discard_eq, outcome_bind_eq_error_iff] at h
  rcases h with h | ⟨_, _, -, h⟩
  · rcases textFault_or_form processes_loadForm h with hfault | hexceeds | ⟨ts, before, start, e,
      later, env', htokens, hforms, -, hfunctions, hform⟩
    · exact .inl hfault
    · exact .inr hexceeds
    · refine .inl ?_
      cases e with
      | define f params body =>
        rw [loadForm, outcome_bind_eq_error_iff] at hform
        rcases hform with hform | ⟨_, _, -, hform⟩
        · exact textFault_of_define htokens hforms hfunctions hform
        · cases hform
      | _ =>
        obtain rfl := Except.error.inj hform
        exact .notDefinition htokens hforms
  · cases h

/-- A text that is not executed is wrong itself, or a number in it has too many digits, or a form
raises the failure that is evaluated. -/
theorem textFault_or_raises_of_execute [Machine]
    (h : (execute source).outcome env = .error failure) :
    TextFault source env failure ∨ failure.Exceeds (Job.execute source).Holds ∨
      ∃ e : Expr, e.Raises failure := by
  rw [execute_eq] at h
  rcases textFault_or_form processes_executeForm h with hfault | hexceeds | ⟨ts, before, start, e,
    later, env', htokens, hforms, he, hfunctions, hform⟩
  · exact .inl hfault
  · exact .inr (.inl hexceeds)
  · by_cases hdefine : ∃ f params body, e = .define f params body
    · obtain ⟨f, params, body, rfl⟩ := hdefine
      rw [executeForm, outcome_bind_eq_error_iff] at hform
      rcases hform with hform | ⟨_, _, -, hform⟩
      · exact .inl (textFault_of_define htokens hforms hfunctions hform)
      · cases hform
    · simp only [not_exists] at hdefine
      rw [executeForm_of_ne hdefine, outcome_bind_eq_error_iff] at hform
      rcases hform with hform | ⟨_, _, -, hform⟩
      · obtain ⟨c, -, hfails⟩ := begins_of_evaluateExpr he hform
        obtain ⟨c', -, hraises, -⟩ := exists_origin hfails
        exact .inr (.inr ⟨c'.expr, hraises⟩)
      · cases hform

/-! ## Where it lies -/

/-- The name of a function that is defined again is covered from the start of its definition on. -/
theorem location_of_redefinition (f text : String) (start : Token) :
    (Fault.alreadyDefined f).failureAt text start.offset =
      .error (.alreadyDefined f)
        ⟨some text, some start.offset, some ((start.offset + max f.length 1 : Nat) : Int)⟩ := by
  rfl

/-- What is wrong with a text marks a part of it. -/
theorem TextFault.marks (h : TextFault source env failure) :
    ∃ fault location start stop, failure = .error fault location ∧
      (fault.kind = .lexical ∨ fault.kind = .grammar) ∧
      location.Marks (blankComments source) start stop := by
  cases h with
  | character hbad => exact ⟨_, _, _, _, rfl, .inl rfl, marks_of_character hbad⟩
  | remainder htokens hfault =>
    obtain ⟨start, stop, hmarks⟩ :=
      (among_of_readForms (isLexical_of_mem_tokenize htokens) hfault).marks htokens
    exact ⟨_, _, start, stop, rfl, .inr rfl, hmarks⟩
  | @notDefinition ts before later start e htokens hforms =>
    obtain ⟨us, vs, rest, hts, -⟩ :=
      exists_of_readForms (isLexical_of_mem_tokenize htokens) hforms
    have hplace : (Place.token start).Among ts := .token (by simp [hts])
    obtain ⟨start', stop, hmarks⟩ := hplace.marks htokens
    exact ⟨_, _, start', stop, rfl, .inr rfl, hmarks⟩
  | @redefinition ts before later start f params body htokens hforms =>
    obtain ⟨us, vs, rest, hts, -, hderives⟩ :=
      exists_of_readForms (isLexical_of_mem_tokenize htokens) hforms
    obtain ⟨name, hname, rfl⟩ := hderives.exists_name
    have hcut := cut_of_tokenize htokens
    have hstart : start ∈ ts := by simp [hts]
    obtain ⟨-, hlt, -⟩ := hcut.within start hstart
    obtain ⟨-, hlt', hle⟩ := hcut.within name (by simp [hts, hname])
    -- the name stands after the first token, and is as long as what is marked
    have hordered : start.stop ≤ name.offset :=
      (hts ▸ hcut).stop_le_offset (List.mem_append_left rest hname)
    have hname_stop : name.stop = name.offset + name.text.length := rfl
    refine ⟨_, _, _, _, location_of_redefinition _ _ start, .inr rfl,
      marks_of_token htokens hstart ?_ ?_⟩ <;> omega

/-- A function that is defined again is located at the first token of the definition. -/
theorem TextFault.redefinition_cases {f : String} {location : Location}
    (h : TextFault source env (.error (.alreadyDefined f) location)) :
    ∃ ts us start vs rest es params body, tokenize (blankComments source) = .ok ts ∧
      ts = us ++ (start :: vs ++ rest) ∧ ReadAs us es ∧
      Derives .any (start :: vs) (.define f params body) ∧
      (env.withForms es).functions.lookup f ≠ none ∧
      location = ⟨some (blankComments source), some start.offset,
        some ((start.offset + max f.length 1 : Nat) : Int)⟩ := by
  generalize hfailure : Failure.error (.alreadyDefined f) location = failure at h
  cases h with
  | character => cases hfailure
  | remainder => cases hfailure
  | notDefinition => cases hfailure
  | @redefinition ts before later start f' params body htokens hforms hf =>
    rw [location_of_redefinition] at hfailure
    cases hfailure
    obtain ⟨us, vs, rest, hts, hreads, hderives⟩ :=
      exists_of_readForms (isLexical_of_mem_tokenize htokens) hforms
    exact ⟨ts, us, start, vs, rest, _, params, body, htokens, hts, hreads, hderives, hf, rfl⟩

/-- **What is wrong with a text is located in it, and what is wrong with an evaluation is not.**
Loading fails for nothing but faults of the lexer and of the grammar, and numbers of too many
digits.  When a fault of the lexer or of the grammar keeps a text from being loaded or executed, it
marks a part of the text with its comments blanked: it starts at one of the tokens, at the character
that starts none or at the end of the text less its blanks, and covers at least one character, and
it ends at most one character after the text.  A function that is defined again is located at the
first token of the definition, the forms before which have defined it unless it was defined already.
Any other fault of a text that is executed has no location. -/
theorem textFaults_located [Machine] (source : String) (env : Environment) :
    (∀ failure, (load source).outcome env = .error failure →
      failure.Exceeds (Job.load source).Holds ∨
        ∃ fault location start stop, failure = .error fault location ∧
          (fault.kind = .lexical ∨ fault.kind = .grammar) ∧
          location.Marks (blankComments source) start stop) ∧
    (∀ fault location, (execute source).outcome env = .error (.error fault location) →
      (fault.kind = .lexical ∨ fault.kind = .grammar →
        ∃ start stop, location.Marks (blankComments source) start stop) ∧
      (fault.kind ≠ .lexical → fault.kind ≠ .grammar → location = .unknown)) ∧
    ∀ f location,
      (load source).outcome env = .error (.error (.alreadyDefined f) location) ∨
        (execute source).outcome env = .error (.error (.alreadyDefined f) location) →
      ∃ ts us start vs rest es params body, tokenize (blankComments source) = .ok ts ∧
        ts = us ++ (start :: vs ++ rest) ∧ ReadAs us es ∧
        Derives .any (start :: vs) (.define f params body) ∧
        (env.withForms es).functions.lookup f ≠ none ∧
        location = ⟨some (blankComments source), some start.offset,
          some ((start.offset + max f.length 1 : Nat) : Int)⟩ := by
  have hraised : ∀ {fault : Fault} {location : Location},
      (∃ e : Expr, e.Raises (.error fault location)) →
        location = .unknown ∧ fault.kind ≠ .lexical ∧ fault.kind ≠ .grammar := by
    rintro fault location ⟨e, he⟩
    rcases he.kind with ⟨⟨⟩⟩ | ⟨fault', hfault, hlexical, hgrammar, -⟩
    obtain ⟨rfl, rfl⟩ := Failure.error.inj hfault
    exact ⟨rfl, hlexical, hgrammar⟩
  refine ⟨fun failure h => ?_, fun fault location h => ?_, fun f location h => ?_⟩
  · rcases textFault_of_load h with htext | hexceeds
    · exact .inr htext.marks
    · exact .inl hexceeds
  · rcases textFault_or_raises_of_execute h with htext | ⟨⟨⟩⟩ | he
    · obtain ⟨fault', location', start, stop, hfailure, hkind, hmarks⟩ := htext.marks
      obtain ⟨rfl, rfl⟩ := Failure.error.inj hfailure
      exact ⟨fun _ => ⟨start, stop, hmarks⟩,
        fun hlexical hgrammar => (hkind.elim hlexical hgrammar).elim⟩
    · obtain ⟨hlocation, hlexical, hgrammar⟩ := hraised he
      exact ⟨fun hkind => (hkind.elim hlexical hgrammar).elim, fun _ _ => hlocation⟩
  · rcases h with h | h
    · rcases textFault_of_load h with htext | ⟨⟨⟩⟩
      exact htext.redefinition_cases
    · rcases textFault_or_raises_of_execute h with htext | ⟨⟨⟩⟩ | he
      · exact htext.redefinition_cases
      · exact absurd rfl (hraised he).2.2

/-- A function that is defined again after a comment, a literal whose sign stands on another line, a
definition that a comment cuts off, and a division by zero. -/
theorem textFaults_located_causes :
    let _ : Machine := .ofCalls 1
    let twice := "(define (f x) x) ; (\n(define (f) 1)"
    let large := "(f - ; sign\n3000000000)"
    let short := "(define ; (f) 1)"
    (∃ ts, tokenize (blankComments twice) = .ok ts ∧ ∃ start ∈ ts, start.offset = 21 ∧
      (load twice).outcome .empty = .error (.error (.alreadyDefined "f")
        ⟨some (blankComments twice), some start.offset, some 22⟩)) ∧
      (execute large).outcome .empty =
        .error (.error (.grammar (.literalOutOfRange "-3000000000"))
          ⟨some (blankComments large), some 3, some 22⟩) ∧
      Landmark (blankComments large) 3 ∧
      (load short).outcome .empty =
        .error (.error (.grammar (.endOfInputFor "'(' before function name"))
          ⟨some (blankComments short), some 7, some 17⟩) ∧
      Landmark (blankComments short) 7 ∧
      ∃ location, (execute "(/ 1 0)").outcome .empty =
        .error (.error (.arithmetic (.divisionByZero 1)) location) ∧ location = .unknown := by
  intro _ twice large short
  have htwice : (load twice).outcome .empty = .error (.error (.alreadyDefined "f")
      ⟨some (blankComments twice), some 21, some 22⟩) := by decide +kernel
  have hlarge : (execute large).outcome .empty =
      .error (.error (.grammar (.literalOutOfRange "-3000000000"))
        ⟨some (blankComments large), some 3, some 22⟩) := by decide +kernel
  have hshort : (load short).outcome .empty =
      .error (.error (.grammar (.endOfInputFor "'(' before function name"))
        ⟨some (blankComments short), some 7, some 17⟩) := by decide +kernel
  have hdivision : (execute "(/ 1 0)").outcome .empty =
      .error (.error (.arithmetic (.divisionByZero 1)) .unknown) := by decide +kernel
  obtain ⟨ts, us, start, vs, rest, es, params, body, htokens, hts, -, -, -, hlocation⟩ :=
    (textFaults_located twice .empty).2.2 _ _ (.inl htwice)
  obtain ⟨start', stop', hmarks⟩ :=
    ((textFaults_located large .empty).2.1 _ _ hlarge).1 (.inr rfl)
  obtain ⟨fault, location, start'', stop'', hfailure, -, hmarks'⟩ :=
    ((textFaults_located short .empty).1 _ hshort).resolve_left nofun
  obtain ⟨rfl, rfl⟩ := Failure.error.inj hfailure
  have hstart : start.offset = 21 := by
    simpa using (congrArg Location.start hlocation).symm
  have hlandmark : start' = 3 := by simpa using (congrArg Location.start hmarks.eq).symm
  have hlandmark' : start'' = 7 := by simpa using (congrArg Location.start hmarks'.eq).symm
  refine ⟨⟨ts, htokens, start, by simp [hts], hstart, ?_⟩, hlarge, hlandmark ▸ hmarks.landmark,
    hshort, hlandmark' ▸ hmarks'.landmark, _, hdivision,
    ((textFaults_located "(/ 1 0)" .empty).2.1 _ _ hdivision).2 nofun nofun⟩
  rw [hstart]
  exact htwice

end Session

end DynLisp
