import DynLisp.Proofs.Lexing.Comments
import DynLisp.Proofs.Session.Likeness
import DynLisp.Proofs.Session.Program

/-!
# Round and square brackets

Round and square brackets are the same delimiters.  So a text may be written with round ones only
(`roundBrackets`) and is read and run as before.

The lexer asks a character nothing that tells a square bracket from the round one, apart from
putting it in the text of its token (`apply_roundBracket`).  So the tokens stay where they are and
of the kinds that they are, and only delimiters are spelled another way (`lex_roundBrackets`).
Readers never look at the spelling of a delimiter other than to put it in a message, which is what a
`Likeness` asks for; here faults are alike if they lie at the same place (`likeness_sameSpan`).
-/

namespace DynLisp

open DynLisp.Parser (Likeness)
open DynLisp.Action

/-! ## Characters -/

/-- The round bracket in place of a square one. -/
def roundBracket (c : Char) : Char :=
  if c = '[' then '(' else if c = ']' then ')' else c

/-- A text with round brackets in place of the square ones. -/
def roundBrackets (s : String) : String := s.map roundBracket

/-- What does not tell a square bracket from the round one is the same of a character with round
brackets. -/
theorem apply_roundBracket {α : Type} {f : Char → α} (hopening : f '(' = f '[')
    (hclosing : f ')' = f ']') (c : Char) : f (roundBracket c) = f c := by
  unfold roundBracket
  split
  · next h => rw [h, hopening]
  · split
    · next h => rw [h, hclosing]
    · rfl

theorem roundBracket_of_ne {c : Char} (hopening : c ≠ '[') (hclosing : c ≠ ']') :
    roundBracket c = c := by
  rw [roundBracket, if_neg hopening, if_neg hclosing]

theorem roundBracket_eq_self {p : Char → Bool} (hopening : p '[' = false) (hclosing : p ']' = false)
    {c : Char} (hc : p c = true) : roundBracket c = c := by
  refine roundBracket_of_ne ?_ ?_
  · rintro rfl
    exact Bool.false_ne_true (hopening.symm.trans hc)
  · rintro rfl
    exact Bool.false_ne_true (hclosing.symm.trans hc)

theorem map_roundBracket_eq_self {p : Char → Bool} (hopening : p '[' = false)
    (hclosing : p ']' = false) {cs : List Char} (hcs : ∀ c ∈ cs, p c = true) :
    cs.map roundBracket = cs := by
  induction cs with
  | nil => rfl
  | cons c cs ih =>
    obtain ⟨hc, hcs⟩ := List.forall_mem_cons.1 hcs
    rw [List.map_cons, roundBracket_eq_self hopening hclosing hc, ih hcs]

@[simp] theorem isBlank_roundBracket (c : Char) : isBlank (roundBracket c) = isBlank c :=
  apply_roundBracket rfl rfl c

@[simp] theorem isDigit_roundBracket (c : Char) : (roundBracket c).isDigit = c.isDigit :=
  apply_roundBracket (f := Char.isDigit) rfl rfl c

@[simp] theorem isWordStart_roundBracket (c : Char) :
    isWordStart (roundBracket c) = isWordStart c :=
  apply_roundBracket rfl rfl c

@[simp] theorem isWordChar_roundBracket (c : Char) : isWordChar (roundBracket c) = isWordChar c :=
  apply_roundBracket rfl rfl c

@[simp] theorem ofPunctuation?_roundBracket (c : Char) :
    TokenKind.ofPunctuation? (roundBracket c) = TokenKind.ofPunctuation? c :=
  apply_roundBracket rfl rfl c

theorem takeWhile_roundBracket {p : Char → Bool} (hp : ∀ c, p (roundBracket c) = p c)
    (cs : List Char) : (cs.map roundBracket).takeWhile p = (cs.takeWhile p).map roundBracket := by
  rw [List.takeWhile_map, show p ∘ roundBracket = p from funext hp]

/-! ## Texts -/

theorem toList_roundBrackets (s : String) : (roundBrackets s).toList = s.toList.map roundBracket :=
  String.toList_map

theorem roundBrackets_ofList (cs : List Char) :
    roundBrackets (String.ofList cs) = String.ofList (cs.map roundBracket) := by
  rw [← String.toList_inj, toList_roundBrackets, String.toList_ofList, String.toList_ofList]

@[simp] theorem length_roundBrackets (s : String) : (roundBrackets s).length = s.length := by
  rw [← String.length_toList, toList_roundBrackets, List.length_map, String.length_toList]

theorem blankFrom_roundBracket (inside : Bool) (cs : List Char) :
    blankFrom inside (cs.map roundBracket) = (blankFrom inside cs).map roundBracket := by
  induction cs generalizing inside with
  | nil => rfl
  | cons c cs ih =>
    have hcomment : commentGoesOn inside (roundBracket c) = commentGoesOn inside c := by
      cases inside <;> exact apply_roundBracket rfl rfl c
    rw [List.map_cons, blankFrom_cons, blankFrom_cons, hcomment, ih, List.map_cons]
    cases commentGoesOn inside c <;> rfl

/-- Comments end where they ended. -/
theorem blankComments_roundBrackets (s : String) :
    blankComments (roundBrackets s) = roundBrackets (blankComments s) := by
  rw [← String.toList_inj, toList_blankComments, toList_roundBrackets, toList_roundBrackets,
    toList_blankComments, blankFrom_roundBracket]

theorem length_trimEnd_roundBrackets (s : String) :
    (Text.trimEnd (roundBrackets s)).length = (Text.trimEnd s).length := by
  have hblank : isBlank ∘ roundBracket = isBlank := funext isBlank_roundBracket
  rw [Text.trimEnd, Text.trimEnd, toList_roundBrackets, String.length_ofList,
    String.length_ofList, Text.dropBlankEnd, Text.dropBlankEnd, ← List.map_reverse,
    List.dropWhile_map, hblank, List.length_reverse, List.length_reverse, List.length_map]

/-! ## Tokens -/

/-- A token in a text with round brackets. -/
def Token.round (t : Token) : Token := { t with text := roundBrackets t.text }

/-- The first token is of the same kind, and as long. -/
theorem firstLexeme?_roundBrackets (c : Char) (rest : List Char) :
    firstLexeme? (roundBracket c) (rest.map roundBracket) =
      (firstLexeme? c rest).map (Prod.map id (List.map roundBracket)) := by
  have hword : isWordStart c = true →
      (c :: rest.takeWhile isWordChar).map roundBracket = c :: rest.takeWhile isWordChar := by
    intro hc
    rw [List.map_cons, roundBracket_eq_self rfl rfl hc,
      map_roundBracket_eq_self rfl rfl fun d hd => List.mem_takeWhile_imp hd]
  rw [firstLexeme?, firstLexeme?, isDigit_roundBracket, isWordStart_roundBracket,
    ofPunctuation?_roundBracket, takeWhile_roundBracket isDigit_roundBracket,
    takeWhile_roundBracket isWordChar_roundBracket, ← List.map_cons, ← List.map_cons]
  by_cases hdigit : c.isDigit = true
  · rw [if_pos hdigit, if_pos hdigit]
    rfl
  · rw [if_neg hdigit, if_neg hdigit]
    by_cases hstart : isWordStart c = true
    · rw [if_pos hstart, if_pos hstart]
      simp only [hword hstart, Option.map_some, Prod.map, id]
    · rw [if_neg hstart, if_neg hstart]
      cases TokenKind.ofPunctuation? c <;> rfl

/-- The tokens are the same but for the brackets, and a character that starts no token is none. -/
theorem lex_roundBrackets (offset : Nat) (cs : List Char) :
    lex offset (cs.map roundBracket) = (lex offset cs).map (List.map Token.round) := by
  fun_induction lex offset cs with
  | case1 offset =>
    rw [List.map_nil, lex_nil]
    rfl
  | case2 offset c rest hblank ih =>
    have hround : isBlank (roundBracket c) = true := by rw [isBlank_roundBracket, hblank]
    rw [List.map_cons, lex_of_isBlank hround, ih]
  | case3 offset c rest hblank hnone =>
    have hc : roundBracket c = c := by
      refine roundBracket_eq_self (p := fun d => (TokenKind.ofPunctuation? d).isNone) rfl rfl ?_
      rw [(firstLexeme?_eq_none_iff.1 hnone).2.2]
      rfl
    have hround := firstLexeme?_roundBrackets c rest
    rw [hnone, hc] at hround
    rw [List.map_cons, hc, lex.eq_def]
    simp only [hblank, hround, Option.map_none, Bool.false_eq_true, if_false]
    rfl
  | case4 offset c rest hblank kind word hfirst ih =>
    have hround := firstLexeme?_roundBrackets c rest
    rw [hfirst] at hround
    rw [List.map_cons, lex.eq_def]
    simp only [isBlank_roundBracket, hblank, hround, Option.map_some, Prod.map, id,
      Bool.false_eq_true, if_false, List.length_map]
    rw [← List.map_drop, ih]
    have htoken : Token.round ⟨kind, String.ofList word, offset⟩ =
        ⟨kind, String.ofList (word.map roundBracket), offset⟩ := by
      rw [Token.round, roundBrackets_ofList]
    cases lex (offset + word.length) (rest.drop (word.length - 1)) with
    | error bad => rfl
    | ok ts => exact congrArg (fun t => Except.ok (t :: ts.map Token.round)) htoken.symm

theorem tokenize_roundBrackets (source : String) :
    tokenize (roundBrackets source) = (tokenize source).map (List.map Token.round) := by
  rw [tokenize, tokenize, toList_roundBrackets, lex_roundBrackets]

/-- Two tokens are of one kind and at one place, and are spelled alike if they are no delimiters. -/
structure SameSpan (t t' : Token) : Prop where
  kind : t.kind = t'.kind
  offset : t.offset = t'.offset
  stop : t.stop = t'.stop
  text : t.kind ≠ .opening → t.kind ≠ .closing → t.text = t'.text

theorem Token.IsLexical.roundBrackets_text {t : Token} (h : t.IsLexical)
    (hopening : t.kind ≠ .opening) (hclosing : t.kind ≠ .closing) :
    roundBrackets t.text = t.text := by
  rw [← String.toList_inj, toList_roundBrackets]
  cases h with
  | number _ _ hdigits => exact map_roundBracket_eq_self rfl rfl hdigits
  | word hword =>
    obtain ⟨c, cs, htext, hstart, hchars⟩ := hword
    rw [htext, List.map_cons, roundBracket_eq_self rfl rfl hstart,
      map_roundBracket_eq_self rfl rfl hchars]
  | punctuation c htext hkind =>
    have hc : roundBracket c = c := by
      refine roundBracket_of_ne ?_ ?_
      · rintro rfl
        exact hopening (Option.some.inj hkind).symm
      · rintro rfl
        exact hclosing (Option.some.inj hkind).symm
    rw [htext, String.toList_ofList, List.map_singleton, hc]

theorem Token.IsLexical.sameSpan_round {t : Token} (h : t.IsLexical) : SameSpan t t.round where
  kind := rfl
  offset := rfl
  stop := by rw [stop, stop, round, length_roundBrackets]
  text hopening hclosing := (h.roundBrackets_text hopening hclosing).symm

theorem forall₂_sameSpan {ts : List Token} (hlex : ∀ t ∈ ts, t.IsLexical) :
    List.Forall₂ SameSpan ts (ts.map Token.round) := by
  rw [List.forall₂_map_right_iff, List.forall₂_same]
  exact fun t ht => (hlex t ht).sameSpan_round

/-! ## Faults -/

/-- From where to where a place goes, if it lies at tokens. -/
def Place.span? : Place → Option (Nat × Nat)
  | token t => some (t.offset, t.stop)
  | upTo start t => some (start, t.stop)
  | endOfInput => none

/-- Two errors lie at the same place. -/
def SamePlace (e e' : GrammarError) : Prop := e.place.span? = e'.place.span?

theorem likeness_sameSpan : Likeness SameSpan SamePlace where
  kind h := h.kind
  text h := h.text
  endOfInput _ := rfl
  token _ _ ht := by simp [SamePlace, Place.span?, ht.offset, ht.stop]
  upTo _ hu ht := by simp [SamePlace, Place.span?, hu.offset, ht.stop]

/-- Texts of one length, with as many blanks at the end, show a place at the same offsets. -/
theorem exists_locate {place place' : Place} {s s' : String} (hplace : place.span? = place'.span?)
    (hlength : s'.length = s.length)
    (htrim : (Text.trimEnd s').length = (Text.trimEnd s).length) :
    ∃ start stop, place.locate (some s) = ⟨some s, some start, some stop⟩ ∧
      place'.locate (some s') = ⟨some s', some start, some stop⟩ := by
  have hlocate : ∀ (place : Place) (s : String), place.locate (some s) =
      match place.span? with
      | some (start, stop) => ⟨some s, some start, some stop⟩
      | none => ⟨some s, some (Text.trimEnd s).length, some (s.length + 1)⟩ := by
    intro place s
    cases place <;> rfl
  rw [hlocate, hlocate, ← hplace, hlength, htrim]
  cases place.span? with
  | none => exact ⟨_, _, rfl, rfl⟩
  | some span => exact ⟨_, _, rfl, rfl⟩

/-! ## Reading -/

/-- With round brackets a text reads as the same expression, or fails for an error of the same kind
at the same place, or for a number of as many digits. -/
theorem parse_roundBrackets (source : String) :
    (∃ e, parse source = .ok e ∧ parse (roundBrackets source) = .ok e) ∨
      (∃ fault fault' start stop,
        parse source = .error (.error fault ⟨some source, some start, some stop⟩) ∧
        parse (roundBrackets source) =
          .error (.error fault' ⟨some (roundBrackets source), some start, some stop⟩) ∧
        fault'.kind = fault.kind) ∨
      ∃ digits, parse source = .error (.oversized digits) ∧
        parse (roundBrackets source) = .error (.oversized digits) := by
  have hround := tokenize_roundBrackets source
  cases htokens : tokenize source with
  | error bad =>
    rw [htokens] at hround
    exact .inr (.inl ⟨_, _, _, _, parse_of_refused htokens, parse_of_refused hround, rfl⟩)
  | ok ts =>
    rw [htokens] at hround
    rw [parse_of_tokenize htokens, parse_of_tokenize hround]
    have hread := Parser.alike_program likeness_sameSpan _ _
      (forall₂_sameSpan (isLexical_of_mem_tokenize htokens))
    generalize Parser.program ts = result, Parser.program (ts.map Token.round) = result' at hread
    cases hread with
    | ok he => exact .inl ⟨_, rfl, congrArg Except.ok he.symm⟩
    | error he =>
      cases he with
      | oversized digits => exact .inr (.inr ⟨digits, rfl, rfl⟩)
      | @grammar e e' he =>
        obtain ⟨start, stop, hstart, hstart'⟩ := exists_locate he (length_roundBrackets source)
          (length_trimEnd_roundBrackets source)
        refine .inr (.inl ⟨.grammar e.fault, .grammar e'.fault, start, stop, ?_, ?_, rfl⟩)
        · rw [← hstart]
          rfl
        · rw [← hstart']
          rfl

/-! ## Running -/

theorem definesAll_roundBrackets {source : String} {functions : List (String × Definition)} :
    DefinesAll (roundBrackets source) functions ↔ DefinesAll source functions := by
  rw [definesAll_iff, definesAll_iff, blankComments_roundBrackets, tokenize_roundBrackets]
  cases htokens : tokenize (blankComments source) with
  | error bad => rfl
  | ok ts =>
    obtain ⟨hforms, hfault⟩ := alike_readForms likeness_sameSpan
      (forall₂_sameSpan (isLexical_of_mem_tokenize htokens))
    simp only [Except.map, Except.ok.injEq, Prod.mk.injEq, hforms.map_snd_eq]
    refine and_congr_left' ?_
    generalize (readForms ts).2 = fault, (readForms (ts.map Token.round)).2 = fault' at hfault
    cases hfault <;> simp

theorem isProgram_roundBrackets {source : String} {functions : List (String × Definition)}
    {body : Expr} :
    IsProgram (roundBrackets source) functions body ↔ IsProgram source functions body :=
  ⟨fun h => ⟨definesAll_roundBrackets.1 h.defines, h.distinct, h.starts⟩,
    fun h => ⟨definesAll_roundBrackets.2 h.defines, h.distinct, h.starts⟩⟩

/-- Two computations end in the same, or in errors of the same kind. -/
def SameEnd {α : Type} (outcome outcome' : Except Failure α) : Prop :=
  outcome' = outcome ∨ ∃ failure failure' kind, outcome = .error failure ∧
    outcome' = .error failure' ∧ failure.kind? = some kind ∧ failure'.kind? = some kind

theorem SameEnd.of_kind {α : Type} {failure failure' : Failure} (kind : ErrorKind)
    (h : failure.kind? = some kind) (h' : failure'.kind? = some kind) :
    SameEnd (.error failure : Except Failure α) (.error failure') :=
  .inr ⟨failure, failure', kind, rfl, rfl, h, h'⟩

open Session in
/-- With round brackets a text is loaded as before, or it is refused as before for an error of the
same kind, or for a number of as many digits. -/
theorem sameEnd_load (source : String) (env : Environment) :
    SameEnd ((load source).outcome env) ((load (roundBrackets source)).outcome env) := by
  have hround := tokenize_roundBrackets (blankComments source)
  rw [← blankComments_roundBrackets] at hround
  cases htokenize : tokenize (blankComments source) with
  | error bad =>
    rw [htokenize] at hround
    have htokens := tokens_eq_error_iff.2 ⟨bad, htokenize, rfl⟩
    have htokens' := tokens_eq_error_iff.2 ⟨bad, hround, rfl⟩
    rw [outcome_of_error (load_of_error (takeText_of_refused htokens env)),
      outcome_of_error (load_of_error (takeText_of_refused htokens' env))]
    exact .of_kind .lexical rfl rfl
  | ok ts =>
    rw [htokenize] at hround
    have htokens := tokens_eq_ok_iff.2 htokenize
    have htokens' := tokens_eq_ok_iff.2 hround
    obtain ⟨hforms, hfault⟩ := alike_readForms likeness_sameSpan
      (forall₂_sameSpan (isLexical_of_mem_tokenize htokenize))
    have halike := alike_takeForms (fun t t' e _ => alike_loadForm (blankComments source)
      (blankComments (roundBrackets source)) t t' e) hforms
    have hsame : (env.noted (.tokens ts)).Same (env.noted (.tokens (ts.map Token.round))) :=
      ⟨rfl, rfl⟩
    rw [outcome_load, outcome_load]
    cases htaken' : (takeForms (loadForm (blankComments (roundBrackets source)))
        (readForms (ts.map Token.round)).1).outcome (env.noted (.tokens (ts.map Token.round))) with
    | error failure' =>
      obtain ⟨failure, htaken, -⟩ := halike.exists_outcome_eq_error hsame htaken'
      rw [outcome_takeText_of_error htokens htaken, outcome_takeText_of_error htokens' htaken']
      exact .of_kind .grammar (kind_of_takeForms_loadForm htaken)
        (kind_of_takeForms_loadForm htaken')
    | ok results =>
      rw [outcome_takeText_of_ok htokens (halike.outcome_eq_ok hsame htaken'),
        outcome_takeText_of_ok htokens' htaken']
      generalize (readForms ts).2 = fault, (readForms (ts.map Token.round)).2 = fault' at hfault
      cases hfault with
      | none => exact .inl rfl
      | some hfault =>
        cases hfault with
        | grammar => exact .of_kind .grammar rfl rfl
        | oversized digits => exact .inl rfl

/-- **Round and square brackets are interchangeable.**  If the square brackets of a text are
replaced by round ones, then it reads as the same expression as before, or fails to be read for an
error of the same kind with the same start and stop, or for a number of as many digits.  As a
program it ends in the same value or failure as before, or it is refused before and after for an
error of the same kind. -/
theorem brackets_interchangeable [Machine] (source : String) :
    ((∃ e, parse source = .ok e ∧ parse (roundBrackets source) = .ok e) ∨
      (∃ fault fault' start stop,
        parse source = .error (.error fault ⟨some source, some start, some stop⟩) ∧
        parse (roundBrackets source) =
          .error (.error fault' ⟨some (roundBrackets source), some start, some stop⟩) ∧
        fault'.kind = fault.kind) ∨
      ∃ digits, parse source = .error (.oversized digits) ∧
        parse (roundBrackets source) = .error (.oversized digits)) ∧
    ((runProgram (roundBrackets source)).outcome .empty = (runProgram source).outcome .empty ∨
      ∃ failure failure' kind, (runProgram source).outcome .empty = .error failure ∧
        (runProgram (roundBrackets source)).outcome .empty = .error failure' ∧
        failure.kind? = some kind ∧ failure'.kind? = some kind) := by
  refine ⟨parse_roundBrackets source, ?_⟩
  by_cases hprogram : ∃ functions body, IsProgram source functions body
  · obtain ⟨functions, body, hprogram⟩ := hprogram
    left
    rw [hprogram.outcome_runProgram, (isProgram_roundBrackets.2 hprogram).outcome_runProgram]
  · have hround : ¬ ∃ functions body, IsProgram (roundBrackets source) functions body := by
      simpa only [isProgram_roundBrackets] using hprogram
    have hfails : ∀ {s : String} {failure : Failure},
        (Session.load s).outcome .empty = .error failure →
          (runProgram s).outcome .empty = .error failure := fun h =>
      outcome_bind_eq_error_iff.2 (.inl h)
    have hloaded : ∀ {s : String}, (¬ ∃ functions body, IsProgram s functions body) →
        (Session.load s).outcome .empty = .ok () →
          ∃ failure, (runProgram s).outcome .empty = .error failure ∧
            failure.kind? = some .grammar := by
      intro s hs hload
      obtain ⟨failure, env, -, hrun, hkind⟩ := exists_checkEntry hs (run_of_outcome_eq_ok hload)
      exact ⟨failure, outcome_of_error hrun, hkind⟩
    rcases sameEnd_load source .empty with hsame | ⟨failure, failure', kind, h, h', hkind, hkind'⟩
    · cases h : (Session.load source).outcome .empty with
      | error failure => exact .inl ((hfails (hsame.trans h)).trans (hfails h).symm)
      | ok _ =>
        obtain ⟨failure, hrun, hkind⟩ := hloaded hprogram h
        obtain ⟨failure', hrun', hkind'⟩ := hloaded hround (hsame.trans h)
        exact .inr ⟨failure, failure', .grammar, hrun, hrun', hkind, hkind'⟩
    · exact .inr ⟨failure, failure', kind, hfails h, hfails h', hkind, hkind'⟩

end DynLisp
