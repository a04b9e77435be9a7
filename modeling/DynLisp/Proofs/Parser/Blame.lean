import DynLisp.Proofs.Parser.Completion

/-!
# Where faults of the grammar lie

A fault lies where the input stops making sense (`Blamed`): at the first token with which the tokens
can no longer be completed, or at the end of the input if all of them can be and are no expression
yet.  `parse_error_place` says that a text whose tokens are no expression is refused for a fault of
the grammar at just this place, unless a number of too many digits comes first where a number may
come (`Overflows`).  Then reading stops there and blames nothing.

Some faults lie a token earlier.  A conditional without cases is blamed on its keyword, and not on
the delimiter that closes it.  The last token is blamed, and not the end of the input, if it is
a sign or if it opens an expression of a kind.  And the digits of a literal that is out of range are
blamed together with the sign before them.

What is expected next tells the place (`place_eq_offendingPlace`, `unfinished_place`), because an
expectation that blames another token than the next one is on top only just after that token.  That
there is only one such place (`Blamed.unique`) does not depend on what is expected.
-/

namespace DynLisp
namespace Parser

open Expected

/-! ## The place of a fault -/

/-- A minus sign that is no operator, after some tokens. -/
def IsSign (before : List Token) (t : Token) : Prop :=
  t.kind = .minus ∧ before.getLast?.map Token.kind ≠ some .opening

instance (before : List Token) (t : Token) : Decidable (IsSign before t) :=
  inferInstanceAs (Decidable (_ ∧ _))

/-- Where a token lies that cannot come after some tokens: at itself, but a delimiter that closes
a conditional without cases at its keyword, and digits with the sign before them. -/
def offendingPlace (before : List Token) (t : Token) : Place :=
  match before.getLast? with
  | none => .token t
  | some last =>
    if last.kind = .cond ∧ t.kind = .closing then .token last
    else if IsSign before.dropLast last ∧ t.kind = .number then .upTo last.offset t
    else .token t

/-- Where it lies that tokens end too early: at the end of the input, but at the last token if that
is a sign, or if it opens an expression of a kind. -/
inductive Unfinished (ts : List Token) : Place → Prop
  | sign {before : List Token} {t : Token} :
      ts = before ++ [t] → IsSign before t → Unfinished ts (.token t)
  | opening {before : List Token} {t : Token} {kind : ValueKind} :
      ts = before ++ [t] → t.kind = .opening → Awaits before kind → Unfinished ts (.token t)
  | endOfInput :
      (∀ before t, ts = before ++ [t] → ¬IsSign before t) →
      (∀ before t kind, ts = before ++ [t] → t.kind = .opening → ¬Awaits before kind) →
      Unfinished ts .endOfInput

/-- Where the fault lies of tokens that are no expression: at the first token that none of the ways
to complete the tokens before it goes on with, or where it lies that they end too early. -/
inductive Blamed (ts : List Token) : Place → Prop
  | offending {before after : List Token} {t : Token} :
      ts = before ++ t :: after → Completable before → ¬Completable (before ++ [t]) →
      Blamed ts (offendingPlace before t)
  | unfinished {place : Place} :
      Completable ts → (∀ e, ¬Derives .any ts e) → Unfinished ts place → Blamed ts place

/-- Where a number may come there is one of `n` digits, which are too many, and the tokens before it
can be converted. -/
def Overflows (ts : List Token) (n : Nat) : Prop :=
  ∃ before t after, ts = before ++ t :: after ∧ (∀ u ∈ before, u.Convertible) ∧
    Completable (before ++ [literal .number]) ∧ t.kind = .number ∧ ¬t.Convertible ∧
    t.text.length = n

variable {before ts us : List Token} {s : Expected} {rest : List Expected} {t : Token}

/-! ## The last token and the expectation on top -/

section Last

variable (h : run [.expr .any] (before ++ [t]) = some (s :: rest))
include h

theorem opening_of_head {p : Position} {o : Token} (hs : s = .head p o) :
    o = t ∧ t.kind = .opening ∧ ∃ met below, run [.expr .any] before = some (met :: below) ∧
      (met = .expr p ∨ met = .args ∧ p = .any) := by
  subst hs
  obtain ⟨met, below, hmet, ⟨-, hpatient⟩ | ⟨above, hturn⟩⟩ := exists_turn_of_run h
  · exact hpatient.elim
  · cases hturn with
    | opening hk hexpr => exact ⟨rfl, hk, met, below, hmet, hexpr⟩
    | other hpatient => exact hpatient.elim

/-- After an opening delimiter neither a number nor an argument is expected. -/
theorem not_opening_of_expr (hs : (∃ p, p.Admits .number ∧ s = .expr p) ∨ s = .args) :
    t.kind ≠ .opening := by
  obtain ⟨met, below, -, ⟨hturn, -⟩ | ⟨above, hturn⟩⟩ := exists_turn_of_run h
  · cases hturn with
    | met _ _ hopening => exact hopening
  · cases hturn with
    | sign | opening | signature | keyword => simp at hs
    | case =>
      obtain ⟨p, hp, hs⟩ | hs := hs
      · obtain rfl := Expected.expr.inj hs
        cases hp
      · cases hs
    | other _ _ hopening => exact hopening

theorem isSign_of_digits {sign : Token} (hs : s = .digits sign) : sign = t ∧ IsSign before t := by
  subst hs
  obtain ⟨met, below, hmet, ⟨-, hpatient⟩ | ⟨above, hturn⟩⟩ := exists_turn_of_run h
  · exact hpatient.elim
  · cases hturn with
    | sign hk hexpr =>
      refine ⟨rfl, hk, ?_⟩
      rcases List.eq_nil_or_concat before with rfl | ⟨ts, u, rfl⟩
      · simp
      · rw [List.concat_eq_append] at hmet ⊢
        simpa using not_opening_of_expr hmet hexpr
    | other hpatient => exact hpatient.elim

theorem digits_of_isSign (ht : IsSign before t) : s = .digits t := by
  obtain ⟨hk, hlast⟩ := ht
  obtain ⟨met, below, hmet, ⟨hturn, -⟩ | ⟨above, hturn⟩⟩ := exists_turn_of_run h
  · cases hturn with
    | met hminus => exact absurd hk hminus
  · cases hturn with
    | sign => rfl
    | opening hk' | case hk' | signature hk' | keyword hk' => simp [hk] at hk'
    | other _ _ _ hhead =>
      -- an operator comes after an opening delimiter
      obtain ⟨p, o, rfl⟩ := hhead hk
      rcases List.eq_nil_or_concat before with rfl | ⟨ts, u, rfl⟩
      · cases hmet
      · rw [List.concat_eq_append] at hmet hlast
        exact absurd (by simpa using (opening_of_head hmet rfl).2.1) hlast

theorem cond_of_caseOf {keyword : Token} (hs : s = .caseOf (some keyword)) :
    keyword = t ∧ t.kind = .cond := by
  subst hs
  obtain ⟨met, below, -, ⟨-, hpatient⟩ | ⟨above, hturn⟩⟩ := exists_turn_of_run h
  · exact hpatient.elim
  · cases hturn with
    | keyword hk => exact ⟨rfl, hk⟩
    | other hpatient => exact hpatient.elim

theorem caseOf_of_cond (ht : t.kind = .cond) : s = .caseOf (some t) := by
  obtain ⟨met, below, -, ⟨hturn, -⟩ | ⟨above, hturn⟩⟩ := exists_turn_of_run h
  · cases hturn with
    | met _ hcond => exact absurd ht hcond
  · cases hturn with
    | keyword => rfl
    | sign hk | opening hk | case hk | signature hk => simp [ht] at hk
    | other _ hcond => exact absurd ht hcond

end Last

/-! ## Blaming the expectation on top -/

theorem place_eq_offendingPlace (h : run [.expr .any] before = some (s :: rest)) :
    s.place (t :: us) = offendingPlace before t := by
  rcases List.eq_nil_or_concat before with rfl | ⟨before, last, rfl⟩
  · obtain ⟨rfl, -⟩ := List.cons.inj (Option.some.inj h)
    rfl
  · rw [List.concat_eq_append] at h ⊢
    simp only [offendingPlace, List.getLast?_concat, List.dropLast_concat]
    -- the last token is a sign or a keyword only where an expectation that keeps it is on top
    have hother : (Patient s ∨ ∃ p o, s = .head p o) → Place.token t =
        if last.kind = .cond ∧ t.kind = .closing then .token last
        else if IsSign before last ∧ t.kind = .number then .upTo last.offset t
        else .token t := by
      intro hs
      rw [if_neg, if_neg]
      · rintro ⟨hlast, -⟩
        obtain rfl := digits_of_isSign h hlast
        simp [Patient] at hs
      · rintro ⟨hlast, -⟩
        obtain rfl := caseOf_of_cond h hlast
        simp [Patient] at hs
    cases s with
    | digits sign =>
      obtain ⟨rfl, hlast⟩ := isSign_of_digits h rfl
      simp [place, hlast, hlast.1]
    | caseOf keyword =>
      cases keyword with
      | none => exact hother (.inl trivial)
      | some keyword =>
        obtain ⟨rfl, hlast⟩ := cond_of_caseOf h rfl
        simp [place, hlast, IsSign]
    | head p o => cases p <;> exact hother (.inr ⟨_, o, rfl⟩)
    | expr | cases | args | signature | name | params | closing => exact hother (.inl trivial)

/-- No token may come after an expression, and each of them is blamed itself. -/
theorem offendingPlace_of_run_eq_nil (h : run [.expr .any] before = some []) :
    offendingPlace before t = .token t := by
  rcases List.eq_nil_or_concat before with rfl | ⟨before, last, rfl⟩
  · rfl
  · rw [List.concat_eq_append] at h ⊢
    obtain ⟨mid, -, htake⟩ := run_concat_eq_some_iff.1 h
    obtain ⟨s, below, above, rfl, hadvance, hlater⟩ := take_eq_some_iff.1 htake
    obtain ⟨rfl, rfl⟩ := List.append_eq_nil_iff.1 hlater.symm
    cases (turn_of_advance hadvance).1 with
    | met hminus hcond => simp [offendingPlace, IsSign, hminus, hcond]

theorem unfinished_place (hlex : ∀ t ∈ ts, t.IsLexical)
    (h : run [.expr .any] ts = some (s :: rest)) : Unfinished ts (s.place []) := by
  have hend : s.place [] = .endOfInput → Unfinished ts .endOfInput := by
    intro hs
    refine .endOfInput ?_ ?_
    · rintro before t rfl hsign
      obtain rfl := digits_of_isSign h hsign
      cases hs
    · rintro before t kind rfl hk hawaits
      obtain ⟨below, hbelow⟩ := (awaits_iff (List.forall_mem_append.1 hlex).1).1 hawaits
      rw [run_concat_of_eq hbelow, take, advance, advanceExpr, hk] at h
      obtain ⟨rfl, -⟩ := List.cons.inj (Option.some.inj h)
      cases hs
  rcases List.eq_nil_or_concat ts with rfl | ⟨before, t, rfl⟩
  · obtain ⟨rfl, -⟩ := List.cons.inj (Option.some.inj h)
    exact hend rfl
  · rw [List.concat_eq_append] at h hlex ⊢ hend
    cases s with
    | digits sign =>
      obtain ⟨rfl, hsign⟩ := isSign_of_digits h rfl
      exact .sign rfl hsign
    | head p o =>
      cases p with
      | any => exact hend rfl
      | only kind =>
        obtain ⟨rfl, hk, met, below, hmet, rfl | ⟨-, hany⟩⟩ := opening_of_head h rfl
        · exact .opening rfl hk
            ((awaits_iff (List.forall_mem_append.1 hlex).1).2 ⟨below, hmet⟩)
        · cases hany
    | caseOf keyword => cases keyword <;> exact hend rfl
    | expr | cases | args | signature | name | params | closing => exact hend rfl

theorem take_of_not_inRange {p : Position} (hk : t.kind = .number)
    (hrange : inRange t.value = false) : take (.expr p :: rest) t = none := by
  simp [take, advance, advanceExpr, hk, hrange]

theorem blamed_of_take_eq_none {after : List Token} {stack : List Expected}
    (hlex : ∀ u ∈ before ++ t :: after, u.IsLexical)
    (hstack : run [.expr .any] before = some stack) (htake : take stack t = none) :
    Blamed (before ++ t :: after) (offendingPlace before t) := by
  rw [List.append_cons] at hlex
  have hlex := (List.forall_mem_append.1 hlex).1
  refine .offending rfl
    ((completable_iff (List.forall_mem_append.1 hlex).1).2 ⟨stack, hstack⟩) fun hcomplete => ?_
  obtain ⟨later, hlater⟩ := (completable_concat_iff hlex hstack).1 hcomplete
  cases htake.symm.trans hlater

/-! ## Numbers of too many digits -/

theorem completable_literal_iff {stack : List Expected} (hlex : ∀ t ∈ before, t.IsLexical)
    (hstack : run [.expr .any] before = some stack) :
    Completable (before ++ [literal .number]) ↔ take stack (literal .number) ≠ none := by
  have hlex' : ∀ t ∈ before ++ [literal .number], t.IsLexical :=
    List.forall_mem_append.2 ⟨hlex, List.forall_mem_singleton.2 (isLexical_literal .number)⟩
  rw [completable_concat_iff hlex' hstack, Option.ne_none_iff_exists']

theorem overflows_of_overflowsAt {n : Nat} (hlex : ∀ t ∈ ts, t.IsLexical)
    (h : OverflowsAt [.expr .any] ts n) : Overflows ts n := by
  obtain ⟨pre, t, post, s, rest, rfl, hpre, hk, hconv, hlength, hnumber⟩ := h
  refine ⟨pre, t, post, rfl, hpre.convertible, ?_, hk, hconv, hlength⟩
  refine (completable_literal_iff (List.forall_mem_append.1 hlex).1 hpre.run).2 fun hnone => ?_
  exact hnumber (take_eq_none_iff.1 hnone)

/-- What can be converted ends before the number that cannot. -/
theorem exists_append_of_convertible {pre post after : List Token}
    (hts : pre ++ post = before ++ t :: after) (hpre : ∀ u ∈ pre, u.Convertible)
    (hconv : ¬t.Convertible) : ∃ mid, before = pre ++ mid ∧ post = mid ++ t :: after := by
  obtain ⟨mid, rfl, hpost⟩ | ⟨mid, rfl, hafter⟩ := List.append_eq_append_iff.1 hts
  · exact ⟨mid, rfl, hpost⟩
  · cases mid with
    | nil => exact ⟨[], by simp, hafter.symm⟩
    | cons u mid =>
      obtain ⟨rfl, -⟩ := List.cons.inj hafter
      exact absurd (hpre _ (by simp)) hconv

theorem Overflows.unique {n m : Nat} (h : Overflows ts n) (h' : Overflows ts m) : n = m := by
  obtain ⟨before, t, after, rfl, hbefore, -, -, hconv, rfl⟩ := h
  obtain ⟨before', t', after', hts, hbefore', -, -, hconv', rfl⟩ := h'
  obtain ⟨mid, rfl, hmid⟩ := exists_append_of_convertible hts hbefore hconv'
  cases mid with
  | nil =>
    obtain ⟨rfl, -⟩ := List.cons.inj hmid
    rfl
  | cons u mid =>
    obtain ⟨rfl, -⟩ := List.cons.inj hmid
    exact absurd (hbefore' t (by simp)) hconv

/-- Where tokens are stuck, a number of too many digits does not come first. -/
theorem not_overflows_of_stuck {n : Nat} {pre post : List Token} {stack : List Expected}
    (hlex : ∀ t ∈ pre ++ post, t.IsLexical) (hpre : Meets [.expr .any] pre stack)
    (hstuck : ∀ t, post.head? = some t → take stack t = none ∧
      (t.Convertible ∨ take stack (literal .number) = none)) : ¬Overflows (pre ++ post) n := by
  rintro ⟨before, t, after, hts, -, hcomplete, hk, hconv, -⟩
  have hlexbefore : ∀ u ∈ before, u.IsLexical := (List.forall_mem_append.1 (hts ▸ hlex)).1
  obtain ⟨mid, rfl, rfl⟩ := exists_append_of_convertible hts hpre.convertible hconv
  cases mid with
  | nil =>
    rw [List.append_nil] at hlexbefore hcomplete
    obtain hgood | hnone := (hstuck t rfl).2
    · exact hconv hgood
    · exact (completable_literal_iff hlexbefore hpre.run).1 hcomplete hnone
  | cons u mid =>
    obtain ⟨later, hrun⟩ := (completable_iff hlexbefore).1
      (hcomplete.of_append (List.forall_mem_singleton.2 (isLexical_literal .number)))
    rw [run_append_of_eq hpre.run, run_cons, (hstuck u rfl).1] at hrun
    cases hrun

/-- Tokens that are refused for a fault of the grammar do not reach a number of too many digits. -/
theorem not_overflows_of_program {n : Nat} (hlex : ∀ t ∈ ts, t.IsLexical) {left : List Token}
    {e : GrammarError} (h : program ts = .error (.grammar e) left) : ¬Overflows ts n := by
  obtain ⟨_, he, -⟩ | ⟨fault, place, -, hplace⟩ := blamesAt_of_program h
  · cases he
  obtain ⟨pre, post, s, rest, rfl, hpre, hstuck, -⟩ | ⟨pre, t, post, rfl, hpre, -⟩ := hplace
  · refine not_overflows_of_stuck hlex hpre fun t ht => ?_
    exact ⟨take_eq_none_iff.2 (hstuck t ht).1, (hstuck t ht).2.imp_right take_eq_none_iff.2⟩
  · exact not_overflows_of_stuck hlex hpre fun u _ => ⟨rfl, .inr rfl⟩

/-! ## Refused tokens -/

/-- Tokens that are refused are blamed where they lie that are not expected, or reading stopped at a
number of too many digits. -/
theorem blamed_of_program (hlex : ∀ t ∈ ts, t.IsLexical) {left : List Token} {e : ReadError}
    (h : program ts = .error e left) :
    (∃ n, e = .oversized n ∧ Overflows ts n) ∨
      ∃ fault place, e = .grammar ⟨fault, place⟩ ∧ Blamed ts place := by
  obtain ⟨n, rfl, hover⟩ | ⟨fault, place, rfl, hplace⟩ := blamesAt_of_program h
  · exact .inl ⟨n, rfl, overflows_of_overflowsAt hlex hover⟩
  refine .inr ⟨fault, place, rfl, ?_⟩
  obtain ⟨pre, post, s, rest, rfl, hpre, hstuck, rfl⟩ | ⟨pre, t, post, rfl, hpre, rfl⟩ := hplace
  · cases post with
    | nil =>
      rw [List.append_nil] at hlex ⊢
      refine .unfinished ((completable_iff hlex).2 ⟨_, hpre.run⟩) (fun e hd => ?_)
        (unfinished_place hlex hpre.run)
      cases hpre.run.symm.trans (run_of_derives hlex hd)
    | cons t post =>
      rw [place_eq_offendingPlace hpre.run]
      exact blamed_of_take_eq_none hlex hpre.run (take_eq_none_iff.2 (hstuck t rfl).1)
  · rw [← offendingPlace_of_run_eq_nil hpre.run]
    exact blamed_of_take_eq_none hlex hpre.run rfl

/-! ## There is one such place -/

theorem last_unique {before' : List Token} {t' : Token} (h : ts = before ++ [t])
    (h' : ts = before' ++ [t']) : t = t' := by
  simpa using congrArg List.getLast? (h.symm.trans h')

theorem Unfinished.unique {place place' : Place} (h : Unfinished ts place)
    (h' : Unfinished ts place') : place = place' := by
  cases h with
  | @sign before t hts hsign =>
    cases h' with
    | sign hts' | opening hts' => rw [last_unique hts hts']
    | endOfInput hno => exact absurd hsign (hno before t hts)
  | @opening before t kind hts hk hawaits =>
    cases h' with
    | sign hts' | opening hts' => rw [last_unique hts hts']
    | endOfInput _ hno => exact absurd hawaits (hno before t kind hts hk)
  | endOfInput hsign hopening =>
    cases h' with
    | sign hts hsign' => exact absurd hsign' (hsign _ _ hts)
    | opening hts hk hawaits => exact absurd hawaits (hopening _ _ _ hts hk)
    | endOfInput => rfl

/-- What goes on with a token that cannot come next is not completed. -/
theorem eq_nil_of_completable {after later : List Token} (hlex : ∀ u ∈ later, u.IsLexical)
    (hno : ¬Completable (before ++ [t])) (h : Completable (before ++ later))
    (hlater : t :: after = later ++ us) : later = [] := by
  cases later with
  | nil => rfl
  | cons u later =>
    obtain ⟨rfl, -⟩ := List.cons.inj hlater
    rw [List.append_cons] at h
    exact absurd (h.of_append (List.forall_mem_cons.1 hlex).2) hno

theorem Blamed.unique {place place' : Place} (hlex : ∀ t ∈ ts, t.IsLexical) (h : Blamed ts place)
    (h' : Blamed ts place') : place = place' := by
  -- the tokens before an offending one are not more than those before another
  have hprefix : ∀ {before after later t} (us), ts = before ++ t :: after →
      ¬Completable (before ++ [t]) → Completable (before ++ later) → ts = before ++ later ++ us →
      later = [] := by
    intro before after later t us hts hno hcomplete hts'
    refine eq_nil_of_completable (fun u hu => hlex u ?_) hno hcomplete
      (List.append_cancel_left ((hts.symm.trans hts').trans (List.append_assoc ..)))
    rw [hts']
    exact List.mem_append_left _ (List.mem_append_right _ hu)
  cases h with
  | @offending before after t hts hcomplete hno =>
    cases h' with
    | @offending before' after' t' hts' hcomplete' hno' =>
      obtain ⟨later, rfl, -⟩ | ⟨later, rfl, -⟩ :=
        List.append_eq_append_iff.1 (hts.symm.trans hts')
      · obtain rfl := hprefix _ hts hno hcomplete' hts'
        rw [List.append_nil] at hts' ⊢
        obtain ⟨rfl, -⟩ := List.cons.inj (List.append_cancel_left (hts.symm.trans hts'))
        rfl
      · obtain rfl := hprefix _ hts' hno' hcomplete hts
        rw [List.append_nil] at hts ⊢
        obtain ⟨rfl, -⟩ := List.cons.inj (List.append_cancel_left (hts.symm.trans hts'))
        rfl
    | unfinished hcomplete' =>
      rw [hts] at hcomplete'
      cases hprefix [] hts hno hcomplete' (by rw [hts, List.append_nil])
  | unfinished hcomplete hnot hplace =>
    cases h' with
    | offending hts' _ hno' =>
      rw [hts'] at hcomplete
      cases hprefix [] hts' hno' hcomplete (by rw [hts', List.append_nil])
    | unfinished _ _ hplace' => exact hplace.unique hplace'

/-- Tokens that are blamed anywhere are no expression. -/
theorem Blamed.not_derives {place : Place} (hlex : ∀ t ∈ ts, t.IsLexical) (h : Blamed ts place)
    (e : Expr) : ¬Derives .any ts e := by
  cases h with
  | unfinished _ hnot => exact hnot e
  | offending hts _ hno =>
    intro hd
    rw [hts, List.append_cons] at hd hlex
    exact hno ⟨_, e, (List.forall_mem_append.1 hlex).2, hd⟩

end Parser

/-- **Faults of the grammar lie where the input stops making sense.**  A text that is cut into
tokens, and is no expression, is refused for a fault of the grammar, and the fault lies where its
tokens are to be blamed; and there is no other place where they are.  The exception are texts whose
tokens go on to a number of too many digits, where a number may come: exactly those are refused
without a place. -/
theorem parse_error_place {source : String} {ts : List Token} (htokens : tokenize source = .ok ts) :
    (∀ failure, parse source = .error failure →
      (∃ n, failure = .oversized n ∧ Parser.Overflows ts n) ∨ ∃ fault place,
        failure = .error (.grammar fault) (place.locate (some source)) ∧
          Parser.Blamed ts place) ∧
    (∀ place, Parser.Blamed ts place → (∀ n, ¬Parser.Overflows ts n) → ∃ fault,
      parse source = .error (.error (.grammar fault) (place.locate (some source)))) ∧
    ∀ n, Parser.Overflows ts n → parse source = .error (.oversized n) := by
  have hlex := isLexical_of_mem_tokenize htokens
  have hfirst : ∀ failure, parse source = .error failure →
      (∃ n, failure = .oversized n ∧ Parser.Overflows ts n) ∨ ∃ fault place,
        failure = .error (.grammar fault) (place.locate (some source)) ∧
          Parser.Blamed ts place ∧ ∀ n, ¬Parser.Overflows ts n := by
    intro failure h
    rw [parse_of_tokenize htokens] at h
    split at h
    · cases h
    · next e left hread =>
      obtain rfl := Except.error.inj h
      obtain ⟨n, rfl, hover⟩ | ⟨fault, place, rfl, hplace⟩ := Parser.blamed_of_program hlex hread
      · exact .inl ⟨n, rfl, hover⟩
      · exact .inr ⟨fault, place, rfl, hplace, fun n =>
          Parser.not_overflows_of_program hlex hread⟩
  refine ⟨fun failure h => (hfirst failure h).imp_right ?_, fun place hplace hno => ?_,
    fun n hover => ?_⟩
  · rintro ⟨fault, place, hfailure, hplace, -⟩
    exact ⟨fault, place, hfailure, hplace⟩
  · cases h : parse source with
    | ok e =>
      obtain ⟨ts', hts', hd, -⟩ := parse_eq_ok_iff.1 h
      obtain rfl := Except.ok.inj (htokens.symm.trans hts')
      exact absurd hd (hplace.not_derives hlex e)
    | error failure =>
      obtain ⟨n, rfl, hover⟩ | ⟨fault, place', rfl, hplace', -⟩ := hfirst failure h
      · exact absurd hover (hno n)
      · exact ⟨fault, by rw [hplace.unique hlex hplace']⟩
  · cases h : parse source with
    | ok e =>
      obtain ⟨before, t, after, hts, -, -, -, hconv, -⟩ := hover
      obtain ⟨ts', hts', -, hall⟩ := parse_eq_ok_iff.1 h
      obtain rfl := Except.ok.inj (htokens.symm.trans hts')
      exact absurd (hall t (hts ▸ List.mem_append_right _ (List.mem_cons_self ..))) hconv
    | error failure =>
      obtain ⟨m, rfl, hover'⟩ | ⟨fault, place, rfl, -, hno⟩ := hfirst failure h
      · rw [hover.unique hover']
      · exact absurd hover (hno n)

/-- After `(+ 1` a number is needed, and a delimiter at the end of the input that opens it is blamed
itself. -/
theorem parse_error_place_opening :
    let o : Token := ⟨.opening, "[", 5⟩
    let before : List Token := [⟨.opening, "(", 0⟩, ⟨.plus, "+", 1⟩, ⟨.number, "1", 3⟩]
    tokenize "(+ 1 [" = .ok (before ++ [o]) ∧ Parser.Blamed (before ++ [o]) (.token o) ∧
      ∃ fault, parse "(+ 1 [" =
        .error (.error (.grammar fault) ⟨some "(+ 1 [", some 5, some 6⟩) := by
  intro o before
  have htokens : tokenize "(+ 1 [" = .ok (before ++ [o]) := by decide +kernel
  have hlex := isLexical_of_mem_tokenize htokens
  have hawaits : Parser.Awaits before .number :=
    (Parser.awaits_iff (List.forall_mem_append.1 hlex).1).2 ⟨_, rfl⟩
  have hblamed : Parser.Blamed (before ++ [o]) (.token o) := by
    refine .unfinished ((Parser.completable_iff hlex).2 ⟨_, rfl⟩) (fun e hd => ?_)
      (.opening rfl rfl hawaits)
    cases (Parser.run_expr_eq_nil_iff hlex).2 ⟨e, hd⟩
  have hlocate : (Place.token o).locate (some "(+ 1 [") = ⟨some "(+ 1 [", some 5, some 6⟩ := by
    decide +kernel
  have hno : ∀ n, ¬Parser.Overflows (before ++ [o]) n := by
    rintro n ⟨pre, t, post, hts, -, -, -, hconv, -⟩
    have hall : ∀ u ∈ before ++ [o], u.Convertible := by decide
    exact hconv (hall t (hts ▸ List.mem_append_right _ (List.mem_cons_self ..)))
  obtain ⟨fault, hparse⟩ := (parse_error_place htokens).2.1 _ hblamed hno
  exact ⟨htokens, hblamed, fault, hlocate ▸ hparse⟩

/-- A text of 4301 digits is blamed at its one token, since its value has more than 32 bits, and it
is refused without a place. -/
theorem parse_error_place_ones :
    let ones := Token.repeated '1' 4301
    tokenize ones.text = .ok [ones] ∧ Parser.Blamed [ones] (.token ones) ∧
      parse ones.text = .error (.oversized 4301) := by
  intro ones
  have hlex : ones.IsLexical := Token.isLexical_repeated rfl (by decide)
  have hlex' : ∀ t ∈ [] ++ ones :: [], t.IsLexical := List.forall_mem_singleton.2 hlex
  refine ⟨Token.tokenize_repeated rfl (by decide), ?_, parse_repeated rfl (by decide)⟩
  exact Parser.blamed_of_take_eq_none hlex' rfl
    (Parser.take_of_not_inRange rfl (Token.inRange_ones (by decide)))

end DynLisp
