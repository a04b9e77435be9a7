import DynLisp.Proofs.Grammar
import DynLisp.Proofs.Lexing
import Mathlib.Data.List.Nodup

/-!
# What a reader of tokens reads

`Reads n p Item` says what a reader `p` accepts, without saying how it finds out: from fewer than
`n` tokens, `p` returns `x` and leaves `rest` exactly when the tokens before `rest` are written as
`x` and no number among them has too many digits.  It is soundness and completeness of `p` in one
statement, and it composes: the reader of a form reads what its parts read, one after the other
(`Reads.bind`).

The bound `n` is for the recursion.  A form takes its opening delimiter before anything else, so
that its operands need to be understood only on fewer tokens than the form (`Reads.afterToken`).

A repetition stops before a closing delimiter, which is left to the reader after it.  What it takes
is a `Sequence` of items, `reads_untilClosing`, or a list of distinct names, `reads_parameters`.
The former needs of its items only that they start with a token that closes nothing: then a
sequence is not stopped inside, and every item takes at least one token.
-/

namespace DynLisp
namespace Parser

variable {α β : Type}

/-! ## Single steps -/

theorem bind_eq_ok_iff {p : Parser α} {f : α → Parser β} {us rest : List Token} {b : β} :
    (p >>= f) us = .ok b rest ↔ ∃ a mid, p us = .ok a mid ∧ f a mid = .ok b rest := by
  show EStateM.bind p f us = .ok b rest ↔ _
  rw [EStateM.bind]
  constructor
  · intro h
    split at h
    · next a mid hp => exact ⟨a, mid, hp, h⟩
    · cases h
  · rintro ⟨a, mid, hp, hf⟩
    rw [hp]
    exact hf

theorem bind_of_eq_ok {p : Parser α} {f : α → Parser β} {us rest : List Token} {a : α}
    (h : p us = .ok a rest) : (p >>= f) us = f a rest := by
  show EStateM.bind p f us = f a rest
  rw [EStateM.bind, h]

theorem bind_of_eq_error {p : Parser α} {f : α → Parser β} {us rest : List Token}
    {e : ReadError} (h : p us = .error e rest) : (p >>= f) us = .error e rest := by
  show EStateM.bind p f us = .error e rest
  rw [EStateM.bind, h]

/-- What follows a reader is told by what the reader does. -/
theorem bind_congr_left {p p' : Parser α} {us : List Token} (h : p us = p' us)
    (f : α → Parser β) : (p >>= f) us = (p' >>= f) us := by
  show EStateM.bind p f us = EStateM.bind p' f us
  rw [EStateM.bind, EStateM.bind, h]

theorem pure_eq_ok_iff {us rest : List Token} {a b : α} :
    (pure a : Parser α) us = .ok b rest ↔ us = rest ∧ b = a := by
  show EStateM.Result.ok a us = .ok b rest ↔ _
  rw [EStateM.Result.ok.injEq, and_comm, eq_comm (a := a)]

theorem peek_bind (n : Nat) (f : Option Token → Parser β) (us : List Token) :
    (peek n >>= f) us = f us[n]? us := rfl

theorem peekKind_bind (n : Nat) (f : Option TokenKind → Parser β) (us : List Token) :
    (peekKind n >>= f) us = f (us[n]?.map Token.kind) us := rfl

/-- A result that is not looked at need not be discarded. -/
theorem discard_bind (p : Parser α) (f : Parser β) :
    (discard p >>= fun _ => f) = (p >>= fun _ => f) := by
  funext us
  show EStateM.bind (EStateM.map (Function.const α PUnit.unit) p) (fun _ => f) us =
    EStateM.bind p (fun _ => f) us
  rw [EStateM.bind, EStateM.bind, EStateM.map]
  cases p us <;> rfl

theorem expect_eq_ok_iff {kind : TokenKind} {wanted : String} {us rest : List Token} {t : Token} :
    expect kind wanted us = .ok t rest ↔ us = t :: rest ∧ t.kind = kind := by
  rw [expect]
  cases us with
  | nil => simp [expectOneOf]
  | cons u us =>
    simp only [expectOneOf, List.mem_singleton, List.cons.injEq]
    split
    · next h =>
      rw [EStateM.Result.ok.injEq]
      exact ⟨fun ⟨hu, hus⟩ => ⟨⟨hu, hus⟩, hu ▸ h⟩, And.left⟩
    · next h => exact ⟨nofun, fun ⟨⟨hu, _⟩, hk⟩ => absurd (hu ▸ hk) h⟩

theorem operator_eq_ok_iff {ofKind? : TokenKind → Option α} {family : String}
    {us rest : List Token} {op : α} :
    operator ofKind? family us = .ok op rest ↔
      ∃ t, us = t :: rest ∧ ofKind? t.kind = some op := by
  rw [operator, bind_eq_ok_iff]
  constructor
  · rintro ⟨t, mid, hnext, hop⟩
    cases us with
    | nil => cases hnext
    | cons u us =>
      obtain ⟨rfl, rfl⟩ := EStateM.Result.ok.inj hnext
      cases hk : ofKind? u.kind with
      | none =>
        rw [hk] at hop
        cases hop
      | some op' =>
        rw [hk] at hop
        obtain ⟨rfl, rfl⟩ := pure_eq_ok_iff.1 hop
        exact ⟨u, rfl, hk⟩
  · rintro ⟨t, rfl, hop⟩
    refine ⟨t, rest, rfl, ?_⟩
    rw [hop]
    rfl

/-! ## Readers and what they read -/

/-- On fewer than `n` tokens that fit their kinds, `p` takes from the front exactly the tokens that
`Item` says its result is written as, if all numbers among them can be converted. -/
def Reads (n : Nat) (p : Parser α) (Item : List Token → α → Prop) : Prop :=
  ∀ us : List Token, us.length < n → (∀ t ∈ us, t.IsLexical) → ∀ x rest,
    p us = .ok x rest ↔ ∃ ts, us = ts ++ rest ∧ Item ts x ∧ ∀ t ∈ ts, t.Convertible

/-- As `Reads`, for a reader that stops before a closing delimiter and nowhere else. -/
def ReadsUpToClosing (n : Nat) (p : Parser α) (Item : List Token → α → Prop) : Prop :=
  ∀ us : List Token, us.length < n → (∀ t ∈ us, t.IsLexical) → ∀ x rest,
    p us = .ok x rest ↔ ∃ ts, us = ts ++ rest ∧ Item ts x ∧
      rest.head?.map Token.kind = some .closing ∧ ∀ t ∈ ts, t.Convertible

variable {n : Nat}

theorem Reads.congr {p : Parser α} {Item Item' : List Token → α → Prop} (hp : Reads n p Item)
    (h : ∀ ts x, Item ts x ↔ Item' ts x) : Reads n p Item' := by
  intro us hn hlex x rest
  rw [hp us hn hlex]
  exact exists_congr fun ts => and_congr_right fun _ => and_congr_left fun _ => h ts x

theorem Reads.bind {p : Parser α} {f : α → Parser β} {Item : List Token → α → Prop}
    {Next : α → List Token → β → Prop} (hp : Reads n p Item) (hf : ∀ x, Reads n (f x) (Next x)) :
    Reads n (p >>= f) fun ts y => ∃ x us vs, ts = us ++ vs ∧ Item us x ∧ Next x vs y := by
  intro us hn hlex y rest
  rw [bind_eq_ok_iff]
  constructor
  · rintro ⟨x, mid, hx, hy⟩
    obtain ⟨ts, rfl, hitem, hconv⟩ := (hp us hn hlex x mid).1 hx
    rw [List.length_append] at hn
    obtain ⟨vs, rfl, hnext, hconv'⟩ :=
      (hf x mid (by omega) (List.forall_mem_append.1 hlex).2 y rest).1 hy
    exact ⟨ts ++ vs, (List.append_assoc ..).symm, ⟨x, ts, vs, rfl, hitem, hnext⟩,
      List.forall_mem_append.2 ⟨hconv, hconv'⟩⟩
  · rintro ⟨_, rfl, ⟨x, ts, vs, rfl, hitem, hnext⟩, hconv⟩
    rw [List.append_assoc] at hn hlex ⊢
    rw [List.forall_mem_append] at hconv
    refine ⟨x, vs ++ rest, (hp _ hn hlex x _).2 ⟨ts, rfl, hitem, hconv.1⟩, ?_⟩
    rw [List.length_append] at hn
    exact (hf x _ (by omega) (List.forall_mem_append.1 hlex).2 y rest).2 ⟨vs, rfl, hnext, hconv.2⟩

theorem reads_pure (a : α) : Reads n (pure a) fun ts x => ts = [] ∧ x = a := by
  intro us _ _ x rest
  rw [pure_eq_ok_iff]
  constructor
  · rintro ⟨rfl, rfl⟩
    exact ⟨[], rfl, ⟨rfl, rfl⟩, List.forall_mem_nil _⟩
  · rintro ⟨_, rfl, ⟨rfl, rfl⟩, -⟩
    exact ⟨rfl, rfl⟩

theorem reads_expect {kind : TokenKind} (hkind : kind ≠ .number) (wanted : String) :
    Reads n (expect kind wanted) fun ts t => ts = [t] ∧ t.kind = kind := by
  intro us _ _ t rest
  rw [expect_eq_ok_iff]
  constructor
  · rintro ⟨rfl, hk⟩
    exact ⟨[t], rfl, ⟨rfl, hk⟩, List.forall_mem_singleton.2 (.of_kind_ne (hk ▸ hkind))⟩
  · rintro ⟨_, rfl, ⟨rfl, hk⟩, -⟩
    exact ⟨rfl, hk⟩

theorem reads_operator {ofKind? : TokenKind → Option α} (hnumber : ofKind? .number = none)
    (family : String) :
    Reads n (operator ofKind? family) fun ts op => ∃ t, ts = [t] ∧ ofKind? t.kind = some op := by
  intro us _ _ op rest
  rw [operator_eq_ok_iff]
  constructor
  · rintro ⟨t, rfl, hk⟩
    exact ⟨[t], rfl, ⟨t, rfl, hk⟩,
      List.forall_mem_singleton.2 (.of_kind_ne (Token.kind_ne_number_of_operator hnumber hk))⟩
  · rintro ⟨_, rfl, ⟨t, rfl, hk⟩, -⟩
    exact ⟨t, rfl, hk⟩

/-- A form that starts with a token reads what follows from fewer tokens. -/
theorem Reads.afterToken {kind : TokenKind} (hkind : kind ≠ .number) {wanted : String}
    {f : Token → Parser β} {Next : Token → List Token → β → Prop}
    (hf : ∀ t, Reads n (f t) (Next t)) :
    Reads (n + 1) (expect kind wanted >>= f) fun ts y =>
      ∃ t us, ts = t :: us ∧ t.kind = kind ∧ Next t us y := by
  intro us hn hlex y rest
  rw [bind_eq_ok_iff]
  constructor
  · rintro ⟨t, mid, ht, hy⟩
    obtain ⟨rfl, hk⟩ := expect_eq_ok_iff.1 ht
    rw [List.length_cons] at hn
    obtain ⟨ts, rfl, hnext, hconv⟩ :=
      (hf t mid (by omega) (List.forall_mem_cons.1 hlex).2 y rest).1 hy
    exact ⟨t :: ts, rfl, ⟨t, ts, rfl, hk, hnext⟩,
      List.forall_mem_cons.2 ⟨.of_kind_ne (hk ▸ hkind), hconv⟩⟩
  · rintro ⟨_, rfl, ⟨t, ts, rfl, hk, hnext⟩, hconv⟩
    rw [List.cons_append] at hn hlex ⊢
    rw [List.length_cons] at hn
    exact ⟨t, ts ++ rest, expect_eq_ok_iff.2 ⟨rfl, hk⟩,
      (hf t _ (by omega) (List.forall_mem_cons.1 hlex).2 y rest).2
        ⟨ts, rfl, hnext, (List.forall_mem_cons.1 hconv).2⟩⟩

/-- After a reader that stops before a closing delimiter, that delimiter is taken. -/
theorem ReadsUpToClosing.bind {p : Parser α} {f : α → Parser β} {Item : List Token → α → Prop}
    {Next : α → List Token → β → Prop} (hp : ReadsUpToClosing n p Item)
    (hf : ∀ x, Reads n (f x) (Next x)) :
    Reads n (p >>= fun x => expectClosing >>= fun _ => f x) fun ts y =>
      ∃ x us c vs, ts = us ++ c :: vs ∧ Item us x ∧ c.kind = .closing ∧ Next x vs y := by
  intro us hn hlex y rest
  rw [bind_eq_ok_iff]
  constructor
  · rintro ⟨x, mid, hx, hy⟩
    obtain ⟨ts, rfl, hitem, -, hconv⟩ := (hp us hn hlex x mid).1 hx
    obtain ⟨c, later, hc, hlater⟩ := bind_eq_ok_iff.1 hy
    obtain ⟨rfl, hk⟩ := expect_eq_ok_iff.1 hc
    rw [List.length_append, List.length_cons] at hn
    obtain ⟨vs, rfl, hnext, hconv'⟩ := (hf x later (by omega)
      (List.forall_mem_cons.1 (List.forall_mem_append.1 hlex).2).2 y rest).1 hlater
    have hclosing : c.Convertible := .of_kind_ne (by rw [hk]; decide)
    exact ⟨ts ++ c :: vs, by simp, ⟨x, ts, c, vs, rfl, hitem, hk, hnext⟩,
      List.forall_mem_append.2 ⟨hconv, List.forall_mem_cons.2 ⟨hclosing, hconv'⟩⟩⟩
  · rintro ⟨_, rfl, ⟨x, ts, c, vs, rfl, hitem, hk, hnext⟩, hconv⟩
    rw [List.append_assoc, List.cons_append] at hn hlex ⊢
    rw [List.forall_mem_append, List.forall_mem_cons] at hconv
    refine ⟨x, c :: (vs ++ rest),
      (hp _ hn hlex x _).2 ⟨ts, rfl, hitem, by simp [hk], hconv.1⟩, ?_⟩
    refine bind_eq_ok_iff.2 ⟨c, vs ++ rest, expect_eq_ok_iff.2 ⟨rfl, hk⟩, ?_⟩
    rw [List.length_append, List.length_cons] at hn
    exact (hf x _ (by omega)
      (List.forall_mem_cons.1 (List.forall_mem_append.1 hlex).2).2 y rest).2
        ⟨vs, rfl, hnext, hconv.2.2⟩

/-- A reader that is refused, at `keyword`, where a closing delimiter comes next. -/
theorem Reads.unlessClosing {q : Parser Expr} {Item : List Token → Expr → Prop}
    (fault : GrammarFault) (keyword : Token) (hq : Reads n q Item)
    (hne : ∀ ts x, Item ts x → ts ≠ []) :
    Reads n (peekKind 0 >>= fun kind =>
      if kind = some .closing then blame fault keyword >>= fun (_ : PUnit) => q else q)
      fun ts x => Item ts x ∧ ts.head?.map Token.kind ≠ some .closing := by
  intro us hn hlex x rest
  rw [peekKind_bind]
  have hhead : ∀ ts, Item ts x → (ts ++ rest)[0]? = ts.head? := by
    intro ts hitem
    rw [List.getElem?_append_left (List.length_pos_iff.2 (hne ts x hitem)), List.head?_eq_getElem?]
  by_cases hk : us[0]?.map Token.kind = some .closing
  · rw [if_pos hk]
    constructor
    · exact nofun
    · rintro ⟨ts, rfl, ⟨hitem, hopen⟩, -⟩
      rw [hhead ts hitem] at hk
      exact absurd hk hopen
  · rw [if_neg hk, hq us hn hlex x rest]
    constructor
    · rintro ⟨ts, rfl, hitem, hconv⟩
      rw [hhead ts hitem] at hk
      exact ⟨ts, rfl, ⟨hitem, hk⟩, hconv⟩
    · rintro ⟨ts, rfl, ⟨hitem, -⟩, hconv⟩
      exact ⟨ts, rfl, hitem, hconv⟩

/-! ## Repetitions -/

theorem untilClosing_of_closing {item : Parser α} {us : List Token}
    (h : us.head?.map Token.kind = some .closing) : untilClosing item us = .ok [] us := by
  rw [untilClosing, if_pos h]

/-- Before anything else an item comes first, if it takes a token. -/
theorem untilClosing_of_not_closing {item : Parser α} {us : List Token}
    (hopen : us.head?.map Token.kind ≠ some .closing)
    (hprogress : ∀ x left, item us = .ok x left → left.length < us.length) :
    untilClosing item us =
      (item >>= fun x => untilClosing item >>= fun xs => pure (x :: xs)) us := by
  show _ = EStateM.bind item _ us
  rw [untilClosing, if_neg hopen, EStateM.bind]
  cases hitem : item us with
  | error e left => rfl
  | ok x left =>
    simp only [if_pos (hprogress x left hitem)]
    show _ = EStateM.bind (untilClosing item) (fun xs => pure (x :: xs)) left
    unfold EStateM.bind
    cases untilClosing item left <;> rfl

/-- What `untilClosing` takes is a sequence of items. -/
theorem sequence_of_untilClosing {item : Parser α} {Item : List Token → α → Prop}
    (hitem : Reads n item Item) (hstart : ∀ ts x, Item ts x → StartsOpen ts) {us rest : List Token}
    {xs : List α} (hn : us.length < n) (hlex : ∀ t ∈ us, t.IsLexical)
    (h : untilClosing item us = .ok xs rest) :
    ∃ ts, us = ts ++ rest ∧ Sequence Item ts xs ∧
      rest.head?.map Token.kind = some .closing ∧ ∀ t ∈ ts, t.Convertible := by
  fun_induction untilClosing item us generalizing xs rest with
  | case1 us hclosing =>
    obtain ⟨rfl, rfl⟩ := EStateM.Result.ok.inj h
    exact ⟨[], rfl, .nil, hclosing, List.forall_mem_nil _⟩
  | case2 us hclosing e mid herror => cases h
  | case3 us hclosing x mid hx hlt ys later hrec ih =>
    obtain ⟨rfl, rfl⟩ := EStateM.Result.ok.inj h
    obtain ⟨ts, rfl, hhead, hconv⟩ := (hitem us hn hlex x mid).1 hx
    obtain ⟨vs, rfl, hseq, hnext, hconv'⟩ :=
      ih (by omega) (List.forall_mem_append.1 hlex).2 hrec
    exact ⟨ts ++ vs, (List.append_assoc ..).symm, .cons hhead hseq, hnext,
      List.forall_mem_append.2 ⟨hconv, hconv'⟩⟩
  | case4 us hclosing x mid hx hlt e later hrec ih => cases h
  | case5 us hclosing x mid hx hle =>
    -- an item that reads nothing would be read forever, and there is none
    obtain ⟨ts, rfl, hhead, -⟩ := (hitem us hn hlex x mid).1 hx
    obtain ⟨t, us, rfl, -⟩ := hstart ts x hhead
    exact absurd (by simp only [List.length_append, List.length_cons]; omega) hle

/-- A sequence of items before a closing delimiter is taken by `untilClosing`. -/
theorem untilClosing_of_sequence {item : Parser α} {Item : List Token → α → Prop}
    (hitem : Reads n item Item) (hstart : ∀ ts x, Item ts x → StartsOpen ts) {ts rest : List Token}
    {xs : List α} (hseq : Sequence Item ts xs) (hn : (ts ++ rest).length < n)
    (hlex : ∀ t ∈ ts ++ rest, t.IsLexical) (hconv : ∀ t ∈ ts, t.Convertible)
    (hnext : rest.head?.map Token.kind = some .closing) :
    untilClosing item (ts ++ rest) = .ok xs rest := by
  induction hseq with
  | nil => exact untilClosing_of_closing hnext
  | @cons ts us x xs hhead hseq ih =>
    rw [List.append_assoc] at hn hlex ⊢
    rw [List.forall_mem_append] at hconv
    have hx := (hitem _ hn hlex x (us ++ rest)).2 ⟨ts, rfl, hhead, hconv.1⟩
    obtain ⟨t, ts, rfl, hk⟩ := hstart ts x hhead
    have hshort : (us ++ rest).length < (t :: ts ++ (us ++ rest)).length := by
      simp only [List.length_append, List.length_cons]
      omega
    have hrec := ih (by omega) (List.forall_mem_append.1 hlex).2 hconv.2
    rw [untilClosing, if_neg (by simpa using hk), hx]
    simp only [hshort, if_true, hrec]

theorem reads_untilClosing {item : Parser α} {Item : List Token → α → Prop}
    (hitem : Reads n item Item) (hstart : ∀ ts x, Item ts x → StartsOpen ts) :
    ReadsUpToClosing n (untilClosing item) (Sequence Item) := by
  intro us hn hlex xs rest
  constructor
  · exact sequence_of_untilClosing hitem hstart hn hlex
  · rintro ⟨ts, rfl, hseq, hnext, hconv⟩
    exact untilClosing_of_sequence hitem hstart hseq hn hlex hconv hnext

/-- What `parameters` takes after some parameters are names, and it returns them all, each once. -/
theorem names_of_parameters {function : String} {seen params : List String}
    {us rest : List Token} (hseen : seen.Nodup)
    (h : parameters function seen us = .ok params rest) :
    ∃ ts, us = ts ++ rest ∧ ((∀ t ∈ ts, t.kind = .identifier) ∧
      params = seen ++ ts.map Token.text ∧ params.Nodup) ∧
      rest.head?.map Token.kind = some .closing := by
  fun_induction parameters function seen us generalizing params rest with
  | case1 seen => cases h
  | case2 seen t ts hk =>
    obtain ⟨rfl, rfl⟩ := EStateM.Result.ok.inj h
    exact ⟨[], rfl, ⟨by simp, by simp, hseen⟩, by simp [hk]⟩
  | case3 seen t ts hclosing hk hmem => cases h
  | case4 seen t ts hclosing hk hmem ih =>
    have hseen' : (seen ++ [t.text]).Nodup := by
      rw [List.nodup_append]
      refine ⟨hseen, List.nodup_singleton _, fun a ha b hb => ?_⟩
      rw [List.mem_singleton.1 hb]
      rintro rfl
      exact hmem ha
    obtain ⟨us, rfl, ⟨hkinds, rfl, hdistinct⟩, hnext⟩ := ih hseen' h
    refine ⟨t :: us, rfl, ⟨List.forall_mem_cons.2 ⟨hk, hkinds⟩, by simp, hdistinct⟩, hnext⟩
  | case5 seen t ts hclosing hk => cases h

/-- Distinct names before a closing delimiter are taken by `parameters`. -/
theorem parameters_of_names {function : String} {ts rest : List Token} :
    ∀ seen : List String, (∀ t ∈ ts, t.kind = .identifier) →
      (seen ++ ts.map Token.text).Nodup → rest.head?.map Token.kind = some .closing →
      parameters function seen (ts ++ rest) = .ok (seen ++ ts.map Token.text) rest := by
  induction ts with
  | nil =>
    intro seen _ _ hnext
    obtain ⟨c, later, rfl⟩ : ∃ c later, rest = c :: later := by
      cases rest with
      | nil => cases hnext
      | cons c later => exact ⟨c, later, rfl⟩
    rw [List.nil_append, parameters, if_pos (by simpa using hnext), List.map_nil, List.append_nil]
  | cons t ts ih =>
    intro seen hkinds hdistinct hnext
    obtain ⟨hk, hkinds⟩ := List.forall_mem_cons.1 hkinds
    have hnew : t.text ∉ seen := by
      intro hmem
      rw [List.map_cons, List.nodup_append] at hdistinct
      exact hdistinct.2.2 _ hmem _ (List.mem_cons_self ..) rfl
    rw [List.map_cons, List.append_cons] at hdistinct ⊢
    rw [List.cons_append, parameters, if_neg (by rw [hk]; decide), if_pos hk, if_neg hnew]
    exact ih _ hkinds hdistinct hnext

theorem reads_parameters (function : String) :
    ReadsUpToClosing n (parameters function []) fun ts params =>
      (∀ t ∈ ts, t.kind = .identifier) ∧ params = ts.map Token.text ∧ params.Nodup := by
  intro us _ _ params rest
  constructor
  · intro h
    obtain ⟨ts, hts, hnames, hnext⟩ := names_of_parameters List.nodup_nil h
    exact ⟨ts, hts, hnames, hnext, fun t ht => .of_kind_ne (by rw [hnames.1 t ht]; decide)⟩
  · rintro ⟨ts, rfl, ⟨hkinds, rfl, hdistinct⟩, hnext, -⟩
    exact parameters_of_names [] hkinds hdistinct hnext

end Parser

end DynLisp
