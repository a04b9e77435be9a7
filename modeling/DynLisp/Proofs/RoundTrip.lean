import DynLisp.Expr.Canonical
import DynLisp.Proofs.Parser.Acceptance
import DynLisp.Proofs.Spelling
import DynLisp.Proofs.WellFormed

/-!
# Canonical texts read back

The canonical text of a well-formed tree spells tokens that derive the tree (`spells_text`), by
induction on the tree.  Together with `Derives.wellFormed` this says which trees read back from
their canonical text: the well-formed ones and no others.
-/

namespace DynLisp

/-! ## Lists of texts -/

namespace Expr

theorem texts_eq_map (es : List Expr) : texts es = es.map text := by
  induction es with
  | nil => rfl
  | cons e es ih => exact congrArg (text e :: ·) ih

/-- The canonical text of a case. -/
theorem caseTexts_eq_map (cases : List (Expr × Expr)) :
    caseTexts cases = cases.map fun c => "(" ++ text c.1 ++ " " ++ text c.2 ++ ")" := by
  induction cases with
  | nil => rfl
  | cons c cases ih => exact congrArg (("(" ++ text c.1 ++ " " ++ text c.2 ++ ")") :: ·) ih

/-! ## Canonical texts of forms -/

theorem text_arith (op : ArithOp) (l r : Expr) :
    (arith op l r).text = "(" ++ op.symbol ++ " " ++ l.text ++ " " ++ r.text ++ ")" := rfl

theorem text_logic (op : LogicOp) (l r : Expr) :
    (logic op l r).text = "(" ++ op.symbol ++ " " ++ l.text ++ " " ++ r.text ++ ")" := rfl

theorem text_unary (op : UnaryOp) (e : Expr) :
    (unary op e).text = "(" ++ op.symbol ++ " " ++ e.text ++ ")" := rfl

theorem text_compare (op : CompareOp) (l r : Expr) :
    (compare op l r).text = "(" ++ op.symbol ++ " " ++ l.text ++ " " ++ r.text ++ ")" := rfl

theorem text_cond (cases : List (Expr × Expr)) : (cond cases).text =
    "(cond " ++ " ".intercalate (cases.map fun c => "(" ++ c.1.text ++ " " ++ c.2.text ++ ")") ++
      ")" := by
  rw [← caseTexts_eq_map]
  rfl

theorem text_define (f : String) (params : List String) (body : Expr) :
    (define f params body).text =
      "(define (" ++ " ".intercalate (f :: params) ++ ") " ++ body.text ++ ")" := rfl

theorem text_call (f : String) (args : List Expr) :
    (call f args).text = "(" ++ " ".intercalate (f :: args.map text) ++ ")" := by
  rw [← texts_eq_map]
  rfl

end Expr

/-! ## Literals -/

theorem spells_number {p : Position} {n : Int} (hp : p.Admits .number) (hn : inRange n = true) :
    Spells (Decimal.write n) (Derives p · (.number n)) := by
  have hdigits : ∀ m ≤ 2147483648, Spells (String.ofList (Decimal.digits m)) fun ts =>
      ∃ t, ts = [t] ∧ t.kind = .number ∧ t.text = String.ofList (Decimal.digits m) := by
    intro m hm
    refine Spells.token (fun _ => .number rfl ?_ ?_) fun _ _ => ?_
    · rw [String.toList_ofList]
      exact Decimal.digits_ne_nil m
    · rw [String.toList_ofList]
      exact fun c hc => Decimal.isDigit_of_mem_digits hc
    · rw [String.length_ofList]
      exact Decimal.length_digits_le hm
  have hvalue : ∀ {t : Token} {m : Nat}, t.text = String.ofList (Decimal.digits m) →
      t.value = m := by
    intro t m ht
    rw [Token.value, ht, String.toList_ofList, Decimal.read_digits]
  have hbounds := inRange_iff.1 hn
  rw [minNumber, maxNumber] at hbounds
  cases n with
  | ofNat m =>
    have hm : m ≤ 2147483648 := by
      rw [Int.ofNat_eq_natCast] at hbounds
      omega
    rw [Decimal.write]
    refine (hdigits m hm).mono ?_
    rintro _ ⟨t, rfl, hk, ht⟩
    have hd : Derives p [t] (.number t.value) := .literal hp hk (by rwa [hvalue ht])
    rwa [hvalue ht] at hd
  | negSucc m =>
    have htext : Decimal.write (.negSucc m) = "-" ++ String.ofList (Decimal.digits (m + 1)) := by
      rw [Decimal.write, ← String.toList_inj]
      simp
    rw [htext]
    refine (Spells.sign (c := '-') rfl rfl (hdigits (m + 1) (by omega))).mono ?_
    rintro _ ⟨sign, _, rfl, hsign, t, rfl, hk, ht⟩
    have hneg : -t.value = Int.negSucc m := by
      rw [hvalue ht]
      rfl
    have hrange : inRange (-t.value) = true := hneg.symm ▸ hn
    have hd : Derives p [sign, t] (.number (-t.value)) := .negative hp hsign hk hrange
    rwa [hneg] at hd

theorem spells_boolean {p : Position} {b : Bool} (hp : p.Admits .boolean) :
    Spells (boolText b) (Derives p · (.boolean b)) := by
  cases b with
  | true =>
    refine (Spells.word (s := "true") (by decide)).mono ?_
    rintro _ ⟨t, rfl, hk, ht⟩
    exact .trueLiteral hp hk ht
  | false =>
    refine (Spells.word (s := "false") (by decide)).mono ?_
    rintro _ ⟨t, rfl, hk, ht⟩
    exact .falseLiteral hp hk ht

/-! ## Operators -/

/-- An operator is written as one sign of punctuation, and is the operator of that kind. -/
def IsSign {α : Type} (ofKind? : TokenKind → Option α) (symbol : String) (op : α) : Prop :=
  ∃ c kind, TokenKind.ofPunctuation? c = some kind ∧ symbol.toList = [c] ∧ ofKind? kind = some op

theorem ArithOp.isSign (op : ArithOp) : IsSign ofKind? op.symbol op := by
  cases op
  · exact ⟨'+', .plus, rfl, rfl, rfl⟩
  · exact ⟨'-', .minus, rfl, rfl, rfl⟩
  · exact ⟨'*', .star, rfl, rfl, rfl⟩
  · exact ⟨'/', .slash, rfl, rfl, rfl⟩
  · exact ⟨'%', .percent, rfl, rfl, rfl⟩

theorem LogicOp.isSign (op : LogicOp) : IsSign ofKind? op.symbol op := by
  cases op
  · exact ⟨'&', .ampersand, rfl, rfl, rfl⟩
  · exact ⟨'|', .pipe, rfl, rfl, rfl⟩

theorem UnaryOp.isSign (op : UnaryOp) : IsSign ofKind? op.symbol op := by
  cases op
  exact ⟨'!', .bang, rfl, rfl, rfl⟩

theorem CompareOp.isSign (op : CompareOp) : IsSign ofKind? op.symbol op := by
  cases op
  · exact ⟨'<', .lessThan, rfl, rfl, rfl⟩
  · exact ⟨'=', .equal, rfl, rfl, rfl⟩
  · exact ⟨'>', .greaterThan, rfl, rfl, rfl⟩

/-- An opening bracket and an operator. -/
theorem spells_operator {α : Type} {ofKind? : TokenKind → Option α} {symbol : String} {op : α}
    (hop : IsSign ofKind? symbol op) :
    Spells ("(" ++ symbol) fun ts =>
      ∃ o t, ts = [o, t] ∧ o.kind = .opening ∧ ofKind? t.kind = some op := by
  obtain ⟨c, kind, hc, hsymbol, hkind⟩ := hop
  have hlexical : ∀ offset, Token.IsLexical ⟨kind, symbol, offset⟩ := fun _ =>
    .punctuation c (by rw [← String.toList_inj, hsymbol, String.toList_ofList]) hc
  have hsigns := (Spells.token hlexical fun _ =>
    .of_kind_ne fun hk => TokenKind.ofPunctuation?_ne_number (hc.trans (congrArg some hk))).opening
  refine hsigns.mono ?_
  rintro _ ⟨o, _, rfl, ho, t, rfl, rfl, -⟩
  exact ⟨o, t, rfl, ho, hkind⟩

/-- An operator with two operands. -/
theorem spells_binary {α : Type} {ofKind? : TokenKind → Option α} {symbol left right : String}
    {op : α} {R S : List Token → Prop} (hop : IsSign ofKind? symbol op) (hl : Spells left R)
    (hr : Spells right S) :
    Spells ("(" ++ symbol ++ " " ++ left ++ " " ++ right ++ ")") fun ts =>
      ∃ o t ls rs c, ts = o :: t :: (ls ++ (rs ++ [c])) ∧ o.kind = .opening ∧
        ofKind? t.kind = some op ∧ R ls ∧ S rs ∧ c.kind = .closing := by
  have hform := (((spells_operator hop).blank hl).blank hr).closing
  refine hform.mono ?_
  rintro _ ⟨_, c, rfl, ⟨_, rs, rfl, ⟨_, ls, rfl, ⟨o, t, rfl, ho, ht⟩, hls⟩, hrs⟩, hc⟩
  exact ⟨o, t, ls, rs, c, by simp, ho, ht, hls, hrs, hc⟩

/-! ## Forms -/

theorem spells_arith {p : Position} {op : ArithOp} {l r : Expr} (hp : p.Admits .number)
    (hl : Spells l.text (Derives (.only .number) · l))
    (hr : Spells r.text (Derives (.only .number) · r)) :
    Spells (Expr.arith op l r).text (Derives p · (.arith op l r)) := by
  rw [Expr.text_arith]
  refine (spells_binary op.isSign hl hr).mono ?_
  rintro _ ⟨o, t, ls, rs, c, rfl, ho, ht, hls, hrs, hc⟩
  exact .arith hp ho ht hls hrs hc

theorem spells_logic {p : Position} {op : LogicOp} {l r : Expr} (hp : p.Admits .boolean)
    (hl : Spells l.text (Derives (.only .boolean) · l))
    (hr : Spells r.text (Derives (.only .boolean) · r)) :
    Spells (Expr.logic op l r).text (Derives p · (.logic op l r)) := by
  rw [Expr.text_logic]
  refine (spells_binary op.isSign hl hr).mono ?_
  rintro _ ⟨o, t, ls, rs, c, rfl, ho, ht, hls, hrs, hc⟩
  exact .logic hp ho ht hls hrs hc

theorem spells_compare {p : Position} {op : CompareOp} {l r : Expr} (hp : p.Admits .boolean)
    (hl : Spells l.text (Derives (.only .number) · l))
    (hr : Spells r.text (Derives (.only .number) · r)) :
    Spells (Expr.compare op l r).text (Derives p · (.compare op l r)) := by
  rw [Expr.text_compare]
  refine (spells_binary op.isSign hl hr).mono ?_
  rintro _ ⟨o, t, ls, rs, c, rfl, ho, ht, hls, hrs, hc⟩
  exact .compare hp ho ht hls hrs hc

theorem spells_unary {p : Position} {op : UnaryOp} {e : Expr} (hp : p.Admits .boolean)
    (he : Spells e.text (Derives (.only .boolean) · e)) :
    Spells (Expr.unary op e).text (Derives p · (.unary op e)) := by
  rw [Expr.text_unary]
  have hform := ((spells_operator op.isSign).blank he).closing
  refine hform.mono ?_
  rintro _ ⟨_, c, rfl, ⟨_, ts, rfl, ⟨o, t, rfl, ho, ht⟩, hts⟩, hc⟩
  rw [List.append_assoc]
  exact .unary hp ho ht hts hc

/-- A case of a conditional. -/
theorem spells_case {condition result : Expr}
    (hcondition : Spells condition.text (Derives (.only .boolean) · condition))
    (hresult : Spells result.text (Derives .any · result)) :
    Spells ("(" ++ condition.text ++ " " ++ result.text ++ ")")
      (DerivesCase · (condition, result)) := by
  have hform := (hcondition.opening.blank hresult).closing
  refine hform.mono ?_
  rintro _ ⟨_, c, rfl, ⟨_, us, rfl, ⟨o, ts, rfl, ho, hts⟩, hus⟩, hc⟩
  rw [List.append_assoc]
  exact .mk ho hts hus hc

theorem spells_cond {p : Position} {cases : List (Expr × Expr)} (hne : cases ≠ [])
    (hcases : ∀ c ∈ cases, Spells ("(" ++ c.1.text ++ " " ++ c.2.text ++ ")") (DerivesCase · c)) :
    Spells (Expr.cond cases).text (Derives p · (.cond cases)) := by
  obtain ⟨first, rest, rfl⟩ := List.exists_cons_of_ne_nil hne
  obtain ⟨hfirst, hrest⟩ := List.forall_mem_cons.1 hcases
  have hword : Spells "cond" fun ts => ∃ t, ts = [t] ∧ t.kind = .cond ∧ t.text = "cond" :=
    Spells.word (by decide)
  rw [Expr.text_cond, List.map_cons]
  have hform := (hword.opening.blank (hfirst.intercalate hrest)).closing
  refine hform.mono ?_
  rintro _ ⟨_, c, rfl, ⟨_, _, rfl, ⟨o, _, rfl, ho, t, rfl, ht, -⟩, us, vs, rfl, hus, hvs⟩, hc⟩
  have hsequence : Sequence DerivesCase (us ++ vs) (first :: rest) := .cons hus hvs
  exact .cond ho ht hne hsequence hc

theorem spells_call {p : Position} {f : String} {args : List Expr} (hf : IsName f)
    (hargs : ∀ e ∈ args, Spells e.text (Derives .any · e)) :
    Spells (Expr.call f args).text (Derives p · (.call f args)) := by
  rw [Expr.text_call]
  have hform := ((Spells.name hf).intercalate hargs).opening.closing
  refine hform.mono ?_
  rintro _ ⟨_, c, rfl, ⟨o, _, rfl, ho, _, vs, rfl, ⟨t, rfl, hk, rfl⟩, hvs⟩, hc⟩
  exact .call ho hk hvs hc

/-- Tokens one for each of some names are what the names are the texts of. -/
theorem identifiers_of_sequence {ts : List Token} {names : List String}
    (h : Sequence (fun us x => ∃ t, us = [t] ∧ t.kind = .identifier ∧ t.text = x) ts names) :
    (∀ t ∈ ts, t.kind = .identifier) ∧ ts.map Token.text = names := by
  induction h with
  | nil => exact ⟨nofun, rfl⟩
  | cons hx _ ih =>
    obtain ⟨t, rfl, hk, rfl⟩ := hx
    exact ⟨List.forall_mem_cons.2 ⟨hk, ih.1⟩, congrArg _ ih.2⟩

theorem spells_names {f : String} {params : List String} (hf : IsName f)
    (hparams : ∀ x ∈ params, IsName x) :
    Spells (" ".intercalate (f :: params)) fun ts =>
      ∃ t us, ts = t :: us ∧ t.kind = .identifier ∧ t.text = f ∧
        (∀ u ∈ us, u.kind = .identifier) ∧ us.map Token.text = params := by
  have hnames := Spells.intercalate (f := id) (Spells.name hf)
    fun x hx => Spells.name (hparams x hx)
  rw [List.map_id] at hnames
  refine hnames.mono ?_
  rintro _ ⟨_, us, rfl, ⟨t, rfl, hk, ht⟩, hus⟩
  obtain ⟨hkinds, htexts⟩ := identifiers_of_sequence hus
  exact ⟨t, us, rfl, hk, ht, hkinds, htexts⟩

theorem spells_define {f : String} {params : List String} {body : Expr} (hf : IsName f)
    (hparams : ∀ x ∈ params, IsName x) (hdistinct : params.Nodup)
    (hbody : Spells body.text (Derives .any · body)) :
    Spells (Expr.define f params body).text (Derives .any · (.define f params body)) := by
  have hword : Spells "define" fun ts => ∃ t, ts = [t] ∧ t.kind = .define ∧ t.text = "define" :=
    Spells.word (by decide)
  have hnames := spells_names hf hparams
  -- the brackets around the names are written together with what stands before and after them
  have htext : (Expr.define f params body).text =
      "(" ++ "define" ++ " " ++ ("(" ++ " ".intercalate (f :: params) ++ ")") ++ " " ++
        body.text ++ ")" := by
    rw [Expr.text_define, ← String.toList_inj]
    simp
  rw [htext]
  have hform := ((hword.opening.blank hnames.opening.closing).blank hbody).closing
  refine hform.mono ?_
  rintro _ ⟨_, c, rfl, ⟨_, ts, rfl, ⟨_, _, rfl, ⟨o, _, rfl, ho, t, rfl, ht, -⟩, _, c', rfl,
    ⟨o', _, rfl, ho', x, us, rfl, hx, rfl, hkinds, rfl⟩, hc'⟩, hts⟩, hc⟩
  have hd : Derives .any (o :: t :: o' :: x :: (us ++ c' :: (ts ++ [c])))
      (.define x.text (us.map Token.text) body) :=
    .define ho ht ho' hx hkinds hdistinct hc' hts hc
  simpa using hd

mutual

/-- The canonical text of a well-formed tree spells the tree. -/
theorem spells_text : ∀ {p : Position} (e : Expr), e.WellFormed p → Spells e.text (Derives p · e)
  | p, .number n, h => by
    rw [Expr.WellFormed] at h
    exact spells_number h.1 h.2
  | p, .boolean b, h => by
    rw [Expr.WellFormed] at h
    exact spells_boolean h
  | p, .arith op l r, h => by
    rw [Expr.WellFormed] at h
    exact spells_arith h.1 (spells_text l h.2.1) (spells_text r h.2.2)
  | p, .logic op l r, h => by
    rw [Expr.WellFormed] at h
    exact spells_logic h.1 (spells_text l h.2.1) (spells_text r h.2.2)
  | p, .unary op e, h => by
    rw [Expr.WellFormed] at h
    exact spells_unary h.1 (spells_text e h.2)
  | p, .compare op l r, h => by
    rw [Expr.WellFormed] at h
    exact spells_compare h.1 (spells_text l h.2.1) (spells_text r h.2.2)
  | p, .case _ _, h => by
    rw [Expr.WellFormed] at h
    exact h.elim
  | p, .cond cases, h => by
    rw [Expr.WellFormed] at h
    exact spells_cond h.1 (spells_cases cases h.2)
  | p, .define f params body, h => by
    rw [Expr.WellFormed] at h
    obtain ⟨rfl, hf, hparams, hdistinct, hbody⟩ := h
    exact spells_define hf hparams hdistinct (spells_text body hbody)
  | p, .var x, h => by
    rw [Expr.WellFormed] at h
    refine (Spells.name h).mono ?_
    rintro _ ⟨t, rfl, hk, rfl⟩
    exact .var hk
  | p, .call f args, h => by
    rw [Expr.WellFormed] at h
    exact spells_call h.1 (spells_texts args h.2)

theorem spells_texts : ∀ es, Expr.AllWellFormed es →
    ∀ e ∈ es, Spells e.text (Derives .any · e)
  | [], _ => nofun
  | e :: es, h => by
    rw [Expr.AllWellFormed] at h
    exact List.forall_mem_cons.2 ⟨spells_text e h.1, spells_texts es h.2⟩

theorem spells_cases : ∀ cases, Expr.CasesWellFormed cases →
    ∀ c ∈ cases, Spells ("(" ++ c.1.text ++ " " ++ c.2.text ++ ")") (DerivesCase · c)
  | [], _ => nofun
  | (condition, result) :: cases, h => by
    rw [Expr.CasesWellFormed] at h
    refine List.forall_mem_cons.2 ⟨?_, spells_cases cases h.2.2⟩
    exact spells_case (spells_text condition h.1) (spells_text result h.2.1)

end

/-! ## Round trip -/

/-- **A tree reads back from its canonical text** exactly if it is well-formed.  All trees that are
read from a text are well-formed, so reading, writing and reading again changes nothing. -/
theorem parse_text_iff :
    (∀ e : Expr, parse e.text = .ok e ↔ e.WellFormed .any) ∧
      ∀ (source : String) (e : Expr), parse source = .ok e →
        e.WellFormed .any ∧ parse e.text = .ok e := by
  have hwritten : ∀ e : Expr, e.WellFormed .any → parse e.text = .ok e := by
    intro e he
    obtain ⟨ts, hd, hconv, htokens⟩ := (spells_text e he).tokenize
    exact parse_eq_ok_iff.2 ⟨ts, htokens, hd, hconv⟩
  have hread : ∀ (source : String) (e : Expr), parse source = .ok e → e.WellFormed .any := by
    intro source e h
    obtain ⟨ts, htokens, hd, -⟩ := parse_eq_ok_iff.1 h
    exact hd.wellFormed (isLexical_of_mem_tokenize htokens)
  refine ⟨fun e => ⟨hread e.text e, hwritten e⟩, fun source e h => ?_⟩
  exact ⟨hread source e h, hwritten e (hread source e h)⟩

/-- A negative literal after an operator, words that hold signs, and a call without arguments. -/
theorem parse_text_iff_define :
    let e : Expr := .define "go-on?" ["x!"] (.cond
      [(.compare .less (.var "x!") (.number (-3)), .arith .sub (.number (-1)) (.call "f" []))])
    e.text = "(define (go-on? x!) (cond ((< x! -3) (- -1 (f)))))" ∧
      parse "(define (go-on? x!) (cond ((< x! -3) (- -1 (f)))))" = .ok e ∧ e.WellFormed .any := by
  intro e
  have htext : e.text = "(define (go-on? x!) (cond ((< x! -3) (- -1 (f)))))" := by decide
  have hparse := (parse_text_iff.1 e).2 (by decide)
  rw [htext] at hparse
  exact ⟨htext, hparse, (parse_text_iff.2 _ e hparse).1⟩

end DynLisp
