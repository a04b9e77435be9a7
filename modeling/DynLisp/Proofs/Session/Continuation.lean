import DynLisp.Proofs.Session.Join

/-!
# Which lines go on

A line is held back when more opening than closing delimiters stand in it.  For the beginning of a
sequence of expressions this count agrees with the grammar: the line is held back exactly if its
tokens end inside a form (`Session.prepareLine_goesOn_iff`).

Two facts about the delimiters of an expression carry this.  They are balanced, so a sequence of
expressions opens as many as it closes; and the delimiter that a form starts with stays open until
its last token, so what is cut off inside a form opens more than it closes (`Delimited.of_append`).
A cut through a text is a cut through one expression at most (`Sequence.exists_of_append`), and the
only cut through an expression that counting misses is the one after the sign of a number, where no
delimiter has been opened yet.
-/

namespace DynLisp

variable {t sign : Token} {ts us : List Token}

/-! ## Depth -/

/-- One for a delimiter that opens and less one for a delimiter that closes. -/
def Token.delimiter (t : Token) : Int :=
  match t.kind with
  | .opening => 1
  | .closing => -1
  | _ => 0

/-- How many delimiters are opened in some tokens more than are closed. -/
def depth (ts : List Token) : Int :=
  ts.countP (·.kind = .opening) - ts.countP (·.kind = .closing)

theorem Token.delimiter_of_opening (h : t.kind = .opening) : t.delimiter = 1 := by
  rw [delimiter, h]

theorem Token.delimiter_of_closing (h : t.kind = .closing) : t.delimiter = -1 := by
  rw [delimiter, h]

theorem Token.delimiter_of_ne (hopening : t.kind ≠ .opening) (hclosing : t.kind ≠ .closing) :
    t.delimiter = 0 := by
  rw [delimiter]
  split
  · contradiction
  · contradiction
  · rfl

/-- A token of another kind is no delimiter. -/
theorem Token.delimiter_of_kind {kind : TokenKind} (h : t.kind = kind)
    (hopening : kind ≠ .opening) (hclosing : kind ≠ .closing) : t.delimiter = 0 :=
  delimiter_of_ne (h ▸ hopening) (h ▸ hclosing)

/-- No operator is a delimiter. -/
theorem Token.delimiter_of_operator {α : Type} {ofKind? : TokenKind → Option α} {op : α}
    (h : ofKind? t.kind = some op) (hopening : ofKind? .opening = none)
    (hclosing : ofKind? .closing = none) : t.delimiter = 0 := by
  refine delimiter_of_ne (fun hk => ?_) fun hk => ?_
  · rw [hk, hopening] at h
    cases h
  · rw [hk, hclosing] at h
    cases h

@[simp] theorem depth_nil : depth [] = 0 := rfl

@[simp] theorem depth_cons (t : Token) (ts : List Token) :
    depth (t :: ts) = t.delimiter + depth ts := by
  rw [depth, depth, List.countP_cons, List.countP_cons]
  by_cases hopening : t.kind = .opening
  · rw [if_pos (decide_eq_true hopening), if_neg (by simp [hopening]),
      Token.delimiter_of_opening hopening]
    omega
  · by_cases hclosing : t.kind = .closing
    · rw [if_neg (by simp [hopening]), if_pos (decide_eq_true hclosing),
        Token.delimiter_of_closing hclosing]
      omega
    · rw [if_neg (by simp [hopening]), if_neg (by simp [hclosing]),
        Token.delimiter_of_ne hopening hclosing]
      omega

@[simp] theorem depth_append (ts us : List Token) : depth (ts ++ us) = depth ts + depth us := by
  rw [depth, depth, depth, List.countP_append, List.countP_append]
  omega

/-! ## Balanced tokens -/

/-- As many delimiters are opened as are closed, and never more closed than have been opened. -/
structure Balanced (ts : List Token) : Prop where
  settled : depth ts = 0
  nonneg : ∀ before, before <+: ts → 0 ≤ depth before

theorem balanced_nil : Balanced [] where
  settled := rfl
  nonneg before h := by
    rw [List.prefix_nil.1 h]
    exact Int.le_refl 0

theorem Balanced.append (h : Balanced ts) (h' : Balanced us) : Balanced (ts ++ us) where
  settled := by rw [depth_append, h.settled, h'.settled, Int.add_zero]
  nonneg before hbefore := by
    rcases List.prefix_or_prefix_of_prefix hbefore (List.prefix_append ts us) with
      hts | ⟨later, rfl⟩
    · exact h.nonneg before hts
    · rw [depth_append, h.settled, Int.zero_add]
      exact h'.nonneg later ((List.prefix_append_right_inj ts).1 hbefore)

theorem Balanced.cons (ht : t.delimiter = 0) (h : Balanced ts) : Balanced (t :: ts) where
  settled := by rw [depth_cons, ht, h.settled, Int.add_zero]
  nonneg before hbefore := by
    rcases List.prefix_cons_iff.1 hbefore with rfl | ⟨later, rfl, hts⟩
    · exact Int.le_refl 0
    · rw [depth_cons, ht, Int.zero_add]
      exact h.nonneg later hts

theorem balanced_of_forall (h : ∀ t ∈ ts, t.delimiter = 0) : Balanced ts := by
  induction ts with
  | nil => exact balanced_nil
  | cons t ts ih =>
    obtain ⟨ht, hts⟩ := List.forall_mem_cons.1 h
    exact (ih hts).cons ht

/-! ## The delimiters of an expression -/

/-- How delimiters stand in an expression: there are none, or the first and the last token are a
pair of them and what is between is balanced. -/
inductive Delimited : List Token → Prop
  | word {t : Token} : t.delimiter = 0 → Delimited [t]
  | signed {sign t : Token} : sign.kind = .minus → t.delimiter = 0 → Delimited [sign, t]
  | form {o c : Token} {inner : List Token} :
      o.kind = .opening → c.kind = .closing → Balanced inner → Delimited (o :: (inner ++ [c]))

/-- What is cut off a form before its end leaves the first delimiter open. -/
theorem Balanced.depth_pos {o c : Token} {inner : List Token} (ho : o.kind = .opening)
    (h : Balanced inner) (hts : ts <+: o :: (inner ++ [c])) (hne : ts ≠ [])
    (hcut : ts ≠ o :: (inner ++ [c])) : 0 < depth ts := by
  rcases List.prefix_cons_iff.1 hts with rfl | ⟨before, rfl, hbefore⟩
  · exact absurd rfl hne
  · have hinner : before <+: inner := by
      rcases List.prefix_concat_iff.1 hbefore with rfl | hinner
      · exact absurd rfl hcut
      · exact hinner
    have hnonneg := h.nonneg before hinner
    rw [depth_cons, Token.delimiter_of_opening ho]
    omega

theorem Delimited.balanced (h : Delimited ts) : Balanced ts := by
  cases h with
  | word ht => exact balanced_nil.cons ht
  | signed hsign ht =>
    exact (balanced_nil.cons ht).cons (Token.delimiter_of_kind hsign (by decide) (by decide))
  | @form o c inner ho hc hinner =>
    have hsettled : depth (o :: (inner ++ [c])) = 0 := by
      rw [depth_cons, depth_append, depth_cons, depth_nil, Token.delimiter_of_opening ho,
        Token.delimiter_of_closing hc, hinner.settled]
      rfl
    refine ⟨hsettled, fun before hbefore => ?_⟩
    by_cases hne : before = []
    · rw [hne]
      exact Int.le_refl 0
    · by_cases hcut : before = o :: (inner ++ [c])
      · exact Int.le_of_eq (by rw [hcut, hsettled])
      · exact Int.le_of_lt (hinner.depth_pos ho hbefore hne hcut)

/-- A cut through an expression is after a sign or leaves a delimiter open. -/
theorem Delimited.of_append (h : Delimited (ts ++ us)) (hts : ts ≠ []) (hus : us ≠ []) :
    (∃ sign, ts = [sign] ∧ sign.kind = .minus) ∨
      ∃ o inner, ts = o :: inner ∧ o.kind = .opening ∧ 0 < depth ts := by
  obtain ⟨t, before, rfl⟩ := List.exists_cons_of_ne_nil hts
  have hcut : ∀ ws, (t :: before) ++ us = ws → t :: before ≠ ws := by
    rintro ws h rfl
    exact hus (List.append_right_eq_self.1 h)
  generalize hws : (t :: before) ++ us = ws at h
  have hprefix : t :: before <+: ws := ⟨us, hws⟩
  replace hcut := hcut ws hws
  cases h with
  | word _ =>
    rcases List.prefix_cons_iff.1 hprefix with h | ⟨_, h, hnil⟩
    · cases h
    · rw [List.prefix_nil.1 hnil] at h
      exact absurd h hcut
  | signed hsign _ =>
    rcases List.prefix_cons_iff.1 hprefix with h | ⟨later, h, hlater⟩
    · cases h
    · rcases List.prefix_cons_iff.1 hlater with rfl | ⟨_, rfl, hnil⟩
      · obtain ⟨rfl, rfl⟩ := List.cons.inj h
        exact .inl ⟨_, rfl, hsign⟩
      · rw [List.prefix_nil.1 hnil] at h
        exact absurd h hcut
  | form ho _ hinner =>
    obtain rfl : t = _ := (List.cons.inj hws).1
    exact .inr ⟨t, before, rfl, ho, hinner.depth_pos ho hprefix hts hcut⟩

/-- Two items between a word and a closing delimiter, inside of a form. -/
theorem delimited_binary {o c : Token} {ls rs : List Token} (ho : o.kind = .opening)
    (ht : t.delimiter = 0) (hl : Balanced ls) (hr : Balanced rs) (hc : c.kind = .closing) :
    Delimited (o :: t :: (ls ++ (rs ++ [c]))) := by
  have hform := Delimited.form ho hc ((hl.append hr).cons ht)
  rwa [List.cons_append, List.append_assoc] at hform

mutual

theorem Derives.delimited : ∀ {p : Position} {ts : List Token} {e : Expr},
    Derives p ts e → Delimited ts
  | _, _, .number _, h => by
    cases h with
    | literal _ hk => exact .word (Token.delimiter_of_kind hk (by decide) (by decide))
    | negative _ hsign hk =>
      exact .signed hsign (Token.delimiter_of_kind hk (by decide) (by decide))
  | _, _, .boolean _, h => by
    cases h with
    | trueLiteral _ hk => exact .word (Token.delimiter_of_kind hk (by decide) (by decide))
    | falseLiteral _ hk => exact .word (Token.delimiter_of_kind hk (by decide) (by decide))
  | _, _, .arith .., h => by
    cases h with
    | arith _ ho hk hl hr hc =>
      exact delimited_binary ho (Token.delimiter_of_operator hk rfl rfl) hl.delimited.balanced
        hr.delimited.balanced hc
  | _, _, .logic .., h => by
    cases h with
    | logic _ ho hk hl hr hc =>
      exact delimited_binary ho (Token.delimiter_of_operator hk rfl rfl) hl.delimited.balanced
        hr.delimited.balanced hc
  | _, _, .unary .., h => by
    cases h with
    | unary _ ho hk he hc =>
      exact .form ho hc (he.delimited.balanced.cons (Token.delimiter_of_operator hk rfl rfl))
  | _, _, .compare .., h => by
    cases h with
    | compare _ ho hk hl hr hc =>
      exact delimited_binary ho (Token.delimiter_of_operator hk rfl rfl) hl.delimited.balanced
        hr.delimited.balanced hc
  | _, _, .case .., h => nomatch h
  | _, _, .cond _, h => by
    cases h with
    | cond ho hk _ hcases hc =>
      exact .form ho hc ((balanced_of_cases hcases).cons
        (Token.delimiter_of_kind hk (by decide) (by decide)))
  | _, _, .define .., h => by
    cases h with
    | @define o t o' f c' c params ts body ho hk ho' hf hparams _ hc' hbody hc =>
      have hnames : Balanced (f :: params) :=
        (balanced_of_forall fun x hx =>
          Token.delimiter_of_kind (hparams x hx) (by decide) (by decide)).cons
            (Token.delimiter_of_kind hf (by decide) (by decide))
      have hhead := (Delimited.form ho' hc' hnames).balanced
      have hform := Delimited.form ho hc ((hhead.append hbody.delimited.balanced).cons
        (Token.delimiter_of_kind hk (by decide) (by decide)))
      simpa using hform
  | _, _, .var _, h => by
    cases h with
    | var hk => exact .word (Token.delimiter_of_kind hk (by decide) (by decide))
  | _, _, .call .., h => by
    cases h with
    | call ho hk hargs hc =>
      exact .form ho hc ((balanced_of_expressions hargs).cons
        (Token.delimiter_of_kind hk (by decide) (by decide)))

theorem balanced_of_expressions : ∀ {ts : List Token} {es : List Expr},
    Sequence (Derives .any) ts es → Balanced ts
  | _, [], h => by
    cases h
    exact balanced_nil
  | _, _ :: _, h => by
    cases h with
    | cons he hes => exact he.delimited.balanced.append (balanced_of_expressions hes)

theorem balanced_of_cases : ∀ {ts : List Token} {cases : List (Expr × Expr)},
    Sequence DerivesCase ts cases → Balanced ts
  | _, [], h => by
    cases h
    exact balanced_nil
  | _, (_, _) :: _, h => by
    cases h with
    | cons hcase hcases =>
      cases hcase with
      | mk ho hcondition hresult hc =>
        have hform := Delimited.form ho hc
          (hcondition.delimited.balanced.append hresult.delimited.balanced)
        rw [List.append_assoc] at hform
        exact hform.balanced.append (balanced_of_cases hcases)

end

/-! ## Cuts through a sequence -/

/-- A cut through items parts them in two, or it goes through one of them. -/
theorem Sequence.exists_of_append {α : Type} {Item : List Token → α → Prop} {xs : List α}
    (h : Sequence Item (ts ++ us) xs) :
    (∃ xs', Sequence Item ts xs') ∨
      ∃ before inner rest later xs' x, ts = before ++ inner ∧ us = rest ++ later ∧ inner ≠ [] ∧
        rest ≠ [] ∧ Sequence Item before xs' ∧ Item (inner ++ rest) x := by
  generalize hws : ts ++ us = ws at h
  induction h generalizing ts with
  | nil =>
    rw [(List.append_eq_nil_iff.1 hws).1]
    exact .inl ⟨[], .nil⟩
  | @cons vs ws x xs hx _ ih =>
    rcases List.append_eq_append_iff.1 hws with ⟨rest, rfl, hrest⟩ | ⟨more, rfl, hmore⟩
    · by_cases hts : ts = []
      · exact .inl ⟨[], hts ▸ .nil⟩
      · by_cases hnil : rest = []
        · rw [hnil, List.append_nil] at hx
          exact .inl ⟨[x], by simpa using Sequence.cons hx .nil⟩
        · exact .inr ⟨[], ts, rest, ws, [], x, rfl, hrest, hts, hnil, .nil, hx⟩
    · rcases ih hmore.symm with ⟨xs', hseq⟩ | ⟨before, inner, rest, later, xs', y, rfl, hus, hinner,
        hrest, hseq, hy⟩
      · exact .inl ⟨x :: xs', .cons hx hseq⟩
      · exact .inr ⟨vs ++ before, inner, rest, later, x :: xs', y, (List.append_assoc ..).symm, hus,
          hinner, hrest, .cons hx hseq, hy⟩

/-- Some tokens end inside a form, which the tokens after them complete: the form has opened a
delimiter, and it goes on. -/
def EndsInside (ts us : List Token) : Prop :=
  ∃ before o inner rest later es e, ts = before ++ o :: inner ∧ us = rest ++ later ∧ rest ≠ [] ∧
    o.kind = .opening ∧ Sequence (Derives .any) before es ∧ Derives .any (o :: (inner ++ rest)) e

/-- Some tokens are a sequence of expressions and a sign after them. -/
def EndsWithSign (ts : List Token) : Prop :=
  ∃ before sign es, ts = before ++ [sign] ∧ sign.kind = .minus ∧ Sequence (Derives .any) before es

theorem depth_of_endsInside (h : EndsInside ts us) : 0 < depth ts := by
  obtain ⟨before, o, inner, rest, later, es, e, rfl, -, hrest, ho, hbefore, he⟩ := h
  rw [depth_append, (balanced_of_expressions hbefore).settled, Int.zero_add]
  have hform : Delimited ((o :: inner) ++ rest) := he.delimited
  rcases hform.of_append (List.cons_ne_nil _ _) hrest with ⟨sign, hsign, hk⟩ | ⟨_, _, _, _, hpos⟩
  · obtain ⟨rfl, -⟩ := List.cons.inj hsign
    cases ho.symm.trans hk
  · exact hpos

theorem depth_of_endsWithSign (h : EndsWithSign ts) : depth ts = 0 := by
  obtain ⟨before, sign, es, rfl, hsign, hbefore⟩ := h
  rw [depth_append, (balanced_of_expressions hbefore).settled, depth_cons, depth_nil,
    Token.delimiter_of_kind hsign (by decide) (by decide)]
  rfl

/-- Where a sequence of expressions is cut: between two of them, after the sign of a number, or
inside a form. -/
theorem Sequence.complete_or_sign_or_inside {es : List Expr}
    (h : Sequence (Derives .any) (ts ++ us) es) :
    (∃ es', Sequence (Derives .any) ts es') ∨ EndsWithSign ts ∨ EndsInside ts us := by
  rcases h.exists_of_append with hcomplete | ⟨before, inner, rest, later, es', e, rfl, rfl, hinner,
    hrest, hbefore, he⟩
  · exact .inl hcomplete
  · rcases he.delimited.of_append hinner hrest with ⟨sign, rfl, hsign⟩ | ⟨o, inner, rfl, ho, -⟩
    · exact .inr (.inl ⟨before, sign, es', rfl, hsign, hbefore⟩)
    · exact .inr (.inr ⟨before, o, inner, rest, later, es', e, rfl, rfl, hrest, ho, hbefore, he⟩)

/-! ## Lines -/

namespace Session

/-- A line goes on if a delimiter is left open in it. -/
theorem prepareLine_snd_iff {line : String} (h : tokens (blankComments line) = .ok ts) :
    (prepareLine line).2 = true ↔ 0 < depth ts := by
  rw [prepareLine_snd, wordsOf_of_tokens h, Words.unfinished, List.countP_map, List.countP_map,
    depth, decide_eq_true_iff, Int.sub_pos, Int.ofNat_lt]
  rfl

/-- **A line goes on exactly if it ends inside a form.**  The tokens of a line, and other tokens
after them, are a sequence of expressions.  Then the line is taken as it is if and only if its
tokens are a sequence of expressions themselves or one with a minus sign after it; and the next line
is waited for if and only if the tokens end inside a form. -/
theorem prepareLine_goesOn_iff {line : String} {es : List Expr}
    (h : tokens (blankComments line) = .ok ts) (hseq : Sequence (Derives .any) (ts ++ us) es) :
    ((prepareLine line).2 = false ↔
      (∃ es', Sequence (Derives .any) ts es') ∨ EndsWithSign ts) ∧
      ((prepareLine line).2 = true ↔ EndsInside ts us) := by
  have hdepth := prepareLine_snd_iff h
  have hsettled : (∃ es', Sequence (Derives .any) ts es') ∨ EndsWithSign ts → depth ts = 0 := by
    rintro (⟨es', hes'⟩ | hsign)
    · exact (balanced_of_expressions hes').settled
    · exact depth_of_endsWithSign hsign
  have hcut := hseq.complete_or_sign_or_inside
  rw [← or_assoc] at hcut
  constructor
  · rw [← Bool.not_eq_true, hdepth]
    refine ⟨fun hzero => hcut.resolve_right fun hinside => hzero (depth_of_endsInside hinside),
      fun hdone => ?_⟩
    rw [hsettled hdone]
    exact Int.lt_irrefl 0
  · rw [hdepth]
    refine ⟨fun hpos => hcut.resolve_left fun hdone => ?_, depth_of_endsInside⟩
    rw [hsettled hdone] at hpos
    exact Int.lt_irrefl 0 hpos

/-- A minus sign at the end of a line is not held back between forms, although a number is to
follow, and is inside of one.  A delimiter in a comment opens nothing. -/
theorem prepareLine_goesOn_sign :
    let name : Token := ⟨.identifier, "x", 0⟩
    let sign : Token := ⟨.minus, "-", 2⟩
    let number : Token := ⟨.number, "1", 3⟩
    let inside : List Token := [⟨.opening, "[", 0⟩, ⟨.identifier, "f", 1⟩, ⟨.minus, "-", 3⟩]
    tokens (blankComments "x - ; (") = .ok [name, sign] ∧
      Sequence (Derives .any) ([name, sign] ++ [number]) [.var "x", .number (-1)] ∧
      (prepareLine "x - ; (").2 = false ∧
      tokens (blankComments "[f -") = .ok inside ∧ (prepareLine "[f -").2 = true ∧
      EndsInside inside [number, ⟨.closing, "]", 5⟩] := by
  intro name sign number inside
  have htokens : tokens (blankComments "x - ; (") = .ok [name, sign] := by decide +kernel
  have hinside : tokens (blankComments "[f -") = .ok inside := by decide +kernel
  have hname : Derives .any [name] (.var "x") := .var rfl
  have hvalue : number.value = 1 := by decide +kernel
  have hnumber : ∀ t : Token, t.kind = .minus → Derives .any [t, number] (.number (-1)) := by
    intro t ht
    have hsigned : Derives .any [t, number] (.number (-number.value)) :=
      .negative trivial ht rfl (by decide +kernel)
    rwa [hvalue] at hsigned
  have hseq : Sequence (Derives .any) ([name, sign] ++ [number]) [.var "x", .number (-1)] := by
    simpa using Sequence.cons hname (Sequence.cons (hnumber sign rfl) .nil)
  have harg : Sequence (Derives .any) [⟨.minus, "-", 3⟩, number] [.number (-1)] := by
    simpa using Sequence.cons (hnumber ⟨.minus, "-", 3⟩ rfl) .nil
  have hcall : Sequence (Derives .any) (inside ++ [number, ⟨.closing, "]", 5⟩])
      [.call "f" [.number (-1)]] := by
    have hform : Derives .any (inside ++ [number, ⟨.closing, "]", 5⟩]) (.call "f" [.number (-1)]) :=
      .call rfl rfl harg rfl
    simpa using Sequence.cons hform .nil
  have hsign : EndsWithSign [name, sign] := ⟨[name], sign, _, rfl, rfl, .cons hname .nil⟩
  have hgoes : (prepareLine "[f -").2 = true := by decide +kernel
  exact ⟨htokens, hseq, (prepareLine_goesOn_iff htokens hseq).1.2 (.inr hsign), hinside, hgoes,
    (prepareLine_goesOn_iff hinside hcall).2.1 hgoes⟩

end Session

end DynLisp
