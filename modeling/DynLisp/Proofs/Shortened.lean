import DynLisp.Proofs.Grammar
import DynLisp.Proofs.Lexing

/-!
# Literals without leading zeros

How many digits a literal has does not matter to the grammar, which looks at its value alone.  So
tokens that differ in leading zeros only derive the same expressions (`Derives.congr`).  Without
leading zeros the numbers of a derivation have few digits, since their values have 32 bits, and can
all be converted (`Derives.convertible_shortened`).
-/

namespace DynLisp

/-! ## Tokens -/

namespace Token

/-- A number without leading zeros, and any other token as it is. -/
def shortened (t : Token) : Token :=
  if t.kind = .number then
    { t with text := String.ofList (Decimal.digits (Decimal.read t.text.toList)) }
  else t

variable {t u : Token}

theorem shortened_of_number (h : t.kind = .number) :
    t.shortened =
      { t with text := String.ofList (Decimal.digits (Decimal.read t.text.toList)) } :=
  if_pos h

theorem shortened_of_kind_ne (h : t.kind ≠ .number) : t.shortened = t :=
  if_neg h

@[simp] theorem kind_shortened (t : Token) : t.shortened.kind = t.kind := by
  rw [shortened]
  split <;> rfl

theorem value_shortened (h : t.kind = .number) : t.shortened.value = t.value := by
  rw [shortened_of_number h, value, value, String.toList_ofList, Decimal.read_digits]

@[simp] theorem shortened_shortened (t : Token) : t.shortened.shortened = t.shortened := by
  by_cases h : t.kind = .number
  · rw [shortened_of_number (t := t.shortened) (by rwa [kind_shortened]), shortened_of_number h]
    dsimp only
    rw [String.toList_ofList, Decimal.read_digits]
  · rw [shortened_of_kind_ne h, shortened_of_kind_ne h]

theorem IsLexical.shortened (h : t.IsLexical) : t.shortened.IsLexical := by
  by_cases hk : t.kind = .number
  · rw [shortened_of_number hk]
    refine .number hk ?_ ?_
    · rw [String.toList_ofList]
      exact Decimal.digits_ne_nil _
    · rw [String.toList_ofList]
      exact fun c hc => Decimal.isDigit_of_mem_digits hc
  · rwa [shortened_of_kind_ne hk]

/-! Tokens that are the same without leading zeros. -/

theorem kind_congr (h : u.shortened = t.shortened) : u.kind = t.kind := by
  rw [← kind_shortened u, h, kind_shortened]

theorem value_congr (h : u.shortened = t.shortened) (hk : t.kind = .number) :
    u.value = t.value := by
  rw [← value_shortened hk, ← h, value_shortened ((kind_congr h).trans hk)]

theorem text_congr (h : u.shortened = t.shortened) (hk : t.kind ≠ .number) : u.text = t.text := by
  have hk' : u.kind ≠ .number := by rwa [kind_congr h]
  rw [shortened_of_kind_ne hk, shortened_of_kind_ne hk'] at h
  rw [h]

/-! What can be converted without leading zeros. -/

/-- A number of 32 bits has few digits other than leading zeros, and so has a number whose negative
is one of 32 bits. -/
theorem convertible_shortened (hk : t.kind = .number)
    (h : inRange t.value = true ∨ inRange (-t.value) = true) : t.shortened.Convertible := by
  have hsize : Decimal.read t.text.toList ≤ 2147483648 := by
    rw [inRange_iff, inRange_iff, minNumber, maxNumber, value] at h
    omega
  rw [shortened_of_number hk]
  intro _
  rw [String.length_ofList]
  exact Decimal.length_digits_le hsize

theorem convertible_shortened_of_ne (h : t.kind ≠ .number) : t.shortened.Convertible :=
  .of_kind_ne (by rwa [kind_shortened])

/-- What stands in a form between its first two tokens and its last one. -/
theorem convertible_shortened_form {o t c : Token} {ts : List Token} (ho : o.kind = .opening)
    (ht : t.kind ≠ .number) (hts : ∀ u ∈ ts, u.shortened.Convertible) (hc : c.kind = .closing) :
    ∀ u ∈ o :: t :: (ts ++ [c]), u.shortened.Convertible := by
  rw [List.forall_mem_cons, List.forall_mem_cons, List.forall_mem_append,
    List.forall_mem_singleton]
  exact ⟨convertible_shortened_of_ne (by simp [ho]), convertible_shortened_of_ne ht, hts,
    convertible_shortened_of_ne (by simp [hc])⟩

end Token

open Token (shortened kind_shortened kind_congr value_congr text_congr convertible_shortened
  convertible_shortened_of_ne convertible_shortened_form)

/-! ## Derivations -/

variable {us : List Token}

/-- Tokens that are those of a form without leading zeros. -/
theorem exists_form_of_map_eq {o t c : Token} {ts : List Token}
    (h : us.map shortened = (o :: t :: (ts ++ [c])).map shortened) :
    ∃ o' t' ts' c', us = o' :: t' :: (ts' ++ [c']) ∧ o'.shortened = o.shortened ∧
      t'.shortened = t.shortened ∧ ts'.map shortened = ts.map shortened ∧
      c'.shortened = c.shortened := by
  simp only [List.map_cons, List.map_append, List.map_nil] at h
  obtain ⟨o', us, rfl, ho, h⟩ := List.map_eq_cons_iff.1 h
  obtain ⟨t', us, rfl, ht, h⟩ := List.map_eq_cons_iff.1 h
  obtain ⟨ts', us, rfl, hts, h⟩ := List.map_eq_append_iff.1 h
  obtain ⟨c', rfl, hc⟩ := List.map_eq_singleton_iff.1 h
  exact ⟨o', t', ts', c', rfl, ho, ht, hts, hc⟩

/-- A form of two operands. -/
theorem exists_binary_of_map_eq {o t c : Token} {ls rs : List Token}
    (h : us.map shortened = (o :: t :: (ls ++ (rs ++ [c]))).map shortened) :
    ∃ o' t' ls' rs' c', us = o' :: t' :: (ls' ++ (rs' ++ [c'])) ∧ o'.shortened = o.shortened ∧
      t'.shortened = t.shortened ∧ ls'.map shortened = ls.map shortened ∧
      rs'.map shortened = rs.map shortened ∧ c'.shortened = c.shortened := by
  rw [← List.append_assoc] at h
  obtain ⟨o', t', ts', c', rfl, ho, ht, hts, hc⟩ := exists_form_of_map_eq h
  rw [List.map_append] at hts
  obtain ⟨ls', rs', rfl, hls, hrs⟩ := List.map_eq_append_iff.1 hts
  exact ⟨o', t', ls', rs', c', by rw [List.append_assoc], ho, ht, hls, hrs, hc⟩

/-- Names are the same with and without leading zeros. -/
theorem names_congr {params params' : List Token} (hparams : ∀ x ∈ params, x.kind = .identifier)
    (h : params'.map shortened = params.map shortened) : params' = params := by
  have hsame : ∀ x ∈ params, x.shortened = x := fun x hx =>
    Token.shortened_of_kind_ne (by simp [hparams x hx])
  have hsame' : ∀ x ∈ params', x.shortened = x := by
    intro x hx
    obtain ⟨y, hy, hxy⟩ := List.mem_map.1 (h ▸ List.mem_map_of_mem hx)
    refine Token.shortened_of_kind_ne ?_
    rw [← kind_congr hxy, hparams y hy]
    decide
  rw [List.map_congr_left hsame, List.map_congr_left hsame'] at h
  simpa using h

mutual

/-- Leading zeros play no part in what tokens derive. -/
theorem Derives.congr : ∀ {p : Position} {ts us : List Token} {e : Expr},
    Derives p ts e → us.map shortened = ts.map shortened → Derives p us e
  | _, _, _, .number _, h, hus => by
    cases h with
    | literal hp hk hrange =>
      obtain ⟨t', rfl, ht⟩ := List.map_eq_singleton_iff.1 hus
      rw [← value_congr ht hk] at hrange ⊢
      exact .literal hp ((kind_congr ht).trans hk) hrange
    | negative hp hsign hk hrange =>
      obtain ⟨sign', us, rfl, hsign', hus⟩ := List.map_eq_cons_iff.1 hus
      obtain ⟨t', rfl, ht⟩ := List.map_eq_singleton_iff.1 hus
      rw [← value_congr ht hk] at hrange ⊢
      exact .negative hp ((kind_congr hsign').trans hsign) ((kind_congr ht).trans hk) hrange
  | _, _, _, .boolean _, h, hus => by
    cases h with
    | trueLiteral hp hk htext =>
      obtain ⟨t', rfl, ht⟩ := List.map_eq_singleton_iff.1 hus
      exact .trueLiteral hp ((kind_congr ht).trans hk)
        ((text_congr ht (by simp [hk])).trans htext)
    | falseLiteral hp hk htext =>
      obtain ⟨t', rfl, ht⟩ := List.map_eq_singleton_iff.1 hus
      exact .falseLiteral hp ((kind_congr ht).trans hk)
        ((text_congr ht (by simp [hk])).trans htext)
  | _, _, _, .arith .., h, hus => by
    cases h with
    | arith hp ho hk hl hr hc =>
      obtain ⟨o', t', ls', rs', c', rfl, ho', ht, hls, hrs, hc'⟩ := exists_binary_of_map_eq hus
      exact .arith hp ((kind_congr ho').trans ho) (by rwa [kind_congr ht]) (hl.congr hls)
        (hr.congr hrs) ((kind_congr hc').trans hc)
  | _, _, _, .logic .., h, hus => by
    cases h with
    | logic hp ho hk hl hr hc =>
      obtain ⟨o', t', ls', rs', c', rfl, ho', ht, hls, hrs, hc'⟩ := exists_binary_of_map_eq hus
      exact .logic hp ((kind_congr ho').trans ho) (by rwa [kind_congr ht]) (hl.congr hls)
        (hr.congr hrs) ((kind_congr hc').trans hc)
  | _, _, _, .unary .., h, hus => by
    cases h with
    | unary hp ho hk he hc =>
      obtain ⟨o', t', ts', c', rfl, ho', ht, hts, hc'⟩ := exists_form_of_map_eq hus
      exact .unary hp ((kind_congr ho').trans ho) (by rwa [kind_congr ht]) (he.congr hts)
        ((kind_congr hc').trans hc)
  | _, _, _, .compare .., h, hus => by
    cases h with
    | compare hp ho hk hl hr hc =>
      obtain ⟨o', t', ls', rs', c', rfl, ho', ht, hls, hrs, hc'⟩ := exists_binary_of_map_eq hus
      exact .compare hp ((kind_congr ho').trans ho) (by rwa [kind_congr ht]) (hl.congr hls)
        (hr.congr hrs) ((kind_congr hc').trans hc)
  | _, _, _, .cond _, h, hus => by
    cases h with
    | cond ho hk hne hcases hc =>
      obtain ⟨o', t', ts', c', rfl, ho', ht, hts, hc'⟩ := exists_form_of_map_eq hus
      exact .cond ((kind_congr ho').trans ho) ((kind_congr ht).trans hk) hne
        (congr_cases hcases hts) ((kind_congr hc').trans hc)
  | _, _, _, .define .., h, hus => by
    cases h with
    | @define o t o' f c' c params ts body ho hk hopen hf hparams hdistinct hclose hbody hc =>
      have hform : o :: t :: o' :: f :: (params ++ c' :: (ts ++ [c])) =
          o :: t :: ((o' :: f :: (params ++ c' :: ts)) ++ [c]) := by simp
      rw [hform] at hus
      obtain ⟨o₁, t₁, inner, c₁, rfl, ho₁, ht₁, hinner, hc₁⟩ := exists_form_of_map_eq hus
      simp only [List.map_cons, List.map_append] at hinner
      obtain ⟨o₂, _, rfl, ho₂, hinner⟩ := List.map_eq_cons_iff.1 hinner
      obtain ⟨f', _, rfl, hf', hinner⟩ := List.map_eq_cons_iff.1 hinner
      obtain ⟨params', _, rfl, hparams', hinner⟩ := List.map_eq_append_iff.1 hinner
      obtain ⟨c₂, ts', rfl, hc₂, hts⟩ := List.map_eq_cons_iff.1 hinner
      obtain rfl := names_congr hparams hparams'
      rw [← text_congr hf' (by simp [hf])]
      simp only [List.cons_append, List.append_assoc]
      exact .define ((kind_congr ho₁).trans ho) ((kind_congr ht₁).trans hk)
        ((kind_congr ho₂).trans hopen) ((kind_congr hf').trans hf) hparams hdistinct
        ((kind_congr hc₂).trans hclose) (hbody.congr hts) ((kind_congr hc₁).trans hc)
  | _, _, _, .var _, h, hus => by
    cases h with
    | var hk =>
      obtain ⟨t', rfl, ht⟩ := List.map_eq_singleton_iff.1 hus
      rw [← text_congr ht (by simp [hk])]
      exact .var ((kind_congr ht).trans hk)
  | _, _, _, .call .., h, hus => by
    cases h with
    | call ho hk hargs hc =>
      obtain ⟨o', t', ts', c', rfl, ho', ht, hts, hc'⟩ := exists_form_of_map_eq hus
      rw [← text_congr ht (by simp [hk])]
      exact .call ((kind_congr ho').trans ho) ((kind_congr ht).trans hk)
        (congr_expressions hargs hts) ((kind_congr hc').trans hc)

theorem congr_expressions : ∀ {ts us : List Token} {es : List Expr},
    Sequence (Derives .any) ts es → us.map shortened = ts.map shortened →
      Sequence (Derives .any) us es
  | _, _, [], h, hus => by
    cases h
    rw [List.map_eq_nil_iff.1 hus]
    exact .nil
  | _, _, _ :: _, h, hus => by
    cases h with
    | cons he hes =>
      rw [List.map_append] at hus
      obtain ⟨ts', us', rfl, hts, hus⟩ := List.map_eq_append_iff.1 hus
      exact .cons (he.congr hts) (congr_expressions hes hus)

theorem congr_cases : ∀ {ts us : List Token} {cases : List (Expr × Expr)},
    Sequence DerivesCase ts cases → us.map shortened = ts.map shortened →
      Sequence DerivesCase us cases
  | _, _, [], h, hus => by
    cases h
    rw [List.map_eq_nil_iff.1 hus]
    exact .nil
  | _, _, (_, _) :: _, h, hus => by
    cases h with
    | cons hcase hcases =>
      rw [List.map_append] at hus
      obtain ⟨ts', us', rfl, hts, hus⟩ := List.map_eq_append_iff.1 hus
      refine .cons ?_ (congr_cases hcases hus)
      cases hcase with
      | mk ho hcondition hresult hc =>
        simp only [List.map_cons, List.map_append, List.map_nil] at hts
        obtain ⟨o', _, rfl, ho', hts⟩ := List.map_eq_cons_iff.1 hts
        obtain ⟨cs', _, rfl, hcs, hts⟩ := List.map_eq_append_iff.1 hts
        obtain ⟨rs', _, rfl, hrs, hts⟩ := List.map_eq_append_iff.1 hts
        obtain ⟨c', rfl, hc'⟩ := List.map_eq_singleton_iff.1 hts
        exact .mk ((kind_congr ho').trans ho) (hcondition.congr hcs) (hresult.congr hrs)
          ((kind_congr hc').trans hc)

end

mutual

/-- Without leading zeros the numbers of a derivation have few digits. -/
theorem Derives.convertible_shortened : ∀ {p : Position} {ts : List Token} {e : Expr},
    Derives p ts e → ∀ t ∈ ts, t.shortened.Convertible
  | _, _, .number _, h => by
    cases h with
    | literal _ hk hrange =>
      exact List.forall_mem_singleton.2 (Token.convertible_shortened hk (.inl hrange))
    | negative _ hsign hk hrange =>
      exact List.forall_mem_cons.2 ⟨convertible_shortened_of_ne (by simp [hsign]),
        List.forall_mem_singleton.2 (Token.convertible_shortened hk (.inr hrange))⟩
  | _, _, .boolean _, h => by
    cases h with
    | trueLiteral _ hk | falseLiteral _ hk =>
      exact List.forall_mem_singleton.2 (convertible_shortened_of_ne (by simp [hk]))
  | _, _, .arith .., h => by
    cases h with
    | arith _ ho hk hl hr hc =>
      rw [← List.append_assoc]
      exact convertible_shortened_form ho (Token.kind_ne_number_of_operator rfl hk)
        (List.forall_mem_append.2 ⟨hl.convertible_shortened, hr.convertible_shortened⟩) hc
  | _, _, .logic .., h => by
    cases h with
    | logic _ ho hk hl hr hc =>
      rw [← List.append_assoc]
      exact convertible_shortened_form ho (Token.kind_ne_number_of_operator rfl hk)
        (List.forall_mem_append.2 ⟨hl.convertible_shortened, hr.convertible_shortened⟩) hc
  | _, _, .unary .., h => by
    cases h with
    | unary _ ho hk he hc =>
      exact convertible_shortened_form ho (Token.kind_ne_number_of_operator rfl hk)
        he.convertible_shortened hc
  | _, _, .compare .., h => by
    cases h with
    | compare _ ho hk hl hr hc =>
      rw [← List.append_assoc]
      exact convertible_shortened_form ho (Token.kind_ne_number_of_operator rfl hk)
        (List.forall_mem_append.2 ⟨hl.convertible_shortened, hr.convertible_shortened⟩) hc
  | _, _, .cond _, h => by
    cases h with
    | cond ho hk _ hcases hc =>
      exact convertible_shortened_form ho (by simp [hk]) (convertible_cases hcases) hc
  | _, _, .define .., h => by
    cases h with
    | @define o t o' f c' c params ts body ho hk hopen hf hparams _ hclose hbody hc =>
      have hinner : ∀ u ∈ o' :: f :: (params ++ c' :: ts), u.shortened.Convertible := by
        simp only [List.forall_mem_cons, List.forall_mem_append]
        exact ⟨convertible_shortened_of_ne (by simp [hopen]),
          convertible_shortened_of_ne (by simp [hf]),
          fun x hx => convertible_shortened_of_ne (by simp [hparams x hx]),
          convertible_shortened_of_ne (by simp [hclose]), hbody.convertible_shortened⟩
      simpa using convertible_shortened_form ho (by simp [hk]) hinner hc
  | _, _, .var _, h => by
    cases h with
    | var hk => exact List.forall_mem_singleton.2 (convertible_shortened_of_ne (by simp [hk]))
  | _, _, .call .., h => by
    cases h with
    | call ho hk hargs hc =>
      exact convertible_shortened_form ho (by simp [hk]) (convertible_expressions hargs) hc

theorem convertible_expressions : ∀ {ts : List Token} {es : List Expr},
    Sequence (Derives .any) ts es → ∀ t ∈ ts, t.shortened.Convertible
  | _, [], h => by
    cases h
    exact List.forall_mem_nil _
  | _, _ :: _, h => by
    cases h with
    | cons he hes =>
      exact List.forall_mem_append.2 ⟨he.convertible_shortened, convertible_expressions hes⟩

theorem convertible_cases : ∀ {ts : List Token} {cases : List (Expr × Expr)},
    Sequence DerivesCase ts cases → ∀ t ∈ ts, t.shortened.Convertible
  | _, [], h => by
    cases h
    exact List.forall_mem_nil _
  | _, (_, _) :: _, h => by
    cases h with
    | cons hcase hcases =>
      refine List.forall_mem_append.2 ⟨?_, convertible_cases hcases⟩
      cases hcase with
      | mk ho hcondition hresult hc =>
        simp only [List.forall_mem_cons, List.forall_mem_append]
        exact ⟨convertible_shortened_of_ne (by simp [ho]), hcondition.convertible_shortened,
          hresult.convertible_shortened, convertible_shortened_of_ne (by simp [hc]),
          List.forall_mem_nil _⟩

end

/-- Tokens derive what they derive without leading zeros. -/
theorem derives_map_shortened_iff {p : Position} {ts : List Token} {e : Expr} :
    Derives p (ts.map shortened) e ↔ Derives p ts e := by
  have hmap : (ts.map shortened).map shortened = ts.map shortened := by simp
  exact ⟨fun h => h.congr hmap.symm, fun h => h.congr hmap⟩

end DynLisp
