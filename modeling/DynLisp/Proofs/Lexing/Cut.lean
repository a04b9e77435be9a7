import DynLisp.Parser
import DynLisp.Proofs.Lexing

/-!
# How a text is cut

What the tokens of a text are, said without an order of reading.  `Cut source start stop ts` says
that `ts` are the tokens that stand from the offset `start` up to and without `stop`: they follow
each other without overlapping, each of them is the longest of its sort that starts where it starts
(`Token.CutFrom`), and nothing but blanks stands between them.

A token may look past its end, to see that it does not go on, and so may the last one before `stop`.
This is what makes it meaningful to cut a text up to some offset only.  A text that has a character
which starts no token is cut up to that character, and `Stuck` says that this is where it stops.

There is at most one way to cut a text, because the token at a character that is not blank is
settled by the characters from there on (`Token.cutFrom_iff`).  `tokens_iff_cut` says that the
tokens of a text are its cut, and that there is a failure exactly where cutting gets stuck.
-/

namespace DynLisp

variable {source : List Char}

/-! ## One token -/

/-- A token stands in a text at its offset, and it is written in full: a number is followed by no
digit, and a word by no character that it would go on over. -/
structure Token.CutFrom (source : List Char) (t : Token) : Prop where
  standsAt : (source.drop t.offset).take t.text.length = t.text.toList
  isLexical : t.IsLexical
  number : t.kind = .number → ∀ c ∈ source[t.stop]?, c.isDigit = false
  word : IsWord t.text → ∀ c ∈ source[t.stop]?, isWordChar c = false

/-- A character that is no blank and that no token starts with. -/
structure StartsNothing (c : Char) : Prop where
  notBlank : isBlank c = false
  notDigit : c.isDigit = false
  notWordStart : isWordStart c = false
  notPunctuation : TokenKind.ofPunctuation? c = none

theorem firstLexeme?_eq_none_iff {c : Char} {rest : List Char} :
    firstLexeme? c rest = none ↔
      c.isDigit = false ∧ isWordStart c = false ∧ TokenKind.ofPunctuation? c = none := by
  rw [firstLexeme?]
  cases c.isDigit <;> cases isWordStart c <;> simp

theorem head?_dropWhile {p : Char → Bool} {cs : List Char} :
    ∀ c ∈ (cs.dropWhile p).head?, p c = false := by
  intro c hc
  have h := List.head?_dropWhile_not p cs
  rw [hc] at h
  exact h

/-- The first token of a text goes as far as it can: what is left after it does not go on. -/
theorem exists_of_firstLexeme? {c : Char} {rest word : List Char} {kind : TokenKind}
    (h : firstLexeme? c rest = some (kind, word)) :
    ∃ w tail, word = c :: w ∧ rest = w ++ tail ∧
      (kind = .number → ∀ d ∈ tail.head?, d.isDigit = false) ∧
      (isWordStart c = true → ∀ d ∈ tail.head?, isWordChar d = false) := by
  rw [firstLexeme?] at h
  split at h
  · next hdigit =>
    obtain ⟨rfl, rfl⟩ := Prod.mk.inj (Option.some.inj h)
    refine ⟨_, rest.dropWhile Char.isDigit, rfl, (List.takeWhile_append_dropWhile ..).symm,
      fun _ => head?_dropWhile, fun hstart => ?_⟩
    rw [not_isDigit_of_isWordStart hstart] at hdigit
    cases hdigit
  · split at h
    · obtain ⟨rfl, rfl⟩ := Prod.mk.inj (Option.some.inj h)
      exact ⟨_, rest.dropWhile isWordChar, rfl, (List.takeWhile_append_dropWhile ..).symm,
        fun hk => absurd hk (TokenKind.ofWord_ne_number _), fun _ => head?_dropWhile⟩
    · next hstart =>
      obtain ⟨k, hk, hp⟩ := Option.map_eq_some_iff.1 h
      obtain ⟨rfl, rfl⟩ := Prod.mk.inj hp
      refine ⟨[], rest, rfl, rfl, ?_, fun h => absurd h hstart⟩
      rintro rfl
      exact absurd hk TokenKind.ofPunctuation?_ne_number

theorem Token.IsLexical.text_ne_nil {t : Token} (h : t.IsLexical) : t.text.toList ≠ [] := by
  cases h with
  | number _ hne => exact hne
  | word hword =>
    obtain ⟨c, cs, hcs, -⟩ := hword
    rw [hcs]
    exact List.cons_ne_nil _ _
  | punctuation c htext =>
    rw [htext, String.toList_ofList]
    exact List.cons_ne_nil _ _

/-- What stands after the word of a token. -/
theorem Token.getElem?_stop {t : Token} {c : Char} {rest w tail : List Char}
    (hsource : source.drop t.offset = c :: rest) (htext : t.text.toList = c :: w)
    (hrest : rest = w ++ tail) : source[t.stop]? = tail.head? := by
  have hlength : t.text.length = w.length + 1 := by rw [← String.length_toList, htext]; rfl
  rw [Token.stop, ← List.getElem?_drop, hsource, hlength, hrest, List.getElem?_cons_succ,
    List.getElem?_append_right (Nat.le_refl _), Nat.sub_self, List.head?_eq_getElem?]

theorem Token.CutFrom.firstLexeme?_eq {t : Token} {c : Char} {rest : List Char}
    (hsource : source.drop t.offset = c :: rest) (h : t.CutFrom source) :
    firstLexeme? c rest = some (t.kind, t.text.toList) := by
  have hstands := h.standsAt
  rw [hsource, ← String.length_toList] at hstands
  obtain ⟨d, w, htext⟩ := List.exists_cons_of_ne_nil h.isLexical.text_ne_nil
  rw [htext, List.length_cons, List.take_succ_cons] at hstands
  obtain ⟨rfl, hw⟩ := List.cons.inj hstands
  have hrest : rest = w ++ rest.drop w.length := by
    have hsplit := List.take_append_drop w.length rest
    rw [hw] at hsplit
    exact hsplit.symm
  have htail := Token.getElem?_stop hsource htext hrest
  rw [hrest, htext]
  cases h.isLexical with
  | number hk _ hdigits =>
    rw [htext] at hdigits
    rw [hk]
    exact firstLexeme?_of_digits hdigits (htail ▸ h.number hk)
  | word hword hk =>
    have hends := h.word hword
    obtain ⟨d, v, hd, hstart, hchars⟩ := hword
    rw [htext] at hd
    obtain ⟨rfl, rfl⟩ := List.cons.inj hd
    rw [htail] at hends
    rw [firstLexeme?_of_word hstart hchars hends, hk, ← htext, String.ofList_toList]
  | punctuation d hd hk =>
    rw [hd, String.toList_ofList] at htext
    obtain ⟨rfl, rfl⟩ := List.cons.inj htext
    exact firstLexeme?_of_punctuation hk _

theorem Token.cutFrom_of_firstLexeme? {t : Token} {c : Char} {rest : List Char}
    (hsource : source.drop t.offset = c :: rest)
    (h : firstLexeme? c rest = some (t.kind, t.text.toList)) : t.CutFrom source := by
  have hlexical : t.IsLexical := by
    have := isLexical_of_firstLexeme? h t.offset
    rwa [String.ofList_toList] at this
  obtain ⟨w, tail, htext, hrest, hnumber, hword⟩ := exists_of_firstLexeme? h
  have htail := Token.getElem?_stop hsource htext hrest
  refine ⟨?_, hlexical, fun hk => htail ▸ hnumber hk, ?_⟩
  · rw [hsource, ← String.length_toList, htext, hrest]
    simp
  · rintro ⟨d, v, hd, hstart, -⟩
    rw [htext] at hd
    obtain ⟨rfl, rfl⟩ := List.cons.inj hd
    exact htail ▸ hword hstart

/-- Which token stands at an offset is settled by the characters from there on. -/
theorem Token.cutFrom_iff {t : Token} {c : Char} {rest : List Char}
    (hsource : source.drop t.offset = c :: rest) :
    t.CutFrom source ↔ firstLexeme? c rest = some (t.kind, t.text.toList) :=
  ⟨Token.CutFrom.firstLexeme?_eq hsource, Token.cutFrom_of_firstLexeme? hsource⟩

theorem Token.IsLexical.offset_lt_stop {t : Token} (h : t.IsLexical) : t.offset < t.stop := by
  have hne := List.length_pos_iff.2 h.text_ne_nil
  rw [String.length_toList] at hne
  rw [Token.stop]
  omega

theorem drop_eq_cons {i : Nat} {c : Char} (h : source[i]? = some c) :
    source.drop i = c :: source.drop (i + 1) := by
  obtain ⟨hlt, hget⟩ := List.getElem?_eq_some_iff.1 h
  rw [← hget, ← List.drop_eq_getElem_cons]

/-- A token is the first one of the text from its offset on. -/
theorem Token.CutFrom.exists_firstLexeme? {t : Token} (h : t.CutFrom source) :
    ∃ c, source[t.offset]? = some c ∧
      firstLexeme? c (source.drop (t.offset + 1)) = some (t.kind, t.text.toList) := by
  cases hc : source[t.offset]? with
  | none =>
    have hstands := h.standsAt
    rw [List.drop_eq_nil_of_le (List.getElem?_eq_none_iff.1 hc), List.take_nil] at hstands
    exact absurd hstands.symm h.isLexical.text_ne_nil
  | some c => exact ⟨c, rfl, (Token.cutFrom_iff (drop_eq_cons hc)).1 h⟩

/-- One token at most stands at an offset. -/
theorem Token.CutFrom.unique {t u : Token} (ht : t.CutFrom source) (hu : u.CutFrom source)
    (h : t.offset = u.offset) : t = u := by
  obtain ⟨c, hc, hfirst⟩ := ht.exists_firstLexeme?
  obtain ⟨d, hd, hfirst'⟩ := hu.exists_firstLexeme?
  rw [h] at hc hfirst
  obtain rfl := Option.some.inj (hc.symm.trans hd)
  obtain ⟨hkind, htext⟩ := Prod.mk.inj (Option.some.inj (hfirst.symm.trans hfirst'))
  obtain ⟨kind, text, offset⟩ := t
  obtain ⟨kind', text', offset'⟩ := u
  rw [Token.mk.injEq]
  exact ⟨hkind, String.toList_inj.1 htext, h⟩

theorem Token.CutFrom.stop_le {t : Token} (h : t.CutFrom source) : t.stop ≤ source.length := by
  have hlength := congrArg List.length h.standsAt
  rw [List.length_take, List.length_drop, String.length_toList] at hlength
  have hlt := h.isLexical.offset_lt_stop
  rw [Token.stop] at hlt ⊢
  omega

/-- A token starts with a character that is no blank. -/
theorem Token.CutFrom.not_isBlank {t : Token} {c : Char} (h : t.CutFrom source)
    (hc : source[t.offset]? = some c) : isBlank c = false := by
  by_contra hblank
  have hnone := firstLexeme?_of_isBlank (by simpa using hblank) (source.drop (t.offset + 1))
  rw [(Token.cutFrom_iff (drop_eq_cons hc)).1 h] at hnone
  cases hnone

/-! ## The tokens of a part of a text -/

/-- The tokens that stand in a text from `start` up to and without `stop`. -/
structure Cut (source : List Char) (start stop : Nat) (ts : List Token) : Prop where
  within : ∀ t ∈ ts, start ≤ t.offset ∧ t.offset < t.stop ∧ t.stop ≤ stop
  ordered : ts.Pairwise fun t u => t.stop ≤ u.offset
  cutFrom : ∀ t ∈ ts, t.CutFrom source
  blank : ∀ i, start ≤ i → i < stop → (∀ t ∈ ts, ¬ (t.offset ≤ i ∧ i < t.stop)) →
    ∀ c ∈ source[i]?, isBlank c = true

theorem cut_nil (offset : Nat) : Cut source offset offset [] where
  within := nofun
  ordered := .nil
  cutFrom := nofun
  blank := fun _ h h' => absurd h' (Nat.not_lt.2 h)

theorem Cut.eq_nil {offset : Nat} {ts : List Token} (h : Cut source offset offset ts) :
    ts = [] := by
  cases ts with
  | nil => rfl
  | cons t ts =>
    obtain ⟨hstart, hlt, hstop⟩ := h.within t (List.mem_cons_self ..)
    omega

/-- A token stands before those that follow it. -/
theorem Cut.stop_le_offset {start stop : Nat} {before after : List Token} {t u : Token}
    (h : Cut source start stop (before ++ t :: after)) (hu : u ∈ after) : t.stop ≤ u.offset :=
  (List.pairwise_cons.1 (List.pairwise_append.1 h.ordered).2.1).1 u hu

/-- A blank belongs to no token. -/
theorem cut_iff_of_isBlank {start stop : Nat} {c : Char} (hc : source[start]? = some c)
    (hblank : isBlank c = true) (hlt : start < stop) {ts : List Token} :
    Cut source start stop ts ↔ Cut source (start + 1) stop ts := by
  constructor
  · intro h
    refine ⟨fun t ht => ?_, h.ordered, h.cutFrom, fun i hi => h.blank i (by omega)⟩
    obtain ⟨hstart, hne, hstop⟩ := h.within t ht
    have hoffset : t.offset ≠ start := by
      rintro rfl
      rw [(h.cutFrom t ht).not_isBlank hc] at hblank
      cases hblank
    exact ⟨by omega, hne, hstop⟩
  · intro h
    refine ⟨fun t ht => ?_, h.ordered, h.cutFrom, fun i hi hi' hfree => ?_⟩
    · obtain ⟨hstart, hne, hstop⟩ := h.within t ht
      exact ⟨by omega, hne, hstop⟩
    · by_cases heq : i = start
      · rw [heq, hc]
        rintro _ ⟨⟩
        exact hblank
      · exact h.blank i (by omega) hi' hfree

/-- At a character that is no blank a token stands, and then come those after it. -/
theorem cut_iff_of_not_isBlank {start stop : Nat} {c : Char} (hc : source[start]? = some c)
    (hblank : isBlank c = false) (hlt : start < stop) {ts : List Token} :
    Cut source start stop ts ↔ ∃ t us, ts = t :: us ∧ t.offset = start ∧ t.stop ≤ stop ∧
      t.CutFrom source ∧ Cut source t.stop stop us := by
  constructor
  · intro h
    have hcovered : ∃ t ∈ ts, t.offset ≤ start ∧ start < t.stop := by
      by_contra hfree
      have hfalse := h.blank start (Nat.le_refl _) hlt (fun t ht hspan => hfree ⟨t, ht, hspan⟩) c hc
      rw [hblank] at hfalse
      cases hfalse
    obtain ⟨t, ht, hle, hlt'⟩ := hcovered
    cases ts with
    | nil => cases ht
    | cons u us =>
      obtain ⟨hustart, hune, hustop⟩ := h.within u (List.mem_cons_self ..)
      obtain ⟨hbefore, hordered⟩ := List.pairwise_cons.1 h.ordered
      -- the token over `start` is the first one, since the others come after it
      have htu : t = u := by
        rcases List.mem_cons.1 ht with rfl | hmem
        · rfl
        · have := hbefore t hmem
          omega
      subst htu
      refine ⟨t, us, rfl, by omega, hustop, h.cutFrom t ht, fun v hv => ?_, hordered,
        fun v hv => h.cutFrom v (List.mem_cons_of_mem _ hv), fun i hi hi' hfree => ?_⟩
      · obtain ⟨-, hvne, hvstop⟩ := h.within v (List.mem_cons_of_mem _ hv)
        exact ⟨hbefore v hv, hvne, hvstop⟩
      · refine h.blank i (by omega) hi' (List.forall_mem_cons.2 ⟨?_, hfree⟩)
        rintro ⟨-, hspan⟩
        omega
  · rintro ⟨t, us, rfl, rfl, htstop, ht, hus⟩
    have hne := ht.isLexical.offset_lt_stop
    refine ⟨List.forall_mem_cons.2 ⟨⟨Nat.le_refl _, hne, htstop⟩, fun u hu => ?_⟩,
      List.pairwise_cons.2 ⟨fun u hu => (hus.within u hu).1, hus.ordered⟩,
      List.forall_mem_cons.2 ⟨ht, hus.cutFrom⟩, fun i hi hi' hfree => ?_⟩
    · obtain ⟨hustart, hune, hustop⟩ := hus.within u hu
      exact ⟨by omega, hune, hustop⟩
    · obtain ⟨hnot, hfree⟩ := List.forall_mem_cons.1 hfree
      exact hus.blank i (by omega) hi' hfree

/-! ## Where cutting stops -/

/-- A text can be cut from `start` up to an offset, and a character stands there that starts no
token. -/
structure Stuck (source : List Char) (start : Nat) (bad : IllegalCharacter) : Prop where
  le : start ≤ bad.offset
  cut : ∃ ts, Cut source start bad.offset ts
  char : source[bad.offset]? = some bad.char
  startsNothing : StartsNothing bad.char

theorem stuck_iff_of_isBlank {start : Nat} {c : Char} (hc : source[start]? = some c)
    (hblank : isBlank c = true) {bad : IllegalCharacter} :
    Stuck source start bad ↔ Stuck source (start + 1) bad := by
  constructor
  · intro h
    have hne : bad.offset ≠ start := by
      rintro rfl
      obtain rfl := Option.some.inj (hc.symm.trans h.char)
      rw [h.startsNothing.notBlank] at hblank
      cases hblank
    have hlt : start < bad.offset := lt_of_le_of_ne h.le (Ne.symm hne)
    obtain ⟨ts, hts⟩ := h.cut
    exact ⟨hlt, ⟨ts, (cut_iff_of_isBlank hc hblank hlt).1 hts⟩, h.char, h.startsNothing⟩
  · intro h
    obtain ⟨ts, hts⟩ := h.cut
    exact ⟨Nat.le_of_succ_le h.le, ⟨ts, (cut_iff_of_isBlank hc hblank h.le).2 hts⟩, h.char,
      h.startsNothing⟩

theorem stuck_iff_of_cutFrom {t : Token} (ht : t.CutFrom source) {bad : IllegalCharacter} :
    Stuck source t.offset bad ↔ Stuck source t.stop bad := by
  obtain ⟨c, hc, hfirst⟩ := ht.exists_firstLexeme?
  have hblank := ht.not_isBlank hc
  constructor
  · intro h
    have hne : bad.offset ≠ t.offset := by
      intro heq
      have hchar := h.char
      rw [heq, hc] at hchar
      obtain rfl := Option.some.inj hchar
      obtain ⟨-, hdigit, hstart, hpunctuation⟩ := h.startsNothing
      rw [firstLexeme?_eq_none_iff.2 ⟨hdigit, hstart, hpunctuation⟩] at hfirst
      cases hfirst
    have hlt : t.offset < bad.offset := lt_of_le_of_ne h.le (Ne.symm hne)
    obtain ⟨ts, hts⟩ := h.cut
    obtain ⟨u, us, rfl, hu, hustop, hufrom, hus⟩ :=
      (cut_iff_of_not_isBlank hc hblank hlt).1 hts
    obtain rfl := hufrom.unique ht hu
    exact ⟨hustop, ⟨us, hus⟩, h.char, h.startsNothing⟩
  · intro h
    have hlt := lt_of_lt_of_le ht.isLexical.offset_lt_stop h.le
    obtain ⟨us, hus⟩ := h.cut
    exact ⟨Nat.le_of_lt hlt,
      ⟨t :: us, (cut_iff_of_not_isBlank hc hblank hlt).2 ⟨t, us, rfl, rfl, h.le, ht, hus⟩⟩, h.char,
      h.startsNothing⟩

/-- Where nothing starts, no token stands and cutting is stuck. -/
theorem StartsNothing.not_cutFrom {c : Char} (h : StartsNothing c) {t : Token}
    (hc : source[t.offset]? = some c) : ¬ t.CutFrom source := by
  intro ht
  obtain ⟨d, hd, hfirst⟩ := ht.exists_firstLexeme?
  obtain rfl := Option.some.inj (hc.symm.trans hd)
  rw [firstLexeme?_eq_none_iff.2 ⟨h.notDigit, h.notWordStart, h.notPunctuation⟩] at hfirst
  cases hfirst

theorem stuck_iff_of_startsNothing {start : Nat} {c : Char} (hc : source[start]? = some c)
    (hnothing : StartsNothing c) {bad : IllegalCharacter} :
    Stuck source start bad ↔ bad = ⟨c, start⟩ := by
  constructor
  · intro h
    rcases Nat.eq_or_lt_of_le h.le with heq | hlt
    · obtain ⟨d, offset⟩ := bad
      obtain rfl : start = offset := heq
      obtain rfl : c = d := Option.some.inj (hc.symm.trans h.char)
      rfl
    · obtain ⟨ts, hts⟩ := h.cut
      obtain ⟨t, us, -, rfl, -, ht, -⟩ :=
        (cut_iff_of_not_isBlank hc hnothing.notBlank hlt).1 hts
      exact absurd ht (hnothing.not_cutFrom hc)
  · rintro rfl
    exact ⟨Nat.le_refl _, ⟨[], cut_nil _⟩, hc, hnothing⟩

/-! ## The recursion -/

theorem lex_of_startsNothing {c : Char} (h : StartsNothing c) (offset : Nat) (rest : List Char) :
    lex offset (c :: rest) = .error ⟨c, offset⟩ := by
  rw [lex.eq_def]
  simp [h.notBlank, firstLexeme?_eq_none_iff.2 ⟨h.notDigit, h.notWordStart, h.notPunctuation⟩]

theorem lex_of_cutFrom {t : Token} (h : t.CutFrom source) :
    lex t.offset (source.drop t.offset) = (lex t.stop (source.drop t.stop)).map (t :: ·) := by
  obtain ⟨c, hc, hfirst⟩ := h.exists_firstLexeme?
  obtain ⟨w, tail, htext, htail, -⟩ := exists_of_firstLexeme? hfirst
  have hstop : t.stop = t.offset + (c :: w).length := by
    rw [Token.stop, ← String.length_toList, htext]
  have hdrop : source.drop t.stop = tail := by
    rw [hstop, List.length_cons, Nat.add_comm w.length, ← Nat.add_assoc, ← List.drop_drop, htail]
    simp
  rw [htail, htext] at hfirst
  rw [drop_eq_cons hc, htail, hdrop, hstop, ← List.cons_append, lex_of_firstLexeme? hfirst,
    ← htext, String.ofList_toList]

/-- What the characters from some offset on are cut into, or where this gets stuck. -/
theorem lex_drop (source : List Char) (start : Nat) (hstart : start ≤ source.length) :
    (∀ ts, lex start (source.drop start) = .ok ts ↔ Cut source start source.length ts) ∧
      ∀ bad, lex start (source.drop start) = .error bad ↔ Stuck source start bad := by
  induction hn : source.length - start using Nat.strongRecOn generalizing start with
  | ind n ih =>
    rcases Nat.eq_or_lt_of_le hstart with rfl | hlt
    · rw [List.drop_length, lex_nil]
      refine ⟨fun ts => ⟨?_, fun h => ?_⟩, fun bad => ⟨nofun, fun h => ?_⟩⟩
      · rintro ⟨⟩
        exact cut_nil _
      · rw [h.eq_nil]
      · have hchar := h.char
        rw [List.getElem?_eq_none h.le] at hchar
        cases hchar
    obtain ⟨c, hc⟩ : ∃ c, source[start]? = some c := ⟨_, List.getElem?_eq_getElem hlt⟩
    cases hblank : isBlank c with
    | true =>
      obtain ⟨hok, herror⟩ := ih _ (by omega) (start + 1) hlt rfl
      rw [drop_eq_cons hc, lex_of_isBlank hblank]
      exact ⟨fun ts => (hok ts).trans (cut_iff_of_isBlank hc hblank hlt).symm,
        fun bad => (herror bad).trans (stuck_iff_of_isBlank hc hblank).symm⟩
    | false =>
      cases hfirst : firstLexeme? c (source.drop (start + 1)) with
      | none =>
        obtain ⟨hdigit, hword, hpunctuation⟩ := firstLexeme?_eq_none_iff.1 hfirst
        have hnothing : StartsNothing c := ⟨hblank, hdigit, hword, hpunctuation⟩
        rw [drop_eq_cons hc, lex_of_startsNothing hnothing]
        refine ⟨fun ts => ⟨nofun, fun h => ?_⟩, fun bad => ?_⟩
        · obtain ⟨t, us, -, rfl, -, ht, -⟩ := (cut_iff_of_not_isBlank hc hblank hlt).1 h
          exact absurd ht (hnothing.not_cutFrom hc)
        · rw [stuck_iff_of_startsNothing hc hnothing, Except.error.injEq, eq_comm]
      | some lexeme =>
        obtain ⟨kind, word⟩ := lexeme
        obtain ⟨t, rfl, ht⟩ : ∃ t : Token, t.offset = start ∧ t.CutFrom source := by
          refine ⟨⟨kind, String.ofList word, start⟩, rfl, ?_⟩
          rw [Token.cutFrom_iff (drop_eq_cons hc), hfirst, String.toList_ofList]
        have hnonempty := ht.isLexical.offset_lt_stop
        obtain ⟨hok, herror⟩ := ih _ (by omega) t.stop ht.stop_le rfl
        rw [lex_of_cutFrom ht]
        refine ⟨fun ts => ?_, fun bad => ?_⟩
        · rw [Except.map_eq_ok_iff, cut_iff_of_not_isBlank hc hblank hlt]
          constructor
          · rintro ⟨us, hus, rfl⟩
            exact ⟨t, us, rfl, rfl, ht.stop_le, ht, (hok us).1 hus⟩
          · rintro ⟨u, us, rfl, hu, -, hufrom, hus⟩
            obtain rfl := hufrom.unique ht hu
            exact ⟨us, (hok us).2 hus, rfl⟩
        · rw [Except.map_eq_error_iff, herror, stuck_iff_of_cutFrom ht]

/-! ## Characters of tokens -/

theorem toNat_lt_of_isWordChar {c : Char} (h : isWordChar c = true) : c.toNat < 128 := by
  rw [isWordChar_iff, isAlpha_iff, isDigit_iff] at h
  rcases h with (hletter | hdigit) | rfl | rfl | rfl | rfl | rfl
  · omega
  · omega
  all_goals decide

theorem characters_of_ofPunctuation? {c : Char} {kind : TokenKind}
    (h : TokenKind.ofPunctuation? c = some kind) : c.toNat < 128 ∧ c ≠ '?' ∧ c ≠ ':' := by
  unfold TokenKind.ofPunctuation? at h
  split at h <;> first | decide | cases h

/-- The characters of tokens are those of ASCII, and `?` and `:` occur in words alone. -/
theorem Token.IsLexical.characters {t : Token} (h : t.IsLexical) :
    ∀ c ∈ t.text.toList, c.toNat < 128 ∧ (c = '?' ∨ c = ':' → IsWord t.text) := by
  intro c hc
  cases h with
  | number _ _ hdigits =>
    have hdigit := hdigits c hc
    refine ⟨toNat_lt_of_isWordChar (isWordChar_of_isDigit hdigit), ?_⟩
    rintro (rfl | rfl)
    · cases hdigit
    · cases hdigit
  | word hword =>
    refine ⟨toNat_lt_of_isWordChar ?_, fun _ => hword⟩
    obtain ⟨d, cs, hcs, hstart, hchars⟩ := hword
    rw [hcs, List.mem_cons] at hc
    rcases hc with rfl | hc
    · exact isWordChar_of_isWordStart hstart
    · exact hchars c hc
  | punctuation d hd hk =>
    rw [hd, String.toList_ofList, List.mem_singleton] at hc
    subst hc
    obtain ⟨hlt, hquestion, hcolon⟩ := characters_of_ofPunctuation? hk
    exact ⟨hlt, fun h => h.elim (absurd · hquestion) (absurd · hcolon)⟩

/-! ## Whole texts -/

theorem cut_of_tokenize {s : String} {ts : List Token} (h : tokenize s = .ok ts) :
    Cut s.toList 0 s.length ts := by
  have hcut := (lex_drop s.toList 0 (Nat.zero_le _)).1 ts
  rw [List.drop_zero, String.length_toList] at hcut
  exact hcut.1 h

theorem stuck_of_tokenize {s : String} {bad : IllegalCharacter} (h : tokenize s = .error bad) :
    Stuck s.toList 0 bad := by
  have hstuck := (lex_drop s.toList 0 (Nat.zero_le _)).2 bad
  rw [List.drop_zero] at hstuck
  exact hstuck.1 h

/-- **The tokens of a text are its cut.**  A text has the tokens `ts` exactly if they are what it is
cut into.  It is refused exactly if it is cut up to some offset at which a character starts no
token; there is one such offset, and the failure shows the character and lies at it.  Characters of
tokens are those of ASCII, and `?` and `:` are part of words only. -/
theorem tokens_iff_cut (source : String) :
    (∀ ts, tokens source = .ok ts ↔ Cut source.toList 0 source.length ts) ∧
      (∀ failure, tokens source = .error failure ↔
        ∃ bad : IllegalCharacter, Stuck source.toList 0 bad ∧
          failure = .error (.illegalCharacter bad.char)
            ⟨some source, some bad.offset, some (bad.offset + 1)⟩) ∧
      (∀ bad bad', Stuck source.toList 0 bad → Stuck source.toList 0 bad' → bad = bad') ∧
      ∀ ts, tokens source = .ok ts → ∀ t ∈ ts, ∀ c ∈ t.text.toList,
        c.toNat < 128 ∧ (c = '?' ∨ c = ':' → IsWord t.text) := by
  obtain ⟨hok, herror⟩ := lex_drop source.toList 0 (Nat.zero_le _)
  rw [List.drop_zero, String.length_toList] at hok
  rw [List.drop_zero] at herror
  have htokens : ∀ ts, tokens source = .ok ts ↔ lex 0 source.toList = .ok ts := by
    intro ts
    rw [tokens, tokenize]
    cases lex 0 source.toList <;> simp
  refine ⟨fun ts => (htokens ts).trans (hok ts), fun failure => ?_, fun bad bad' h h' => ?_,
    fun ts hts => ?_⟩
  · simp only [← herror]
    rw [tokens, tokenize]
    cases lex 0 source.toList with
    | ok ts => simp
    | error bad => simp [IllegalCharacter.failure, eq_comm]
  · exact Except.error.inj (((herror bad).2 h).symm.trans ((herror bad').2 h'))
  · exact fun t ht => (isLexical_of_mem_lex ((htokens ts).1 hts) t ht).characters

/-- Three tokens without a blank between them, of which the number ends before a letter and the word
takes the sign after it; and a colon that no word takes. -/
theorem tokens_iff_cut_adjacent :
    let ts : List Token := [⟨.number, "12", 0⟩, ⟨.identifier, "a?-", 2⟩, ⟨.opening, "(", 5⟩]
    tokens "12a?-(" = .ok ts ∧ Cut "12a?-(".toList 0 6 ts ∧
      tokens "x :y" =
        .error (.error (.illegalCharacter ':') ⟨some "x :y", some 2, some 3⟩) ∧
      Stuck "x :y".toList 0 ⟨':', 2⟩ ∧ ∀ bad, Stuck "x :y".toList 0 bad → bad = ⟨':', 2⟩ := by
  intro ts
  have htokens : tokens "12a?-(" = .ok ts := by decide +kernel
  have hcut := ((tokens_iff_cut "12a?-(").1 ts).1 htokens
  have hfailure : tokens "x :y" =
      .error (.error (.illegalCharacter ':') ⟨some "x :y", some 2, some 3⟩) := by decide +kernel
  obtain ⟨-, herror, hunique, -⟩ := tokens_iff_cut "x :y"
  obtain ⟨⟨c, offset⟩, hstuck, heq⟩ := (herror _).1 hfailure
  obtain ⟨rfl, rfl, -⟩ : c = ':' ∧ offset = 2 ∧ (offset + 1 : Int) = 3 := by
    simpa [eq_comm] using heq
  exact ⟨htokens, hcut, hfailure, hstuck, fun bad h => hunique bad _ h hstuck⟩

end DynLisp
