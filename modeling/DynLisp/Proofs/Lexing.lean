import DynLisp.Token.Lexer
import Mathlib.Data.List.TakeWhile

/-!
# What the tokens of a text look like

A token fits its kind when its text is one that the kind can be written as: digits for a number, a
word with the kind that the keywords give it, or one sign of punctuation.  `Token.IsLexical` says
this without mentioning a text that the token was cut from, and `isLexical_of_mem_tokenize` says
that every token of a text is of this form.

* `IsWord`: a letter or an underscore, and then letters, digits and the signs `?`, `!`, `:`, `_`
  and `-`.
* `IsName`: a word that is no keyword.  `ofWord_eq_identifier_iff` says that these are the words
  whose tokens are identifiers.

The converse is that a token which fits its kind is cut from its own text again, before anything
that no word goes on over (`Token.IsLexical.lex_append`).  So these are just the tokens that some
text has, `Token.isLexical_iff`.
-/

theorem Except.map_eq_ok_iff {ε α β : Type} {f : α → β} {x : Except ε α} {b : β} :
    x.map f = .ok b ↔ ∃ a, x = .ok a ∧ f a = b := by
  cases x <;> simp [Except.map]

theorem Except.map_eq_error_iff {ε α β : Type} {f : α → β} {x : Except ε α} {e : ε} :
    x.map f = .error e ↔ x = .error e := by
  cases x <;> simp [Except.map]

namespace DynLisp

/-! ## Words and names -/

/-- A letter or an underscore, followed by characters that a word goes on over. -/
def IsWord (s : String) : Prop :=
  ∃ c cs, s.toList = c :: cs ∧ isWordStart c = true ∧ ∀ d ∈ cs, isWordChar d = true

instance : DecidablePred IsWord := fun s =>
  match hs : s.toList with
  | [] => .isFalse fun ⟨c, cs, hc, _⟩ => by rw [hs] at hc; cases hc
  | c :: cs => decidable_of_iff (isWordStart c = true ∧ cs.all isWordChar = true) <| by
      rw [List.all_eq_true]
      refine ⟨fun h => ⟨c, cs, hs, h⟩, ?_⟩
      rintro ⟨c', cs', hc, h⟩
      obtain ⟨rfl, rfl⟩ := List.cons.inj (hs.symm.trans hc)
      exact h

/-- A word that is no keyword. -/
def IsName (s : String) : Prop := IsWord s ∧ s ∉ TokenKind.keywords.map Prod.fst

instance : DecidablePred IsName := fun s =>
  inferInstanceAs (Decidable (IsWord s ∧ s ∉ TokenKind.keywords.map Prod.fst))

/-- The words whose kind is that of a name are those that are no keywords. -/
theorem TokenKind.ofWord_eq_identifier_iff {s : String} :
    ofWord s = identifier ↔ s ∉ keywords.map Prod.fst := by
  rw [ofWord]
  constructor
  · intro h hmem
    simp only [keywords, List.map_cons, List.map_nil, List.mem_cons, List.not_mem_nil,
      or_false] at hmem
    rcases hmem with rfl | rfl | rfl | rfl | rfl | rfl | rfl | rfl | rfl | rfl | rfl <;>
      exact absurd h (by decide)
  · intro h
    have hnone : keywords.lookup s = none := by
      rw [List.lookup_eq_none_iff]
      intro p hp
      simpa using fun hs => h (List.mem_map.2 ⟨p, hp, hs.symm⟩)
    rw [hnone, Option.getD_none]

/-- A word of another kind than a name is a keyword of this kind. -/
theorem TokenKind.mem_keywords_of_ofWord {s : String} {kind : TokenKind} (h : ofWord s = kind)
    (hk : kind ≠ identifier) : (s, kind) ∈ keywords := by
  rw [ofWord] at h
  cases hl : keywords.lookup s with
  | none => exact absurd (h.symm.trans (by rw [hl, Option.getD_none])) hk
  | some k =>
    obtain ⟨before, after, hsplit, -⟩ := List.lookup_eq_some_iff.1 hl
    rw [hl, Option.getD_some] at h
    rw [hsplit, h]
    simp

/-- No word is a number. -/
theorem TokenKind.ofWord_ne_number (s : String) : ofWord s ≠ number := by
  intro h
  have hmem := mem_keywords_of_ofWord h (by decide)
  simp [keywords] at hmem

/-- No sign of punctuation is a number. -/
theorem TokenKind.ofPunctuation?_ne_number {c : Char} : ofPunctuation? c ≠ some number := by
  unfold ofPunctuation?
  split <;> decide

/-- A sign of punctuation is neither a boolean nor a name. -/
theorem TokenKind.ne_of_ofPunctuation? {c : Char} {kind : TokenKind}
    (h : ofPunctuation? c = some kind) : kind ≠ boolean ∧ kind ≠ identifier := by
  unfold ofPunctuation? at h
  split at h <;> cases h <;> decide

/-! ## Tokens that fit their kind -/

namespace Token

/-- A token whose text is one that its kind can be written as. -/
inductive IsLexical (t : Token) : Prop
  | number : t.kind = .number → t.text.toList ≠ [] → (∀ c ∈ t.text.toList, c.isDigit = true) →
      IsLexical t
  | word : IsWord t.text → t.kind = TokenKind.ofWord t.text → IsLexical t
  | punctuation (c : Char) : t.text = String.ofList [c] →
      TokenKind.ofPunctuation? c = some t.kind → IsLexical t

/-- A boolean token is written `true` or `false`. -/
theorem IsLexical.text_of_boolean {t : Token} (h : t.IsLexical) (hk : t.kind = .boolean) :
    t.text = "true" ∨ t.text = "false" := by
  cases h with
  | number hn => exact absurd (hn.symm.trans hk) (by decide)
  | word _ hw =>
    have hmem := TokenKind.mem_keywords_of_ofWord (hw.symm.trans hk) (by decide)
    simpa [TokenKind.keywords] using hmem
  | punctuation c _ hc => exact absurd hk (TokenKind.ne_of_ofPunctuation? hc).1

/-- An identifier token is written as a name. -/
theorem IsLexical.isName_of_identifier {t : Token} (h : t.IsLexical) (hk : t.kind = .identifier) :
    IsName t.text := by
  cases h with
  | number hn => exact absurd (hn.symm.trans hk) (by decide)
  | word hw hkind => exact ⟨hw, TokenKind.ofWord_eq_identifier_iff.1 (hkind.symm.trans hk)⟩
  | punctuation c _ hc => exact absurd hk (TokenKind.ne_of_ofPunctuation? hc).2

end Token

/-! ## The tokens of a text -/

/-- What a token starts with, at a character, fits the kind that it is given. -/
theorem isLexical_of_firstLexeme? {c : Char} {rest word : List Char} {kind : TokenKind}
    (h : firstLexeme? c rest = some (kind, word)) (offset : Nat) :
    Token.IsLexical ⟨kind, String.ofList word, offset⟩ := by
  rw [firstLexeme?] at h
  split at h
  · next hdigit =>
    obtain ⟨rfl, rfl⟩ := Prod.mk.inj (Option.some.inj h)
    refine .number rfl (by simp) fun d hd => ?_
    rw [String.toList_ofList, List.mem_cons] at hd
    rcases hd with rfl | hd
    · exact hdigit
    · exact List.mem_takeWhile_imp hd
  · split at h
    · next hstart =>
      obtain ⟨rfl, rfl⟩ := Prod.mk.inj (Option.some.inj h)
      exact .word ⟨c, _, String.toList_ofList, hstart, fun d hd => List.mem_takeWhile_imp hd⟩ rfl
    · obtain ⟨k, hk, hp⟩ := Option.map_eq_some_iff.1 h
      obtain ⟨rfl, rfl⟩ := Prod.mk.inj hp
      exact .punctuation c rfl hk

/-- Every token of some characters fits its kind. -/
theorem isLexical_of_mem_lex {offset : Nat} {cs : List Char} {ts : List Token}
    (h : lex offset cs = .ok ts) : ∀ t ∈ ts, t.IsLexical := by
  fun_induction lex offset cs generalizing ts with
  | case1 =>
    obtain rfl := Except.ok.inj h
    simp
  | case2 _ _ _ _ ih => exact ih h
  | case3 => cases h
  | case4 offset c rest _ kind word hfirst ih =>
    obtain ⟨later, hlater, rfl⟩ := Except.map_eq_ok_iff.1 h
    rw [List.forall_mem_cons]
    exact ⟨isLexical_of_firstLexeme? hfirst offset, ih hlater⟩

/-- Every token of a text fits its kind. -/
theorem isLexical_of_mem_tokenize {source : String} {ts : List Token}
    (h : tokenize source = .ok ts) : ∀ t ∈ ts, t.IsLexical :=
  isLexical_of_mem_lex h

/-! ## A token at the front of a text -/

/-- Characters that no word or number before them goes on over. -/
def EndsWords (cs : List Char) : Prop := ∀ c ∈ cs.head?, isWordChar c = false

/-- The letters are those of ASCII. -/
theorem isAlpha_iff {c : Char} :
    c.isAlpha = true ↔ 65 ≤ c.toNat ∧ c.toNat ≤ 90 ∨ 97 ≤ c.toNat ∧ c.toNat ≤ 122 := by
  show (decide ('A'.val ≤ c.val ∧ c.val ≤ 'Z'.val) ||
    (decide ('a'.val ≤ c.val) && decide (c.val ≤ 'z'.val))) = true ↔ _
  simp only [Bool.or_eq_true, Bool.and_eq_true, decide_eq_true_eq, UInt32.le_iff_toNat_le]
  rfl

theorem isDigit_iff {c : Char} : c.isDigit = true ↔ 48 ≤ c.toNat ∧ c.toNat ≤ 57 := by
  show (decide ('0'.val ≤ c.val) && decide (c.val ≤ '9'.val)) = true ↔ _
  simp only [Bool.and_eq_true, decide_eq_true_eq, UInt32.le_iff_toNat_le]
  rfl

theorem isWordChar_iff {c : Char} : isWordChar c = true ↔
    (c.isAlpha = true ∨ c.isDigit = true) ∨ c = '?' ∨ c = '!' ∨ c = '-' ∨ c = ':' ∨ c = '_' := by
  simp only [isWordChar, Char.isAlphanum, Bool.or_eq_true, beq_iff_eq, or_assoc]

theorem isWordChar_of_isDigit {c : Char} (h : c.isDigit = true) : isWordChar c = true := by
  simp [isWordChar, Char.isAlphanum, h]

theorem isWordChar_of_isWordStart {c : Char} (h : isWordStart c = true) : isWordChar c = true := by
  rw [isWordStart, Bool.or_eq_true] at h
  rcases h with h | h <;> simp [isWordChar, Char.isAlphanum, h]

/-- No word character is blank. -/
theorem isWordChar_of_isBlank {c : Char} (h : isBlank c = true) : isWordChar c = false := by
  by_contra hne
  rw [Bool.not_eq_false, isWordChar_iff, isAlpha_iff, isDigit_iff] at hne
  have hblank := h
  simp only [isBlank, Bool.or_eq_true, Bool.and_eq_true, decide_eq_true_eq, beq_iff_eq] at hblank
  rcases hne with (hletter | hdigit) | rfl | rfl | rfl | rfl | rfl
  · omega
  · omega
  all_goals exact absurd h (by decide)

/-- No token starts with a blank. -/
theorem firstLexeme?_of_isBlank {c : Char} (h : isBlank c = true) (rest : List Char) :
    firstLexeme? c rest = none := by
  have hword := isWordChar_of_isBlank h
  have hdigit : c.isDigit = false := by
    by_contra hne
    rw [isWordChar_of_isDigit (by simpa using hne)] at hword
    cases hword
  have hstart : isWordStart c = false := by
    by_contra hne
    rw [isWordChar_of_isWordStart (by simpa using hne)] at hword
    cases hword
  have hpunct : TokenKind.ofPunctuation? c = none := by
    unfold TokenKind.ofPunctuation?
    split <;> first | rfl | exact absurd h (by decide)
  rw [firstLexeme?, hdigit, hstart, hpunct]
  rfl

@[simp] theorem lex_nil (offset : Nat) : lex offset [] = .ok [] := by
  rw [lex.eq_def]

theorem lex_of_isBlank {c : Char} (h : isBlank c = true) (offset : Nat) (cs : List Char) :
    lex offset (c :: cs) = lex (offset + 1) cs := by
  rw [lex.eq_def]
  exact if_pos h

theorem lex_of_firstLexeme? {c : Char} {w tail : List Char} {kind : TokenKind}
    (h : firstLexeme? c (w ++ tail) = some (kind, c :: w)) (offset : Nat) :
    lex offset (c :: w ++ tail) =
      (lex (offset + (c :: w).length) tail).map (⟨kind, String.ofList (c :: w), offset⟩ :: ·) := by
  have hblank : isBlank c = false := by
    by_contra hne
    rw [firstLexeme?_of_isBlank (by simpa using hne)] at h
    cases h
  rw [List.cons_append, lex.eq_def]
  simp [hblank, h]

/-- A run ends where the first part of a text ends or before. -/
theorem takeWhile_append_of_head? {p : Char → Bool} {cs tail : List Char}
    (htail : ∀ c ∈ tail.head?, p c = false) : (cs ++ tail).takeWhile p = cs.takeWhile p := by
  induction cs with
  | nil =>
    cases tail with
    | nil => rfl
    | cons c tail => simp [htail c rfl]
  | cons c cs ih => simp [List.takeWhile_cons, ih]

theorem takeWhile_append_of_ends {p : Char → Bool} {w tail : List Char} (hw : ∀ c ∈ w, p c = true)
    (htail : ∀ c ∈ tail.head?, p c = false) : (w ++ tail).takeWhile p = w := by
  rw [takeWhile_append_of_head? htail, List.takeWhile_eq_self_iff.2 hw]

/-- A sign of punctuation is a token, whatever comes after it. -/
theorem firstLexeme?_of_punctuation {c : Char} {kind : TokenKind}
    (h : TokenKind.ofPunctuation? c = some kind) (rest : List Char) :
    firstLexeme? c rest = some (kind, [c]) := by
  have hclass : c.isDigit = false ∧ isWordStart c = false := by
    unfold TokenKind.ofPunctuation? at h
    split at h <;> first | decide | cases h
  rw [firstLexeme?, hclass.1, hclass.2, h]
  rfl

theorem lex_of_punctuation {c : Char} {kind : TokenKind}
    (h : TokenKind.ofPunctuation? c = some kind) (offset : Nat) (rest : List Char) :
    lex offset (c :: rest) =
      (lex (offset + 1) rest).map (⟨kind, String.ofList [c], offset⟩ :: ·) := by
  have hfirst : firstLexeme? c ([] ++ rest) = some (kind, [c]) :=
    firstLexeme?_of_punctuation h rest
  exact lex_of_firstLexeme? hfirst offset

theorem firstLexeme?_of_digits {c : Char} {w tail : List Char} (h : ∀ d ∈ c :: w, d.isDigit = true)
    (htail : ∀ d ∈ tail.head?, d.isDigit = false) :
    firstLexeme? c (w ++ tail) = some (.number, c :: w) := by
  obtain ⟨hc, hw⟩ := List.forall_mem_cons.1 h
  rw [firstLexeme?, if_pos hc, takeWhile_append_of_ends hw htail]

/-- What no word goes on over does not go on a number either. -/
theorem EndsWords.not_isDigit {cs : List Char} (h : EndsWords cs) :
    ∀ d ∈ cs.head?, d.isDigit = false := by
  intro d hd
  by_contra hne
  exact absurd (isWordChar_of_isDigit (by simpa using hne)) (by simp [h d hd])

theorem not_isDigit_of_isWordStart {c : Char} (h : isWordStart c = true) : c.isDigit = false := by
  by_contra hne
  rw [Bool.not_eq_false, isDigit_iff] at hne
  rw [isWordStart, Bool.or_eq_true, beq_iff_eq, isAlpha_iff] at h
  rcases h with hletter | rfl
  · omega
  · exact absurd hne (by decide)

theorem firstLexeme?_of_word {c : Char} {w tail : List Char} (hc : isWordStart c = true)
    (hw : ∀ d ∈ w, isWordChar d = true) (htail : EndsWords tail) :
    firstLexeme? c (w ++ tail) =
      some (TokenKind.ofWord (String.ofList (c :: w)), c :: w) := by
  rw [firstLexeme?, not_isDigit_of_isWordStart hc, if_neg Bool.false_ne_true, if_pos hc,
    takeWhile_append_of_ends hw htail]

/-- The text of a token that fits its kind reads back as the token, before anything that no word
goes on over. -/
theorem Token.IsLexical.lex_append {t : Token} (h : t.IsLexical) {tail : List Char}
    (htail : EndsWords tail) (offset : Nat) :
    lex offset (t.text.toList ++ tail) =
      (lex (offset + t.text.length) tail).map (⟨t.kind, t.text, offset⟩ :: ·) := by
  have hfirst : ∃ c w, t.text.toList = c :: w ∧
      firstLexeme? c (w ++ tail) = some (t.kind, c :: w) := by
    cases h with
    | number hk hne hdigits =>
      obtain ⟨c, w, hcw⟩ := List.exists_cons_of_ne_nil hne
      rw [hcw] at hdigits
      exact ⟨c, w, hcw, by rw [hk]; exact firstLexeme?_of_digits hdigits htail.not_isDigit⟩
    | word hword hk =>
      obtain ⟨c, w, hcw, hc, hw⟩ := hword
      refine ⟨c, w, hcw, ?_⟩
      rw [firstLexeme?_of_word hc hw htail, hk, ← hcw, String.ofList_toList]
    | punctuation c htext hk =>
      refine ⟨c, [], by rw [htext, String.toList_ofList], ?_⟩
      exact firstLexeme?_of_punctuation hk _
  obtain ⟨c, w, hcw, hfirst⟩ := hfirst
  rw [← String.length_toList, hcw, lex_of_firstLexeme? hfirst, ← hcw, String.ofList_toList]

/-- Blanks before some characters are skipped. -/
theorem lex_blanks_append {gap : List Char} (hblank : ∀ c ∈ gap, isBlank c = true) (offset : Nat)
    (cs : List Char) : lex offset (gap ++ cs) = lex (offset + gap.length) cs := by
  induction gap generalizing offset with
  | nil => rfl
  | cons c gap ih =>
    obtain ⟨hc, hgap⟩ := List.forall_mem_cons.1 hblank
    rw [List.cons_append, lex_of_isBlank hc, ih hgap, List.length_cons, Nat.add_assoc,
      Nat.add_comm 1]

/-- The tokens that fit their kinds are those that some text has. -/
theorem Token.isLexical_iff {t : Token} :
    t.IsLexical ↔ ∃ source ts, tokenize source = .ok ts ∧ t ∈ ts := by
  constructor
  · intro h
    refine ⟨String.ofList (List.replicate t.offset ' ' ++ t.text.toList), [t], ?_, by simp⟩
    have hends : EndsWords [] := nofun
    have hlex := h.lex_append hends t.offset
    rw [List.append_nil] at hlex
    have hblank : ∀ c ∈ List.replicate t.offset ' ', isBlank c = true := by
      intro c hc
      rw [List.eq_of_mem_replicate hc]
      rfl
    rw [tokenize, String.toList_ofList, lex_blanks_append hblank, List.length_replicate,
      Nat.zero_add, hlex, lex_nil]
    rfl
  · rintro ⟨source, ts, htokens, ht⟩
    exact isLexical_of_mem_tokenize htokens t ht

end DynLisp
