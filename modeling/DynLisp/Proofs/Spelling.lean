import DynLisp.Proofs.Grammar
import DynLisp.Proofs.Lexing

/-!
# Texts that spell tokens

`Spells s R` says that the text `s` is cut into tokens that satisfy `R` and can be converted,
wherever it stands and whatever comes after it, unless a word would go on over that.  It composes
along the ways in which canonical texts are put together: a sign of punctuation before a text
(`Spells.sign`), a text and another one after a blank (`Spells.blank`), a text and a closing bracket
(`Spells.closing`), and a text with any number of others after it, all of them separated by blanks
(`Spells.intercalate`).
-/

namespace DynLisp

/-- Before anything that no word goes on over, the text is cut into tokens that satisfy `R`, and no
number among them has too many digits. -/
def Spells (s : String) (R : List Token → Prop) : Prop :=
  ∀ (offset : Nat) (tail : List Char), EndsWords tail →
    ∃ ts, R ts ∧ (∀ t ∈ ts, t.Convertible) ∧
      lex offset (s.toList ++ tail) = (lex (offset + s.length) tail).map (ts ++ ·)

namespace Spells

variable {s s' : String} {R S : List Token → Prop}

theorem mono (h : Spells s R) (hRS : ∀ ts, R ts → S ts) : Spells s S := by
  intro offset tail htail
  obtain ⟨ts, hts, hconv, hlex⟩ := h offset tail htail
  exact ⟨ts, hRS ts hts, hconv, hlex⟩

/-- The tokens of a whole text. -/
theorem tokenize (h : Spells s R) :
    ∃ ts, R ts ∧ (∀ t ∈ ts, t.Convertible) ∧ DynLisp.tokenize s = .ok ts := by
  obtain ⟨ts, hts, hconv, hlex⟩ := h 0 [] nofun
  rw [List.append_nil, lex_nil] at hlex
  refine ⟨ts, hts, hconv, ?_⟩
  rw [DynLisp.tokenize, hlex]
  exact congrArg Except.ok (List.append_nil ts)

/-- A token that fits its kind is spelled by its text. -/
theorem token {kind : TokenKind} {text : String}
    (h : ∀ offset, Token.IsLexical ⟨kind, text, offset⟩)
    (hconv : ∀ offset, Token.Convertible ⟨kind, text, offset⟩) :
    Spells text fun ts => ∃ t, ts = [t] ∧ t.kind = kind ∧ t.text = text := by
  intro offset tail htail
  exact ⟨[⟨kind, text, offset⟩], ⟨_, rfl, rfl, rfl⟩, List.forall_mem_singleton.2 (hconv offset),
    (h offset).lex_append htail offset⟩

theorem word (h : IsWord s) :
    Spells s fun ts => ∃ t, ts = [t] ∧ t.kind = TokenKind.ofWord s ∧ t.text = s :=
  token (fun _ => .word h rfl) fun _ => .of_kind_ne (TokenKind.ofWord_ne_number s)

theorem name (h : IsName s) :
    Spells s fun ts => ∃ t, ts = [t] ∧ t.kind = .identifier ∧ t.text = s := by
  refine (word h.1).mono fun ts ⟨t, hts, hk, htext⟩ => ⟨t, hts, ?_, htext⟩
  rw [hk, TokenKind.ofWord_eq_identifier_iff]
  exact h.2

/-! ## Signs and blanks -/

/-- A sign of punctuation is a token of its own, whatever comes after it. -/
theorem sign {c : Char} {kind : TokenKind} (hc : TokenKind.ofPunctuation? c = some kind)
    (hs' : s'.toList = [c]) (h : Spells s R) :
    Spells (s' ++ s) fun ts => ∃ t us, ts = t :: us ∧ t.kind = kind ∧ R us := by
  intro offset tail htail
  obtain ⟨us, hus, hconv, hlex⟩ := h (offset + 1) tail htail
  refine ⟨⟨kind, String.ofList [c], offset⟩ :: us, ⟨_, _, rfl, rfl, hus⟩,
    List.forall_mem_cons.2 ⟨.of_kind_ne fun hk => ?_, hconv⟩, ?_⟩
  · exact TokenKind.ofPunctuation?_ne_number (hc.trans (congrArg some hk))
  have hlength : s'.length = 1 := by rw [← String.length_toList, hs', List.length_singleton]
  rw [String.toList_append, hs', List.append_assoc, List.singleton_append,
    lex_of_punctuation hc, hlex, String.length_append, hlength, ← Nat.add_assoc]
  cases lex (offset + 1 + s.length) tail <;> rfl

theorem opening (h : Spells s R) :
    Spells ("(" ++ s) fun ts => ∃ o us, ts = o :: us ∧ o.kind = .opening ∧ R us :=
  sign (c := '(') rfl rfl h

/-- A blank ends what is before it, and is no token. -/
theorem blank (h : Spells s R) (h' : Spells s' S) :
    Spells (s ++ " " ++ s') fun ts => ∃ us vs, ts = us ++ vs ∧ R us ∧ S vs := by
  intro offset tail htail
  have hblank : EndsWords (' ' :: (s'.toList ++ tail)) := by
    rintro c ⟨⟩
    rfl
  obtain ⟨us, hus, hconv, hlex⟩ := h offset _ hblank
  obtain ⟨vs, hvs, hconv', hlex'⟩ := h' (offset + s.length + 1) tail htail
  refine ⟨us ++ vs, ⟨us, vs, rfl, hus, hvs⟩, List.forall_mem_append.2 ⟨hconv, hconv'⟩, ?_⟩
  have hskip : lex (offset + s.length) (' ' :: (s'.toList ++ tail)) =
      lex (offset + s.length + 1) (s'.toList ++ tail) := lex_of_isBlank rfl _ _
  have hlist : (s ++ " " ++ s').toList ++ tail = s.toList ++ ' ' :: (s'.toList ++ tail) := by
    simp
  have hlength : offset + (s ++ " " ++ s').length = offset + s.length + 1 + s'.length := by
    rw [String.length_append, String.length_append]
    show offset + (s.length + 1 + s'.length) = _
    omega
  rw [hlist, hlex, hskip, hlex', hlength]
  cases lex (offset + s.length + 1 + s'.length) tail with
  | error bad => rfl
  | ok ts => exact congrArg Except.ok (List.append_assoc us vs ts).symm

/-- A closing bracket ends what is before it, and is a token. -/
theorem closing (h : Spells s R) :
    Spells (s ++ ")") fun ts => ∃ us c, ts = us ++ [c] ∧ R us ∧ c.kind = .closing := by
  intro offset tail htail
  have hends : EndsWords (')' :: tail) := by
    rintro c ⟨⟩
    rfl
  obtain ⟨us, hus, hconv, hlex⟩ := h offset _ hends
  have hclosing : Token.Convertible ⟨.closing, ")", offset + s.length⟩ :=
    .of_kind_ne (by simp)
  refine ⟨us ++ [⟨.closing, ")", offset + s.length⟩], ⟨us, _, rfl, hus, rfl⟩,
    List.forall_mem_append.2 ⟨hconv, List.forall_mem_singleton.2 hclosing⟩, ?_⟩
  have hlist : (s ++ ")").toList ++ tail = s.toList ++ ')' :: tail := by simp
  have hlength : offset + (s ++ ")").length = offset + s.length + 1 := by
    rw [String.length_append]
    rfl
  rw [hlist, hlex, @lex_of_punctuation ')' .closing rfl, hlength]
  cases lex (offset + s.length + 1) tail with
  | error bad => rfl
  | ok ts => exact congrArg Except.ok (List.append_cons us _ ts)

/-- A text and others after it, with blanks in between. -/
theorem intercalate {α : Type} {Item : List Token → α → Prop} {f : α → String} {xs : List α}
    (h : Spells s R) (hxs : ∀ x ∈ xs, Spells (f x) (Item · x)) :
    Spells (" ".intercalate (s :: xs.map f))
      fun ts => ∃ us vs, ts = us ++ vs ∧ R us ∧ Sequence Item vs xs := by
  induction xs generalizing s R with
  | nil =>
    rw [List.map_nil, String.intercalate_singleton]
    exact h.mono fun ts hts => ⟨ts, [], (List.append_nil _).symm, hts, .nil⟩
  | cons x xs ih =>
    obtain ⟨hx, hxs⟩ := List.forall_mem_cons.1 hxs
    rw [List.map_cons, String.intercalate_cons_cons]
    refine (h.blank (ih hx hxs)).mono ?_
    rintro _ ⟨us, _, rfl, hus, vs, ws, rfl, hvs, hws⟩
    exact ⟨us, vs ++ ws, rfl, hus, .cons hvs hws⟩

end Spells

end DynLisp
