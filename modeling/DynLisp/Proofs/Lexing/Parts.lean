import DynLisp.Proofs.Lexing.Cut

/-!
# Texts that are cut in parts

A text is read from the left and never behind, so what its first part is cut into does not depend on
what follows, as long as no word goes on from the one part into the other (`lex_append`).  A blank
between the parts is enough for that, and it belongs to neither.  What the second part is cut into
is what it is cut into alone, with the offsets counted from further left (`lex_add`).

So blanks may be put between two texts, and the tokens of the whole are those of the one and then
those of the other; a character that starts no token is met in the whole where it is met in a part,
and the first part counts first (`tokenize_join_blanks`).
-/

namespace DynLisp

/-! ## Offsets -/

/-- A token that stands `n` characters further right. -/
def Token.shift (n : Nat) (t : Token) : Token := { t with offset := t.offset + n }

@[simp] theorem Token.lexeme_shift (n : Nat) (t : Token) : (t.shift n).lexeme = t.lexeme := rfl

/-- A character that starts no token and stands `n` characters further right. -/
def IllegalCharacter.shift (n : Nat) (bad : IllegalCharacter) : IllegalCharacter :=
  { bad with offset := bad.offset + n }

/-- What some characters are cut into when they stand `n` characters further right. -/
def shiftCut (n : Nat) :
    Except IllegalCharacter (List Token) → Except IllegalCharacter (List Token)
  | .ok ts => .ok (ts.map (Token.shift n))
  | .error bad => .error (bad.shift n)

theorem shiftCut_map_cons (n : Nat) (t : Token) (r : Except IllegalCharacter (List Token)) :
    shiftCut n (r.map (t :: ·)) = (shiftCut n r).map (t.shift n :: ·) := by
  cases r <;> rfl

/-- Cutting counts the offsets from the one that it starts at. -/
theorem lex_add (offset n : Nat) (cs : List Char) :
    lex (offset + n) cs = shiftCut n (lex offset cs) := by
  fun_induction lex offset cs with
  | case1 offset =>
    rw [lex_nil]
    rfl
  | case2 offset c rest hblank ih => rw [lex_of_isBlank hblank, Nat.add_right_comm, ih]
  | case3 offset c rest hblank hnone =>
    rw [lex.eq_def]
    simp only [hblank, hnone, Bool.false_eq_true, if_false]
    rfl
  | case4 offset c rest hblank kind word hfirst ih =>
    rw [lex.eq_def (offset + n) (c :: rest)]
    simp only [hblank, hfirst, Bool.false_eq_true, if_false]
    rw [Nat.add_right_comm, ih, shiftCut_map_cons]
    rfl

/-! ## Two parts -/

theorem firstLexeme?_append {c : Char} {rest tail : List Char} (htail : EndsWords tail) :
    firstLexeme? c (rest ++ tail) = firstLexeme? c rest := by
  rw [firstLexeme?, firstLexeme?, takeWhile_append_of_head? htail.not_isDigit,
    takeWhile_append_of_head? htail]

theorem map_cons_append (t : Token) (ts : List Token)
    (r : Except IllegalCharacter (List Token)) :
    (r.map (ts ++ ·)).map (t :: ·) = r.map (t :: ts ++ ·) := by
  cases r <;> rfl

/-- Before anything that no word goes on over, characters are cut as they are alone, and what comes
after them is cut by itself. -/
theorem lex_append {tail : List Char} (htail : EndsWords tail) (offset : Nat) (cs : List Char) :
    lex offset (cs ++ tail) =
      (lex offset cs).bind fun ts => (lex (offset + cs.length) tail).map (ts ++ ·) := by
  fun_induction lex offset cs with
  | case1 offset =>
    show lex offset tail = (lex offset tail).map ([] ++ ·)
    cases lex offset tail <;> rfl
  | case2 offset c rest hblank ih =>
    rw [List.cons_append, lex_of_isBlank hblank, ih, List.length_cons, Nat.add_assoc,
      Nat.add_comm 1]
  | case3 offset c rest hblank hnone =>
    rw [List.cons_append, lex.eq_def]
    simp only [hblank, firstLexeme?_append htail, hnone, Bool.false_eq_true, if_false]
    rfl
  | case4 offset c rest hblank kind word hfirst ih =>
    obtain ⟨w, rest, rfl, rfl, -⟩ := exists_of_firstLexeme? hfirst
    have hdrop : (w ++ rest).drop ((c :: w).length - 1) = rest := by simp
    have hlist : c :: (w ++ rest) ++ tail = c :: w ++ (rest ++ tail) := by simp
    have hwhole : firstLexeme? c (w ++ (rest ++ tail)) = some (kind, c :: w) := by
      rw [← List.append_assoc, firstLexeme?_append htail, hfirst]
    have hlength : offset + (c :: w).length + rest.length =
        offset + (c :: (w ++ rest)).length := by
      simp only [List.length_cons, List.length_append]
      omega
    rw [hdrop, hlength] at ih
    rw [hdrop, hlist, lex_of_firstLexeme? hwhole, ih]
    cases lex (offset + (c :: w).length) rest with
    | error bad => rfl
    | ok ts => exact map_cons_append _ ts _

/-! ## Blanks between two texts -/

/-- Two texts with blanks between them are cut each by itself. -/
theorem tokenize_append_blanks {gap : String} (hne : gap ≠ "")
    (hblank : ∀ c ∈ gap.toList, isBlank c = true) (s s' : String) :
    tokenize (s ++ gap ++ s') =
      (tokenize s).bind fun ts =>
        (shiftCut (s.length + gap.length) (tokenize s')).map (ts ++ ·) := by
  have hends : EndsWords (gap.toList ++ s'.toList) := by
    obtain ⟨c, cs, hgap⟩ := List.exists_cons_of_ne_nil (mt String.toList_eq_nil_iff.1 hne)
    rw [hgap] at hblank ⊢
    rintro _ ⟨⟩
    exact isWordChar_of_isBlank (hblank c List.mem_cons_self)
  simp only [tokenize, String.toList_append, List.append_assoc]
  rw [lex_append hends, lex_blanks_append hblank, Nat.add_assoc, lex_add, String.length_toList,
    String.length_toList]

/-- The texts of tokens, with a blank between every two of them, are cut into the same words. -/
theorem exists_tokenize_texts {ts : List Token} (hlex : ∀ t ∈ ts, t.IsLexical) :
    ∃ us, tokenize (" ".intercalate (ts.map Token.text)) = .ok us ∧
      us.map Token.lexeme = ts.map Token.lexeme := by
  induction ts with
  | nil => exact ⟨[], lex_nil 0, rfl⟩
  | cons t ts ih =>
    obtain ⟨ht, hts⟩ := List.forall_mem_cons.1 hlex
    obtain ⟨us, hus, hwords⟩ := ih hts
    have hfirst : tokenize t.text = .ok [⟨t.kind, t.text, 0⟩] := by
      have hends : EndsWords [] := nofun
      have happend := ht.lex_append hends 0
      rw [List.append_nil, lex_nil] at happend
      exact happend
    cases ts with
    | nil => exact ⟨_, hfirst, rfl⟩
    | cons u ts =>
      rw [List.map_cons, List.map_cons, String.intercalate_cons_cons,
        tokenize_append_blanks (by decide) (List.all_eq_true.1 (by decide)), hfirst,
        ← List.map_cons, hus]
      have hshift : ∀ n, (us.map (Token.shift n)).map Token.lexeme = us.map Token.lexeme :=
        fun n => List.map_map
      refine ⟨_, rfl, ?_⟩
      rw [List.map_append, hshift, hwords]
      rfl

/-- **Blanks part a text.**  If two texts are cut into tokens then so are the two with any blanks
between them, and the tokens are those of the first and then those of the second, as far further
right as the second starts.  A character of the first that starts no token is met in the whole, too,
at its offset; and one of the second, if the first has none, as far further right.  So the texts of
any tokens, with a blank between every two of them, are cut into the same words again. -/
theorem tokenize_join_blanks :
    (∀ s gap s' : String, gap ≠ "" → (∀ c ∈ gap.toList, isBlank c = true) →
      (∀ ts ts', tokenize s = .ok ts → tokenize s' = .ok ts' →
        tokenize (s ++ gap ++ s') = .ok (ts ++ ts'.map (Token.shift (s.length + gap.length)))) ∧
      (∀ bad, tokenize s = .error bad → tokenize (s ++ gap ++ s') = .error bad) ∧
      ∀ ts bad, tokenize s = .ok ts → tokenize s' = .error bad →
        tokenize (s ++ gap ++ s') = .error (bad.shift (s.length + gap.length))) ∧
    ∀ s ts, tokenize s = .ok ts →
      ∃ us, tokenize (" ".intercalate (ts.map Token.text)) = .ok us ∧
        Token.sameWords us ts = true := by
  refine ⟨fun s gap s' hne hblank => ?_, fun s ts hts => ?_⟩
  · rw [tokenize_append_blanks hne hblank]
    refine ⟨fun ts ts' hts hts' => ?_, fun bad hbad => ?_, fun ts bad hts hbad => ?_⟩
    · rw [hts, hts']
      rfl
    · rw [hbad]
      rfl
    · rw [hts, hbad]
      rfl
  · obtain ⟨us, hus, hwords⟩ := exists_tokenize_texts (isLexical_of_mem_tokenize hts)
    exact ⟨us, hus, beq_iff_eq.2 hwords⟩

/-- An em space and a line separator keep a name from going on over a sign; a number sign is met in
the first part before a colon in the second; and tokens that touch each other are told apart. -/
theorem tokenize_join_blanks_unicode :
    let gap := "\u2003\u2028"
    gap ≠ "" ∧ (∀ c ∈ gap.toList, isBlank c = true) ∧
      tokenize ("f?" ++ gap ++ "-1") =
        .ok [⟨.identifier, "f?", 0⟩, ⟨.minus, "-", 4⟩, ⟨.number, "1", 5⟩] ∧
      tokenize "f?-1" = .ok [⟨.identifier, "f?-1", 0⟩] ∧
      tokenize ("a#" ++ gap ++ ":") = .error ⟨'#', 1⟩ ∧
      tokenize ("a" ++ gap ++ "b :") = .error ⟨':', 5⟩ ∧
      ∃ us, tokenize "12 a?- (" = .ok us ∧
        Token.sameWords us [⟨.number, "12", 0⟩, ⟨.identifier, "a?-", 2⟩, ⟨.opening, "(", 5⟩] =
          true := by
  intro gap
  have hne : gap ≠ "" := by decide
  have hblank : ∀ c ∈ gap.toList, isBlank c = true := List.all_eq_true.1 (by decide +kernel)
  have hname : tokenize "f?" = .ok [⟨.identifier, "f?", 0⟩] := by decide +kernel
  have hsign : tokenize "-1" = .ok [⟨.minus, "-", 0⟩, ⟨.number, "1", 1⟩] := by decide +kernel
  have hfirst : tokenize "a#" = .error ⟨'#', 1⟩ := by decide +kernel
  have ha : tokenize "a" = .ok [⟨.identifier, "a", 0⟩] := by decide +kernel
  have hsecond : tokenize "b :" = .error ⟨':', 2⟩ := by decide +kernel
  have htouching : tokenize "12a?-(" =
      .ok [⟨.number, "12", 0⟩, ⟨.identifier, "a?-", 2⟩, ⟨.opening, "(", 5⟩] := by decide +kernel
  obtain ⟨hjoin, htexts⟩ := tokenize_join_blanks
  have hapart := (hjoin "f?" gap "-1" hne hblank).1 _ _ hname hsign
  have hlater := (hjoin "a" gap "b :" hne hblank).2.2 _ _ ha hsecond
  have hshift : "f?".length + gap.length = 4 := by decide
  have hshift' : "a".length + gap.length = 3 := by decide
  rw [hshift] at hapart
  rw [hshift'] at hlater
  exact ⟨hne, hblank, hapart, by decide +kernel, (hjoin "a#" gap ":" hne hblank).2.1 _ hfirst,
    hlater, htexts "12a?-(" _ htouching⟩

end DynLisp
