import DynLisp.Proofs.Lexing.Parts
import DynLisp.Session

/-!
# The words of a text

The tokens of a text without their offsets, which is all that the meaning of a text depends on.
`words` are the words of some characters, or the first character among them that starts none, and
`wordsOf` are those that are left when the comments are blanked.

Words are kept where blanks are added or taken away at an end of a text, and the words of two lines
are those of the one followed by those of the other (`wordsOf_join`): a newline ends the word and
the comment before it.  So a text that is cleared of its comments and trimmed line by line, before
the next line is put to it, has the words of the whole.  A text that cuts into tokens as it stands
has no comment, since no token has the character in it that starts one (`wordsOf_of_tokenize`).
-/

namespace DynLisp

/-- What some characters are cut into, or the character that starts no token. -/
abbrev Words := Except Char (List (TokenKind × String))

/-- What remains of a cut when the offsets are forgotten. -/
def forgetOffsets : Except IllegalCharacter (List Token) → Words
  | .ok ts => .ok (ts.map Token.lexeme)
  | .error bad => .error bad.char

/-- The words of some characters. -/
def words (cs : List Char) : Words := forgetOffsets (lex 0 cs)

/-- Words followed by words. -/
def Words.join (ws ws' : Words) : Words := ws.bind fun us => ws'.map (us ++ ·)

@[simp] theorem Words.nil_join (ws : Words) : join (.ok []) ws = ws := by
  cases ws <;> rfl

@[simp] theorem Words.join_nil (ws : Words) : ws.join (.ok []) = ws := by
  cases ws with
  | error c => rfl
  | ok us => exact congrArg Except.ok (List.append_nil us)

/-! ## Words of characters -/

/-- The words do not depend on the offset that cutting starts at. -/
theorem forgetOffsets_lex (offset : Nat) (cs : List Char) :
    forgetOffsets (lex offset cs) = words cs := by
  rw [words, ← Nat.zero_add offset, lex_add]
  cases lex 0 cs with
  | error bad => rfl
  | ok ts => exact congrArg Except.ok List.map_map

@[simp] theorem words_nil : words [] = .ok [] := by
  rw [words, lex_nil]
  rfl

theorem words_of_isBlank {c : Char} (h : isBlank c = true) (cs : List Char) :
    words (c :: cs) = words cs := by
  rw [words, lex_of_isBlank h, forgetOffsets_lex]

/-- Before anything that no word goes on over, characters have the words that they have alone. -/
theorem words_append {tail : List Char} (htail : EndsWords tail) (cs : List Char) :
    words (cs ++ tail) = (words cs).join (words tail) := by
  rw [← forgetOffsets_lex (0 + cs.length) tail, words, words, lex_append htail]
  cases lex 0 cs with
  | error bad => rfl
  | ok ts =>
    cases lex (0 + cs.length) tail with
    | error bad => rfl
    | ok us => exact congrArg Except.ok List.map_append

theorem words_of_blanks {cs : List Char} (h : ∀ c ∈ cs, isBlank c = true) : words cs = .ok [] := by
  induction cs with
  | nil => exact words_nil
  | cons c cs ih =>
    obtain ⟨hc, hcs⟩ := List.forall_mem_cons.1 h
    rw [words_of_isBlank hc, ih hcs]

/-- A blank ends the word before it, and so do blanks at the end of a text. -/
theorem endsWords_of_blanks {cs : List Char} (h : ∀ c ∈ cs, isBlank c = true) : EndsWords cs :=
  fun c hc => isWordChar_of_isBlank (h c (List.mem_of_mem_head? hc))

/-! ## Comments -/

/-- A newline ends a comment. -/
theorem blankFrom_append_newline (inComment : Bool) (cs ds : List Char) :
    blankFrom inComment (cs ++ '\n' :: ds) =
      blankFrom inComment cs ++ '\n' :: blankFrom false ds := by
  fun_induction blankFrom inComment cs with
  | case1 => simp [blankFrom]
  | case2 inComment cs ih => rw [List.cons_append, blankFrom, if_pos rfl, ih, List.cons_append]
  | case3 inComment c cs hne hcomment ih =>
    rw [List.cons_append, blankFrom, if_neg hne, if_pos hcomment, ih, List.cons_append]
  | case4 inComment c cs hne hcomment ih =>
    rw [List.cons_append, blankFrom, if_neg hne, if_neg hcomment, ih, List.cons_append]

/-- No comment is left. -/
theorem blankFrom_blankFrom (inComment : Bool) (cs : List Char) :
    blankFrom false (blankFrom inComment cs) = blankFrom inComment cs := by
  fun_induction blankFrom inComment cs with
  | case1 => rfl
  | case2 inComment cs ih => rw [blankFrom, if_pos rfl, ih]
  | case3 inComment c cs hne hcomment ih =>
    rw [blankFrom, if_neg (by decide), if_neg (by decide), ih]
  | case4 inComment c cs hne hcomment ih =>
    have hopen : ¬ (false || decide (c = ';')) = true := by
      cases inComment <;> simp_all
    rw [blankFrom, if_neg hne, if_neg hopen, ih]

/-- Characters at the end are blanked by themselves, inside a comment or not. -/
theorem exists_blankFrom_append (inComment : Bool) (cs ds : List Char) :
    ∃ inComment', blankFrom inComment (cs ++ ds) =
      blankFrom inComment cs ++ blankFrom inComment' ds := by
  fun_induction blankFrom inComment cs with
  | case1 inComment => exact ⟨inComment, rfl⟩
  | case2 inComment cs ih =>
    obtain ⟨inComment', h⟩ := ih
    exact ⟨inComment', by rw [List.cons_append, blankFrom, if_pos rfl, h, List.cons_append]⟩
  | case3 inComment c cs hne hcomment ih =>
    obtain ⟨inComment', h⟩ := ih
    refine ⟨inComment', ?_⟩
    rw [List.cons_append, blankFrom, if_neg hne, if_pos hcomment, h, List.cons_append]
  | case4 inComment c cs hne hcomment ih =>
    obtain ⟨inComment', h⟩ := ih
    refine ⟨inComment', ?_⟩
    rw [List.cons_append, blankFrom, if_neg hne, if_neg hcomment, h, List.cons_append]

/-- Blanks stay blank. -/
theorem isBlank_of_mem_blankFrom {inComment : Bool} {cs : List Char}
    (h : ∀ c ∈ cs, isBlank c = true) : ∀ c ∈ blankFrom inComment cs, isBlank c = true := by
  fun_induction blankFrom inComment cs with
  | case1 => exact h
  | case2 inComment cs ih =>
    obtain ⟨hc, hcs⟩ := List.forall_mem_cons.1 h
    exact List.forall_mem_cons.2 ⟨hc, ih hcs⟩
  | case3 inComment c cs hne hcomment ih =>
    exact List.forall_mem_cons.2 ⟨rfl, ih (List.forall_mem_cons.1 h).2⟩
  | case4 inComment c cs hne hcomment ih =>
    obtain ⟨hc, hcs⟩ := List.forall_mem_cons.1 h
    exact List.forall_mem_cons.2 ⟨hc, ih hcs⟩

/-! ## Words outside of comments -/

/-- The words of a text outside of its comments. -/
def wordsOf (s : String) : Words := words (blankFrom false s.toList)

@[simp] theorem wordsOf_empty : wordsOf "" = .ok [] := words_nil

theorem wordsOf_blankComments (s : String) : wordsOf (blankComments s) = wordsOf s := by
  rw [wordsOf, wordsOf, blankComments, String.toList_ofList, blankFrom_blankFrom]

/-- The words of a text without comments are those of its characters. -/
theorem words_blankComments (s : String) : words (blankComments s).toList = wordsOf s := by
  rw [wordsOf, blankComments, String.toList_ofList]

theorem exists_dropBlankEnd_append (cs : List Char) :
    ∃ blanks, cs = Text.dropBlankEnd cs ++ blanks ∧ ∀ c ∈ blanks, isBlank c = true := by
  refine ⟨(cs.reverse.takeWhile isBlank).reverse, ?_, fun c hc => ?_⟩
  · rw [Text.dropBlankEnd, ← List.reverse_append, List.takeWhile_append_dropWhile,
      List.reverse_reverse]
  · exact List.mem_takeWhile_imp (List.mem_reverse.1 hc)

theorem words_dropBlankEnd (cs : List Char) : words (Text.dropBlankEnd cs) = words cs := by
  obtain ⟨blanks, hcs, hblanks⟩ := exists_dropBlankEnd_append cs
  have happend := words_append (endsWords_of_blanks hblanks) (Text.dropBlankEnd cs)
  rwa [← hcs, words_of_blanks hblanks, Words.join_nil, eq_comm] at happend

theorem words_blankFrom_dropBlankEnd (cs : List Char) :
    words (blankFrom false (Text.dropBlankEnd cs)) = words (blankFrom false cs) := by
  obtain ⟨blanks, hcs, hblanks⟩ := exists_dropBlankEnd_append cs
  obtain ⟨inComment, hblank⟩ := exists_blankFrom_append false (Text.dropBlankEnd cs) blanks
  have hend : ∀ c ∈ blankFrom inComment blanks, isBlank c = true :=
    isBlank_of_mem_blankFrom hblanks
  have happend := words_append (endsWords_of_blanks hend) (blankFrom false (Text.dropBlankEnd cs))
  rwa [← hblank, ← hcs, words_of_blanks hend, Words.join_nil, eq_comm] at happend

theorem words_blankFrom_dropWhile (cs : List Char) :
    words (blankFrom false (cs.dropWhile isBlank)) = words (blankFrom false cs) := by
  induction cs with
  | nil => rfl
  | cons c cs ih =>
    rw [List.dropWhile_cons]
    split
    · next hblank =>
      have hkept : blankFrom false (c :: cs) = c :: blankFrom false cs := by
        have hne : c ≠ ';' := by
          rintro rfl
          exact absurd hblank (by decide)
        simp [blankFrom, hne]
      rw [ih, hkept, words_of_isBlank hblank]
    · rfl

theorem wordsOf_trimEnd (s : String) : wordsOf (Text.trimEnd s) = wordsOf s := by
  rw [wordsOf, Text.trimEnd, String.toList_ofList, words_blankFrom_dropBlankEnd]
  rfl

theorem wordsOf_trim (s : String) : wordsOf (Text.trim s) = wordsOf s := by
  rw [wordsOf, Text.trim, String.toList_ofList, words_blankFrom_dropBlankEnd,
    words_blankFrom_dropWhile]
  rfl

/-- The words of two lines are those of the one and then those of the other. -/
theorem wordsOf_join (s s' : String) :
    wordsOf (s ++ "\n" ++ s') = (wordsOf s).join (wordsOf s') := by
  have hends : EndsWords ('\n' :: blankFrom false s'.toList) := by
    rintro c ⟨⟩
    rfl
  have hlist : (s ++ "\n" ++ s').toList = s.toList ++ '\n' :: s'.toList := by simp
  rw [wordsOf, hlist, blankFrom_append_newline, words_append hends, words_of_isBlank rfl]
  rfl

/-- The words of several lines are those of each, one line after the other. -/
theorem wordsOf_intercalate_cons (s : String) (lines : List String) :
    wordsOf ("\n".intercalate (s :: lines)) =
      (wordsOf s).join (wordsOf ("\n".intercalate lines)) := by
  cases lines with
  | nil =>
    rw [String.intercalate_singleton, String.intercalate_nil, wordsOf_empty, Words.join_nil]
  | cons s' lines => rw [String.intercalate_cons_cons, wordsOf_join]

/-! ## Texts without comments -/

theorem ne_semicolon_of_isLexical {t : Token} (h : t.IsLexical) : ';' ∉ t.text.toList := by
  intro hmem
  cases h with
  | number _ _ hdigits => exact absurd (hdigits _ hmem) (by decide)
  | word hword =>
    obtain ⟨c, cs, hcs, hstart, hchars⟩ := hword
    rw [hcs, List.mem_cons] at hmem
    rcases hmem with rfl | hmem
    · exact absurd hstart (by decide)
    · exact absurd (hchars _ hmem) (by decide)
  | punctuation c hc hk =>
    rw [hc, String.toList_ofList, List.mem_singleton] at hmem
    subst hmem
    cases hk

/-- A comment starts with a character that starts no token. -/
theorem semicolon_not_mem_of_lex {offset : Nat} {cs : List Char} {ts : List Token}
    (h : lex offset cs = .ok ts) : ';' ∉ cs := by
  fun_induction lex offset cs generalizing ts with
  | case1 => exact List.not_mem_nil
  | case2 offset c rest hblank ih =>
    rw [List.mem_cons, not_or]
    refine ⟨?_, ih h⟩
    rintro rfl
    exact absurd hblank (by decide)
  | case3 offset c rest hblank hnone => cases h
  | case4 offset c rest hblank kind word hfirst ih =>
    obtain ⟨later, hlater, -⟩ := Except.map_eq_ok_iff.1 h
    have hword := ne_semicolon_of_isLexical (isLexical_of_firstLexeme? hfirst offset)
    obtain ⟨w, tail, rfl, rfl, -⟩ := exists_of_firstLexeme? hfirst
    have htail := ih hlater
    rw [List.length_cons, Nat.add_sub_cancel, List.drop_left] at htail
    rw [String.toList_ofList] at hword
    rw [← List.cons_append, List.mem_append, not_or]
    exact ⟨hword, htail⟩

theorem blankFrom_of_not_mem {cs : List Char} (h : ';' ∉ cs) : blankFrom false cs = cs := by
  induction cs with
  | nil => rfl
  | cons c cs ih =>
    rw [List.mem_cons, not_or] at h
    by_cases hc : c = '\n'
    · rw [blankFrom, if_pos hc, ih h.2]
    · rw [blankFrom, if_neg hc, if_neg (by simpa using Ne.symm h.1), ih h.2]

/-- A text that cuts into tokens has no comment in it. -/
theorem wordsOf_of_tokenize {s : String} {ts : List Token} (h : tokenize s = .ok ts) :
    wordsOf s = .ok (ts.map Token.lexeme) := by
  rw [wordsOf, blankFrom_of_not_mem (semicolon_not_mem_of_lex h), words]
  exact congrArg forgetOffsets h

/-- The tokens of a text are its words. -/
theorem tokenize_of_wordsOf {s : String} {ws : List (TokenKind × String)}
    (h : wordsOf s = .ok ws) :
    ∃ ts, tokenize (blankComments s) = .ok ts ∧ ts.map Token.lexeme = ws := by
  rw [← words_blankComments, words] at h
  rw [tokenize]
  cases hlex : lex 0 (blankComments s).toList with
  | error bad =>
    rw [hlex] at h
    cases h
  | ok ts =>
    rw [hlex] at h
    exact ⟨ts, rfl, Except.ok.inj h⟩

/-! ## Unfinished lines -/

/-- Whether words hold more opening than closing delimiters. -/
def Words.unfinished : Words → Bool
  | .ok ws => ws.countP (·.1 = .closing) < ws.countP (·.1 = .opening)
  | .error _ => false

theorem wordsOf_prepareLine (s : String) : wordsOf (Session.prepareLine s).1 = wordsOf s := by
  rw [← wordsOf_blankComments s, ← wordsOf_trimEnd (blankComments s), Session.prepareLine]
  split <;> rfl

/-- Whether a line goes on depends on its words only. -/
theorem prepareLine_snd (s : String) : (Session.prepareLine s).2 = (wordsOf s).unfinished := by
  have hwords : forgetOffsets (tokenize (Text.trimEnd (blankComments s))) = wordsOf s := by
    rw [tokenize, forgetOffsets_lex, Text.trimEnd, String.toList_ofList, words_dropBlankEnd,
      words_blankComments]
  rw [← hwords, Session.prepareLine]
  cases tokenize (Text.trimEnd (blankComments s)) with
  | error bad => rfl
  | ok ts => simp only [forgetOffsets, Words.unfinished, List.countP_map]; rfl

end DynLisp
