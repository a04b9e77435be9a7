import DynLisp.Proofs.Lexing.Words
import Mathlib.Data.Nat.Basic

/-!
# Which characters are blanked

A character lies in a comment if a semicolon stands at its offset or before and no newline from
there on (`InComment`).  These characters are blanked and no others, and nothing moves:
`getElem?_blankComments` gives each character of a blanked text by its offset.

Reading from the left is only one way of finding the comments.  Line by line there is a comment from
the first semicolon of a line to the end of the line, if it has one, and a text is blanked as its
lines are (`blankFrom_eq_intercalate`).

Tokens hold no blanks, and a character that starts no token is none.  So whatever is found in a
blanked text stands at the same offset in the text itself.
-/

namespace DynLisp

/-! ## Offsets in comments -/

/-- A semicolon stands at an offset or before it, and no newline from the semicolon up to it. -/
def InComment (cs : List Char) (i : Nat) : Prop :=
  ∃ j ≤ i, cs[j]? = some ';' ∧ ∀ k, j ≤ k → k ≤ i → cs[k]? ≠ some '\n'

instance (cs : List Char) (i : Nat) : Decidable (InComment cs i) :=
  inferInstanceAs (Decidable (∃ j ≤ i, cs[j]? = some ';' ∧ ∀ k, j ≤ k → k ≤ i → cs[k]? ≠ some '\n'))

/-- As `InComment`, in a text that may stand inside a comment itself. -/
def InCommentFrom (inside : Bool) (cs : List Char) (i : Nat) : Prop :=
  (inside = true ∧ ∀ k ≤ i, cs[k]? ≠ some '\n') ∨ InComment cs i

instance (inside : Bool) (cs : List Char) (i : Nat) : Decidable (InCommentFrom inside cs i) :=
  inferInstanceAs (Decidable (_ ∨ _))

variable {c : Char} {cs : List Char} {inside : Bool} {i : Nat}

theorem inCommentFrom_false : InCommentFrom false cs i ↔ InComment cs i := by
  simp [InCommentFrom]

theorem InComment.ne_newline (h : InComment cs i) : cs[i]? ≠ some '\n' := by
  obtain ⟨j, hj, -, hno⟩ := h
  exact hno i hj (Nat.le_refl i)

theorem forall_le_cons :
    (∀ k ≤ i + 1, (c :: cs)[k]? ≠ some '\n') ↔ c ≠ '\n' ∧ ∀ k ≤ i, cs[k]? ≠ some '\n' := by
  constructor
  · intro h
    refine ⟨?_, fun k hk => h (k + 1) (by omega)⟩
    rintro rfl
    exact h 0 (Nat.zero_le _) rfl
  · rintro ⟨hc, hcs⟩ (_ | k) hk
    · simpa using hc
    · exact hcs k (by omega)

theorem inComment_cons_zero : InComment (c :: cs) 0 ↔ c = ';' := by
  constructor
  · rintro ⟨j, hj, hsemi, -⟩
    obtain rfl := Nat.le_zero.1 hj
    exact Option.some.inj hsemi
  · rintro rfl
    refine ⟨0, Nat.le_refl 0, rfl, fun k _ hk => ?_⟩
    obtain rfl := Nat.le_zero.1 hk
    simp

theorem inComment_cons_succ :
    InComment (c :: cs) (i + 1) ↔ (c = ';' ∧ ∀ k ≤ i, cs[k]? ≠ some '\n') ∨ InComment cs i := by
  constructor
  · rintro ⟨_ | j, hj, hsemi, hno⟩
    · exact .inl ⟨Option.some.inj hsemi, fun k hk => hno (k + 1) (Nat.zero_le _) (by omega)⟩
    · exact .inr ⟨j, by omega, hsemi, fun k hjk hk => hno (k + 1) (by omega) (by omega)⟩
  · rintro (⟨rfl, hno⟩ | ⟨j, hj, hsemi, hno⟩)
    · exact ⟨0, Nat.zero_le _, rfl, fun k _ => forall_le_cons.2 ⟨by decide, hno⟩ k⟩
    · refine ⟨j + 1, by omega, hsemi, fun k hjk hk => ?_⟩
      obtain ⟨k, rfl⟩ : ∃ k', k = k' + 1 := ⟨k - 1, by omega⟩
      exact hno k (by omega) (by omega)

/-- Whether a text stands inside a comment after a character. -/
def commentGoesOn (inside : Bool) (c : Char) : Bool := c ≠ '\n' && (inside || c = ';')

theorem blankFrom_cons :
    blankFrom inside (c :: cs) =
      (if commentGoesOn inside c then ' ' else c) :: blankFrom (commentGoesOn inside c) cs := by
  rw [blankFrom, commentGoesOn]
  by_cases hnewline : c = '\n'
  · simp [hnewline]
  · cases (inside || decide (c = ';')) <;> simp [hnewline]

theorem commentGoesOn_iff :
    commentGoesOn inside c = true ↔ c ≠ '\n' ∧ (inside = true ∨ c = ';') := by
  simp [commentGoesOn]

theorem ne_newline_of_semicolon (h : c = ';') : c ≠ '\n' := by
  subst h
  decide

theorem inCommentFrom_cons_zero :
    InCommentFrom inside (c :: cs) 0 ↔ commentGoesOn inside c = true := by
  have hzero : (∀ k ≤ 0, (c :: cs)[k]? ≠ some '\n') ↔ c ≠ '\n' := by simp
  rw [InCommentFrom, inComment_cons_zero, commentGoesOn_iff, hzero]
  constructor
  · rintro (⟨hinside, hc⟩ | hc)
    · exact ⟨hc, .inl hinside⟩
    · exact ⟨ne_newline_of_semicolon hc, .inr hc⟩
  · rintro ⟨hc, hinside | hsemi⟩
    · exact .inl ⟨hinside, hc⟩
    · exact .inr hsemi

theorem inCommentFrom_cons_succ :
    InCommentFrom inside (c :: cs) (i + 1) ↔ InCommentFrom (commentGoesOn inside c) cs i := by
  rw [InCommentFrom, InCommentFrom, inComment_cons_succ, forall_le_cons, commentGoesOn_iff]
  constructor
  · rintro (⟨hinside, hc, hno⟩ | ⟨hc, hno⟩ | hcomment)
    · exact .inl ⟨⟨hc, .inl hinside⟩, hno⟩
    · exact .inl ⟨⟨ne_newline_of_semicolon hc, .inr hc⟩, hno⟩
    · exact .inr hcomment
  · rintro (⟨⟨hc, hinside | hsemi⟩, hno⟩ | hcomment)
    · exact .inl ⟨hinside, hc, hno⟩
    · exact .inr (.inl ⟨hsemi, hno⟩)
    · exact .inr (.inr hcomment)

/-- The character at an offset of a text that is blanked from the left. -/
theorem getElem?_blankFrom (inside : Bool) (cs : List Char) (i : Nat) :
    (blankFrom inside cs)[i]? =
      cs[i]?.map fun c => if InCommentFrom inside cs i then ' ' else c := by
  induction cs generalizing inside i with
  | nil => rfl
  | cons c cs ih =>
    rw [blankFrom_cons]
    cases i with
    | zero => simp only [List.getElem?_cons_zero, Option.map_some, inCommentFrom_cons_zero]
    | succ i => simp only [List.getElem?_cons_succ, ih, inCommentFrom_cons_succ]

/-! ## Blanked texts -/

theorem length_blankFrom (inside : Bool) (cs : List Char) :
    (blankFrom inside cs).length = cs.length := by
  induction cs generalizing inside with
  | nil => rfl
  | cons c cs ih => rw [blankFrom_cons, List.length_cons, ih, List.length_cons]

theorem toList_blankComments (s : String) :
    (blankComments s).toList = blankFrom false s.toList := by
  rw [blankComments, String.toList_ofList]

theorem length_blankComments (s : String) : (blankComments s).length = s.length := by
  rw [← String.length_toList, toList_blankComments, length_blankFrom, String.length_toList]

/-- The character at an offset of a text whose comments are blanked. -/
theorem getElem?_blankComments (s : String) (i : Nat) :
    (blankComments s).toList[i]? =
      s.toList[i]?.map fun c => if InComment s.toList i then ' ' else c := by
  rw [toList_blankComments, getElem?_blankFrom]
  simp only [inCommentFrom_false]

/-- What is no blank was there before. -/
theorem getElem?_of_blankComments {s : String} {i : Nat} {c : Char} (hc : isBlank c = false)
    (h : (blankComments s).toList[i]? = some c) : s.toList[i]? = some c := by
  rw [getElem?_blankComments, Option.map_eq_some_iff] at h
  obtain ⟨d, hd, h⟩ := h
  split at h
  · subst h
    cases hc
  · rw [hd, h]

/-- Newlines are kept, and none is added. -/
theorem newline_blankComments (s : String) (i : Nat) :
    (blankComments s).toList[i]? = some '\n' ↔ s.toList[i]? = some '\n' := by
  rw [getElem?_blankComments, Option.map_eq_some_iff]
  constructor
  · rintro ⟨c, hc, h⟩
    split at h
    · cases h
    · rw [hc, h]
  · intro h
    refine ⟨'\n', h, if_neg fun hcomment => hcomment.ne_newline h⟩

/-- Two texts with a newline between them are blanked each by itself. -/
theorem blankComments_join (s s' : String) :
    blankComments (s ++ "\n" ++ s') = blankComments s ++ "\n" ++ blankComments s' := by
  have hjoin : (s ++ "\n" ++ s').toList = s.toList ++ '\n' :: s'.toList := by simp
  rw [← String.toList_inj, toList_blankComments, hjoin, blankFrom_append_newline]
  simp [toList_blankComments]

theorem blankComments_blankComments (s : String) :
    blankComments (blankComments s) = blankComments s := by
  rw [← String.toList_inj, toList_blankComments, toList_blankComments, blankFrom_blankFrom]

theorem blankComments_of_not_mem {s : String} (h : ';' ∉ s.toList) : blankComments s = s := by
  rw [← String.toList_inj, toList_blankComments, blankFrom_of_not_mem h]

/-! ## Line by line -/

/-- A line with its comment blanked, which goes from the first semicolon to the end of the line. -/
def blankLine (line : List Char) : List Char :=
  let code := line.takeWhile (· ≠ ';')
  code ++ List.replicate (line.length - code.length) ' '

theorem blankFrom_true_of_line {line : List Char} (h : '\n' ∉ line) :
    blankFrom true line = List.replicate line.length ' ' := by
  induction line with
  | nil => rfl
  | cons c line ih =>
    rw [List.mem_cons, not_or] at h
    rw [blankFrom, if_neg (Ne.symm h.1), if_pos (by simp), ih h.2, List.length_cons,
      List.replicate_succ]

theorem blankFrom_false_of_line {line : List Char} (h : '\n' ∉ line) :
    blankFrom false line = blankLine line := by
  induction line with
  | nil => rfl
  | cons c line ih =>
    rw [List.mem_cons, not_or] at h
    rw [blankFrom, if_neg (Ne.symm h.1)]
    by_cases hc : c = ';'
    · rw [if_pos (by simpa using hc), blankFrom_true_of_line h.2]
      simp [blankLine, hc, List.replicate_succ]
    · rw [if_neg (by simpa using hc), ih h.2]
      simp [blankLine, hc]

/-- A text is blanked line by line. -/
theorem blankFrom_eq_intercalate (cs : List Char) :
    blankFrom false cs = ['\n'].intercalate ((cs.splitOn '\n').map blankLine) := by
  -- on the number of characters, since what goes on after a line is no part of the list's own tail
  induction hn : cs.length using Nat.strongRecOn generalizing cs with
  | ind n ih =>
    by_cases hmem : '\n' ∈ cs
    · obtain ⟨line, rest, rfl, hline⟩ := List.eq_append_cons_of_mem hmem
      have hrest : rest.length < n := by
        rw [← hn, List.length_append, List.length_cons]
        omega
      have hne : (rest.splitOn '\n').map blankLine ≠ [] := by
        rw [Ne, List.map_eq_nil_iff]
        exact List.splitOn_ne_nil '\n' rest
      rw [blankFrom_append_newline, blankFrom_false_of_line hline, ih _ hrest rest rfl,
        List.splitOn_append_cons_self_of_not_mem hline, List.map_cons,
        List.intercalate_cons_of_ne_nil hne, List.append_assoc, List.singleton_append]
    · rw [List.splitOn_eq_singleton hmem, blankFrom_false_of_line hmem, List.map_singleton,
        List.intercalate_singleton]

/-! ## What is found in a blanked text -/

theorem Token.IsLexical.not_isBlank {t : Token} (h : t.IsLexical) :
    ∀ c ∈ t.text.toList, isBlank c = false := by
  intro c hc
  by_contra hblank
  rw [Bool.not_eq_false] at hblank
  have hword := isWordChar_of_isBlank hblank
  cases h with
  | number _ _ hdigits =>
    rw [isWordChar_of_isDigit (hdigits c hc)] at hword
    cases hword
  | word hspelled =>
    obtain ⟨d, cs, hcs, hstart, hchars⟩ := hspelled
    rw [hcs, List.mem_cons] at hc
    rcases hc with rfl | hc
    · rw [isWordChar_of_isWordStart hstart] at hword
      cases hword
    · rw [hchars c hc] at hword
      cases hword
  | punctuation d hd hk =>
    rw [hd, String.toList_ofList, List.mem_singleton] at hc
    subst hc
    have hnone := firstLexeme?_of_isBlank hblank []
    rw [firstLexeme?_of_punctuation hk] at hnone
    cases hnone

/-- Characters without a blank among them were there before, at the same offset. -/
theorem take_drop_of_blankComments {s : String} {word : List Char} {offset : Nat}
    (hword : ∀ c ∈ word, isBlank c = false)
    (h : ((blankComments s).toList.drop offset).take word.length = word) :
    (s.toList.drop offset).take word.length = word := by
  refine List.ext_getElem? fun k : Nat => ?_
  rcases Nat.lt_or_ge k word.length with hk | hk
  · have hblanked := congrArg (fun cs : List Char => cs[k]?) h
    simp only [List.getElem?_take, if_pos hk, List.getElem?_drop, List.getElem?_eq_getElem hk]
      at hblanked ⊢
    exact getElem?_of_blankComments (hword _ (List.getElem_mem hk)) hblanked
  · rw [List.getElem?_eq_none hk, List.getElem?_take, if_neg (Nat.not_lt.2 hk)]

/-- A token of the blanked text stands in the text itself. -/
theorem Token.CutFrom.standsAt_of_blankComments {s : String} {t : Token}
    (h : t.CutFrom (blankComments s).toList) :
    (s.toList.drop t.offset).take t.text.length = t.text.toList := by
  have hstands := h.standsAt
  rw [← String.length_toList] at hstands ⊢
  exact take_drop_of_blankComments h.isLexical.not_isBlank hstands

/-- **Blanking takes the comments away and moves nothing.**  A text keeps its length when it is
blanked.  A character gives way to a blank if a semicolon stands at its offset or before and no
newline from there on, and stays otherwise; in each line, this is what the first semicolon starts.
So the newlines are those of the text, nothing is left to be blanked again, a text without a
semicolon stays as it is, and a newline parts a text in two that are blanked each by itself.  Every
token of the blanked text, and the character that starts none, stands at its offset in the text. -/
theorem blankComments_exact (s : String) :
    (blankComments s).length = s.length ∧
      (∀ i : Nat, (blankComments s).toList[i]? =
        s.toList[i]?.map fun c => if InComment s.toList i then ' ' else c) ∧
      (blankComments s).toList = ['\n'].intercalate ((s.toList.splitOn '\n').map blankLine) ∧
      (∀ i : Nat, (blankComments s).toList[i]? = some '\n' ↔ s.toList[i]? = some '\n') ∧
      blankComments (blankComments s) = blankComments s ∧
      (';' ∉ s.toList → blankComments s = s) ∧
      (∀ s', blankComments (s ++ "\n" ++ s') = blankComments s ++ "\n" ++ blankComments s') ∧
      (∀ ts, tokenize (blankComments s) = .ok ts →
        ∀ t ∈ ts, (s.toList.drop t.offset).take t.text.length = t.text.toList) ∧
      ∀ bad, tokenize (blankComments s) = .error bad →
        s.toList[bad.offset]? = some bad.char ∧
          ∃ ts, Cut (blankComments s).toList 0 bad.offset ts ∧
            ∀ t ∈ ts, (s.toList.drop t.offset).take t.text.length = t.text.toList := by
  refine ⟨length_blankComments s, getElem?_blankComments s, ?_, newline_blankComments s,
    blankComments_blankComments s, blankComments_of_not_mem, blankComments_join s,
    fun ts hts t ht => ?_, fun bad hbad => ?_⟩
  · rw [toList_blankComments, blankFrom_eq_intercalate]
  · exact ((cut_of_tokenize hts).cutFrom t ht).standsAt_of_blankComments
  · have hstuck := stuck_of_tokenize hbad
    obtain ⟨ts, hts⟩ := hstuck.cut
    exact ⟨getElem?_of_blankComments hstuck.startsNothing.notBlank hstuck.char, ts, hts,
      fun t ht => (hts.cutFrom t ht).standsAt_of_blankComments⟩

/-- A carriage return ends no comment, and a second semicolon starts none; the token and the
character after the comment stand where they stood. -/
theorem blankComments_exact_carriageReturn :
    let s := "a;b\r;c\n)#"
    blankComments s = "a     \n)#" ∧ InComment s.toList 3 ∧ ¬ InComment s.toList 6 ∧
      tokenize (blankComments s) = .error ⟨'#', 8⟩ ∧ s.toList[8]? = some '#' ∧
      (∃ t, tokenize (blankComments ";[\n f") = .ok [t] ∧
        (";[\n f".toList.drop t.offset).take t.text.length = t.text.toList) ∧
      blankComments "[ f]" = "[ f]" := by
  intro s
  have hstuck : tokenize (blankComments s) = .error ⟨'#', 8⟩ := by decide +kernel
  have htokens : tokenize (blankComments ";[\n f") = .ok [⟨.identifier, "f", 4⟩] := by
    decide +kernel
  obtain ⟨-, -, -, -, -, -, -, -, hillegal⟩ := blankComments_exact s
  obtain ⟨-, -, -, -, -, -, -, hstands, -⟩ := blankComments_exact ";[\n f"
  obtain ⟨-, -, -, -, -, hsame, -⟩ := blankComments_exact "[ f]"
  exact ⟨by decide +kernel, by decide +kernel, by decide +kernel, hstuck, (hillegal _ hstuck).1,
    ⟨_, htokens, hstands _ htokens _ (List.mem_singleton_self _)⟩, hsame (by decide +kernel)⟩

end DynLisp
