import DynLisp.Proofs.Lexing
import DynLisp.Text.Line

/-!
# Lines, columns and offsets

A text is its lines with newlines between them.  So an offset is a line and how far it goes into the
line, where the place after the last character of a line counts as one of the line: the newline
stands there, or the text ends.  `LinePosition.of` looks for the newlines around an offset and
counts those before it.  That this is the line and column in the sense of the lines themselves is
`LinePosition.of_lineStart`: the lines before take up `lineStart` characters, and the column counts
on from there.

Every offset up to the end of the text is of this form (`exists_lineStart`), and lines do not
overlap (`lineStart_add_length_lt`).  So offsets and places correspond one to one, in the same order
(`LinePosition.of_corresponds`).
-/

namespace DynLisp

/-! ## Lines -/

/-- How many characters stand before the line that comes after the first `n`, each of which ends
with a newline. -/
def lineStart (lines : List (List Char)) (n : Nat) : Nat :=
  (lines.take n).foldr (fun line total => line.length + 1 + total) 0

@[simp] theorem lineStart_zero (lines : List (List Char)) : lineStart lines 0 = 0 := rfl

@[simp] theorem lineStart_cons_succ (line : List Char) (lines : List (List Char)) (n : Nat) :
    lineStart (line :: lines) (n + 1) = line.length + 1 + lineStart lines n := rfl

variable {lines : List (List Char)} {line : List Char} {n m i : Nat}

/-- A line ends before a later one starts. -/
theorem lineStart_add_length_lt (h : lines[n]? = some line) (hlt : n < m) :
    lineStart lines n + line.length < lineStart lines m := by
  induction lines generalizing n m with
  | nil => cases h
  | cons first lines ih =>
    obtain ⟨m, rfl⟩ : ∃ k, m = k + 1 := ⟨m - 1, by omega⟩
    cases n with
    | zero =>
      obtain rfl : first = line := Option.some.inj h
      rw [lineStart_zero, lineStart_cons_succ]
      omega
    | succ n =>
      have hrest := ih h (Nat.lt_of_succ_lt_succ hlt)
      rw [lineStart_cons_succ, lineStart_cons_succ]
      omega

/-- No line holds a newline. -/
theorem newline_not_mem_of_mem_splitOn {cs : List Char} :
    ∀ line ∈ cs.splitOn '\n', '\n' ∉ line := by
  induction cs with
  | nil => simp
  | cons c cs ih =>
    rw [List.splitOn_cons_eq_if_modifyHead]
    by_cases hc : c = '\n'
    · rw [if_pos (by simpa using hc)]
      exact List.forall_mem_cons.2 ⟨List.not_mem_nil, ih⟩
    · rw [if_neg (by simpa using hc)]
      obtain ⟨first, rest, hlines⟩ := List.exists_cons_of_ne_nil (List.splitOn_ne_nil '\n' cs)
      rw [hlines] at ih ⊢
      obtain ⟨hfirst, hrest⟩ := List.forall_mem_cons.1 ih
      exact List.forall_mem_cons.2 ⟨by simp [Ne.symm hc, hfirst], hrest⟩

/-! ## Texts around a line -/

/-- What stands before a line ends with a newline, what stands after it starts with one, and before
it are all the earlier lines with their newlines. -/
theorem exists_around (hlines : ∀ line ∈ lines, '\n' ∉ line) (h : lines[n]? = some line) :
    ∃ before after, ['\n'].intercalate lines = before ++ line ++ after ∧
      (∀ c ∈ before.getLast?, c = '\n') ∧ (∀ c ∈ after.head?, c = '\n') ∧
      before.length = lineStart lines n ∧ before.count '\n' = n := by
  induction lines generalizing n with
  | nil => cases h
  | cons first lines ih =>
    obtain ⟨hfirst, hrest⟩ := List.forall_mem_cons.1 hlines
    cases n with
    | zero =>
      obtain rfl : first = line := Option.some.inj h
      by_cases hnil : lines = []
      · subst hnil
        exact ⟨[], [], by simp, by simp, by simp, rfl, rfl⟩
      · refine ⟨[], '\n' :: ['\n'].intercalate lines, ?_, by simp, by simp, rfl, rfl⟩
        rw [List.intercalate_cons_of_ne_nil hnil]
        simp
    | succ n =>
      have hne : lines ≠ [] := by
        rintro rfl
        cases h
      obtain ⟨before, after, htext, hbefore, hafter, hlength, hcount⟩ := ih hrest h
      refine ⟨first ++ '\n' :: before, after, ?_, ?_, hafter, ?_, ?_⟩
      · rw [List.intercalate_cons_of_ne_nil hne, htext]
        simp
      · rcases List.eq_nil_or_concat before with rfl | ⟨before, last, rfl⟩
        · simp
        · have hlast : last = '\n' := hbefore last (by simp)
          have hlist : first ++ '\n' :: before.concat last = first ++ '\n' :: before ++ [last] := by
            simp
          rw [hlist, List.getLast?_concat, hlast]
          simp
      · rw [List.length_append, List.length_cons, hlength, lineStart_cons_succ]
        omega
      · rw [List.count_append, List.count_cons_self, hcount, List.count_eq_zero_of_not_mem hfirst]
        omega

/-- Every offset of a text lies on one of its lines, or just after it. -/
theorem exists_lineStart (hne : lines ≠ []) {offset : Nat}
    (h : offset ≤ (['\n'].intercalate lines).length) :
    ∃ n line i, lines[n]? = some line ∧ i ≤ line.length ∧ offset = lineStart lines n + i := by
  induction lines generalizing offset with
  | nil => exact absurd rfl hne
  | cons first lines ih =>
    by_cases hle : offset ≤ first.length
    · exact ⟨0, first, offset, rfl, hle, by simp⟩
    · by_cases hnil : lines = []
      · subst hnil
        rw [List.intercalate_singleton] at h
        omega
      · rw [List.intercalate_cons_of_ne_nil hnil, List.length_append, List.length_append,
          List.length_singleton] at h
        have hlater : offset - (first.length + 1) ≤ (['\n'].intercalate lines).length := by omega
        obtain ⟨n, line, i, hline, hi, hoffset⟩ := ih hnil hlater
        refine ⟨n + 1, line, i, hline, hi, ?_⟩
        rw [lineStart_cons_succ]
        omega

theorem bne_newline_of_not_mem {cs : List Char} (h : '\n' ∉ cs) : ∀ c ∈ cs, (c != '\n') = true := by
  intro c hc
  rw [bne_iff_ne]
  rintro rfl
  exact h hc

namespace LinePosition

/-- The place of an offset is found from the newlines next to it on both sides. -/
theorem of_append {source : String} {before after : List Char}
    (hsource : source.toList = before ++ line ++ after) (hline : '\n' ∉ line)
    (hbefore : ∀ c ∈ before.getLast?, c = '\n') (hafter : ∀ c ∈ after.head?, c = '\n')
    (hi : i ≤ line.length) :
    LinePosition.of source (before.length + i) =
      ⟨String.ofList line, before.count '\n' + 1, i + 1⟩ := by
  have hletters := bne_newline_of_not_mem hline
  have htake : source.toList.take (before.length + i) = before ++ line.take i := by
    rw [hsource, List.append_assoc, List.take_length_add_append, List.take_append_of_le_length hi]
  have hdrop : source.toList.drop (before.length + i) = line.drop i ++ after := by
    rw [hsource, List.append_assoc, List.drop_length_add_append, List.drop_append_of_le_length hi]
  have hlead : (before ++ line.take i).reverse.takeWhile (· != '\n') = (line.take i).reverse := by
    rw [List.reverse_append]
    refine takeWhile_append_of_ends (fun c hc => ?_) fun c hc => ?_
    · exact hletters c (List.mem_of_mem_take (List.mem_reverse.1 hc))
    · rw [List.head?_reverse] at hc
      simp [hbefore c hc]
  have hrest : (line.drop i ++ after).takeWhile (· != '\n') = line.drop i := by
    refine takeWhile_append_of_ends (fun c hc => hletters c (List.mem_of_mem_drop hc)) ?_
    intro c hc
    simp [hafter c hc]
  have hcount : (line.take i).count '\n' = 0 :=
    List.count_eq_zero_of_not_mem fun hmem => hline (List.mem_of_mem_take hmem)
  have hcolumn : before.length + i - (before.length + i - i) + 1 = i + 1 := by omega
  unfold LinePosition.of
  simp only [htake, hdrop, hlead, hrest, List.reverse_reverse, List.take_append_drop,
    List.count_append, hcount, List.length_append, List.length_take, Nat.min_eq_left hi, hcolumn,
    Nat.add_zero]

/-- The places on a line. -/
theorem of_lineStart {source : String} (h : (source.toList.splitOn '\n')[n]? = some line)
    (hi : i ≤ line.length) :
    LinePosition.of source (lineStart (source.toList.splitOn '\n') n + i) =
      ⟨String.ofList line, n + 1, i + 1⟩ := by
  obtain ⟨before, after, htext, hbefore, hafter, hlength, hcount⟩ :=
    exists_around newline_not_mem_of_mem_splitOn h
  rw [List.intercalate_splitOn] at htext
  have hline := newline_not_mem_of_mem_splitOn line (List.mem_of_getElem? h)
  rw [← hlength, of_append htext hline hbefore hafter hi, hcount]

/-- The line and the column that an offset lies at. -/
theorem exists_place {source : String} {offset : Nat} (h : offset ≤ source.length) :
    ∃ n line i, (source.toList.splitOn '\n')[n]? = some line ∧ i ≤ line.length ∧
      offset = lineStart (source.toList.splitOn '\n') n + i ∧
      LinePosition.of source offset = ⟨String.ofList line, n + 1, i + 1⟩ := by
  have hlength : offset ≤ (['\n'].intercalate (source.toList.splitOn '\n')).length := by
    rwa [List.intercalate_splitOn, String.length_toList]
  obtain ⟨n, line, i, hline, hi, rfl⟩ := exists_lineStart (List.splitOn_ne_nil _ _) hlength
  exact ⟨n, line, i, hline, hi, rfl, of_lineStart hline hi⟩

/-- One place comes before another in the order of reading: it lies on an earlier line, or further
left on the same line. -/
def Before (p q : LinePosition) : Prop :=
  p.number < q.number ∨ p.number = q.number ∧ p.column < q.column

instance (p q : LinePosition) : Decidable (p.Before q) :=
  inferInstanceAs (Decidable (_ ∨ _))

theorem Before.irrefl (p : LinePosition) : ¬ p.Before p := by
  unfold Before
  omega

/-- Later offsets lie at later places. -/
theorem before_of_lt {source : String} {offset offset' : Nat} (hlt : offset < offset')
    (h : offset' ≤ source.length) :
    (LinePosition.of source offset).Before (LinePosition.of source offset') := by
  obtain ⟨n, line, i, hline, hi, rfl, hplace⟩ := exists_place (hlt.le.trans h)
  obtain ⟨m, line', j, hline', hj, rfl, hplace'⟩ := exists_place h
  rw [hplace, hplace']
  show n + 1 < m + 1 ∨ n + 1 = m + 1 ∧ i + 1 < j + 1
  rcases Nat.lt_trichotomy n m with hnm | rfl | hmn
  · omega
  · omega
  · have hbefore := lineStart_add_length_lt hline' hmn
    omega

theorem before_iff {source : String} {offset offset' : Nat} (h : offset ≤ source.length)
    (h' : offset' ≤ source.length) :
    (LinePosition.of source offset).Before (LinePosition.of source offset') ↔ offset < offset' := by
  refine ⟨fun hbefore => ?_, fun hlt => before_of_lt hlt h'⟩
  by_contra hge
  rcases Nat.eq_or_lt_of_le (Nat.not_lt.1 hge) with rfl | hlt
  · exact Before.irrefl _ hbefore
  · have hafter := before_of_lt hlt h
    unfold Before at hbefore hafter
    omega

/-- **Offsets and places correspond one to one.**  The place of an offset up to the end of a text
has the number of one of its lines, this line, and a column that lies on the line or just after it;
the offset is what the lines before take up with their newlines, and the columns before.  Of two
offsets the smaller one has the earlier place, so different offsets have different places.  And
every column of every line, together with the one just after the line, is that of an offset. -/
theorem of_corresponds (source : String) :
    let lines := source.toList.splitOn '\n'
    (∀ offset ≤ source.length, let p := LinePosition.of source offset
      1 ≤ p.number ∧ p.number ≤ lines.length ∧ lines[p.number - 1]? = some p.line.toList ∧
        1 ≤ p.column ∧ p.column ≤ p.line.length + 1 ∧
        offset = lineStart lines (p.number - 1) + (p.column - 1)) ∧
    (∀ offset ≤ source.length, ∀ offset' ≤ source.length,
      let p := LinePosition.of source offset
      let p' := LinePosition.of source offset'
      (offset < offset' ↔ p.Before p') ∧
        (p.number = p'.number → p.column = p'.column → offset = offset')) ∧
    ∀ n line column, lines[n]? = some line → 1 ≤ column → column ≤ line.length + 1 →
      ∃ offset ≤ source.length,
        LinePosition.of source offset = ⟨String.ofList line, n + 1, column⟩ := by
  intro lines
  refine ⟨fun offset h => ?_, fun offset h offset' h' => ⟨(before_iff h h').symm, ?_⟩,
    fun n line column hline hpos hcolumn => ?_⟩
  · obtain ⟨n, line, i, hline, hi, hoffset, hplace⟩ := exists_place h
    obtain ⟨hn, -⟩ := List.getElem?_eq_some_iff.1 hline
    rw [hplace]
    refine ⟨Nat.succ_pos n, hn, ?_, Nat.succ_pos i, ?_, hoffset⟩
    · rw [String.toList_ofList]
      exact hline
    · rw [String.length_ofList]
      exact Nat.succ_le_succ hi
  · intro hnumber hcolumn
    rcases Nat.lt_trichotomy offset offset' with hlt | heq | hgt
    · have hbefore := before_of_lt hlt h'
      unfold Before at hbefore
      omega
    · exact heq
    · have hbefore := before_of_lt hgt h
      unfold Before at hbefore
      omega
  · obtain ⟨i, rfl⟩ : ∃ i, column = i + 1 := ⟨column - 1, by omega⟩
    refine ⟨lineStart lines n + i, ?_, of_lineStart hline (by omega)⟩
    obtain ⟨before, after, htext, -, -, hlength, -⟩ :=
      exists_around newline_not_mem_of_mem_splitOn hline
    rw [List.intercalate_splitOn] at htext
    rw [← hlength, ← String.length_toList, htext, List.length_append, List.length_append]
    omega

/-- The newline at the end of a line, an empty line, and the end of the text. -/
theorem of_corresponds_newlines :
    let source := "ab\n\nc"
    2 ≤ source.length ∧ LinePosition.of source 2 = ⟨"ab", 1, 3⟩ ∧
      2 = lineStart (source.toList.splitOn '\n') 0 + 2 ∧
      LinePosition.of source 3 = ⟨"", 2, 1⟩ ∧ LinePosition.of source 5 = ⟨"c", 3, 2⟩ ∧
      (LinePosition.of source 2).Before (LinePosition.of source 3) ∧
      ∃ offset ≤ source.length, LinePosition.of source offset = ⟨"c", 3, 1⟩ := by
  intro source
  have hnewline : LinePosition.of source 2 = ⟨"ab", 1, 3⟩ := by decide +kernel
  obtain ⟨hplaces, horder, honto⟩ := of_corresponds source
  obtain ⟨-, -, -, -, -, hoffset⟩ := hplaces 2 (by decide)
  rw [hnewline] at hoffset
  exact ⟨by decide, hnewline, hoffset, by decide +kernel, by decide +kernel,
    (horder 2 (by decide) 3 (by decide)).1.1 (by decide),
    honto 2 ['c'] 1 (by decide) (Nat.le_refl 1) (by decide)⟩

end LinePosition

end DynLisp
