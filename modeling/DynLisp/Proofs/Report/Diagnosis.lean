import DynLisp.Proofs.Report.Position
import DynLisp.Proofs.Session.Locations
import DynLisp.Report

/-!
# What a diagnosis shows

A diagnosis is two lines, the line of the text that an offset lies on and a row of marks below it
(`diagnosis_lines`).  What counts as underlined is read off these two lines again, as the characters
that have a mark below them (`underlinedPart`), and not off the numbers that they are made with.  It
is the rest of the line from the offset on, cut off where the marks end (`underlinedPart_eq`).  How
many marks there are is what the clamped end of the underline leaves (`underlineWidth_eq`).

A word that stands in a text, and has no newline in it, is underlined from its first character to
its last (`underlinedPart_of_word`).  So is every token, and the character that starts none.  What
is left to say is that the failures of a text are located at such words.  They are, apart from those
that lie at a sign and the number after it, at the end of the text, or at a function that is defined
again, which is located from the start of its definition on (`Failure.PointsInto`).
-/

namespace DynLisp

open DynLisp.Action

/-! ## Marks under a line -/

/-- A row of `width` marks, `start` characters in. -/
def markRow (start width : Nat) : List Char :=
  List.replicate start ' ' ++ '^' :: List.replicate (width - 1) '~'

/-- The characters of a line that have a mark below them. -/
def aboveMarks : List Char → List Char → List Char
  | c :: line, mark :: row =>
    if mark = '^' ∨ mark = '~' then c :: aboveMarks line row else aboveMarks line row
  | _, _ => []

/-- The part of a text that a diagnosis underlines. -/
def underlinedPart (source : String) (start : Nat) (stop : Int) : List Char :=
  match (diagnosis .plain source start stop).toList.splitOn '\n' with
  | [shown, row] => aboveMarks shown row
  | _ => []

variable {line row word : List Char} {start first width : Nat} {stop : Int} {source : String}

@[simp] theorem aboveMarks_nil_left (row : List Char) : aboveMarks [] row = [] := by
  rw [aboveMarks]
  rintro _ _ _ _ ⟨⟩

@[simp] theorem aboveMarks_nil_right (line : List Char) : aboveMarks line [] = [] := by
  rw [aboveMarks]
  rintro _ _ _ _ _ ⟨⟩

theorem aboveMarks_blanks (n : Nat) (line row : List Char) :
    aboveMarks line (List.replicate n ' ' ++ row) = aboveMarks (line.drop n) row := by
  induction n generalizing line with
  | zero => rfl
  | succ n ih =>
    cases line with
    | nil => simp
    | cons c line =>
      rw [List.replicate_succ, List.cons_append, aboveMarks, if_neg (by decide), ih,
        List.drop_succ_cons]

theorem aboveMarks_marks (hrow : ∀ mark ∈ row, mark = '^' ∨ mark = '~') (line : List Char) :
    aboveMarks line row = line.take row.length := by
  induction row generalizing line with
  | nil => simp
  | cons mark row ih =>
    obtain ⟨hmark, hrow⟩ := List.forall_mem_cons.1 hrow
    cases line with
    | nil => simp
    | cons c line => rw [aboveMarks, if_pos hmark, ih hrow, List.length_cons, List.take_succ_cons]

theorem aboveMarks_markRow (hwidth : 1 ≤ width) (line : List Char) (start : Nat) :
    aboveMarks line (markRow start width) = (line.drop start).take width := by
  have hlength : ('^' :: List.replicate (width - 1) '~').length = width := by
    rw [List.length_cons, List.length_replicate]
    omega
  rw [markRow, aboveMarks_blanks, aboveMarks_marks (by simp), hlength]

/-- The two lines that are written: nothing of the line is lost where the underlined part is put
together with what stands before and after it. -/
theorem underlined_lines (hline : '\n' ∉ line) {first last : Nat} (hle : first ≤ last) :
    (underlined .plain line first last).toList.splitOn '\n' =
      [' ' :: ' ' :: line, ' ' :: ' ' :: markRow first (last - first)] := by
  have hparts : ∀ rest, line.take first ++ ((line.drop first).take (last - first) ++
      (line.drop last ++ rest)) = line ++ rest := by
    intro rest
    have hlast : line.drop last = (line.drop first).drop (last - first) := by
      rw [List.drop_drop, Nat.add_sub_cancel' hle]
    rw [hlast, ← List.append_assoc (List.take _ (line.drop first)), List.take_append_drop,
      ← List.append_assoc, List.take_append_drop]
  have hblanks : "  ".toList = [' ', ' '] := by decide
  have hnewline : "\n".toList = ['\n'] := by decide
  have htext : (underlined .plain line first last).toList =
      (' ' :: ' ' :: line) ++ '\n' :: ' ' :: ' ' :: markRow first (last - first) := by
    simp only [underlined, Style.plain, markRow, String.toList_append, String.toList_ofList,
      hblanks, hnewline, List.append_assoc, List.cons_append, List.nil_append, hparts]
  rw [htext, List.splitOn_append_cons_self_of_not_mem (by simpa using hline),
    List.splitOn_eq_singleton (by simp [markRow])]

/-! ## The width -/

/-- How many characters wide an underline is that begins `first` characters into a line. -/
def underlineWidth (start : Nat) (stop : Int) (lineLength first : Nat) : Nat :=
  (underlineEnd start stop lineLength first).toNat - first

/-- An underline ends behind its beginning. -/
theorem lt_underlineEnd (start : Nat) (stop : Int) (lineLength first : Nat) :
    first < underlineEnd start stop lineLength first := by
  unfold underlineEnd
  omega

theorem one_le_underlineWidth (start : Nat) (stop : Int) (lineLength first : Nat) :
    1 ≤ underlineWidth start stop lineLength first := by
  have hlt := lt_underlineEnd start stop lineLength first
  unfold underlineWidth
  omega

/-- An underline is as wide as the part, but not wider than the rest of the line, and not empty. -/
theorem underlineWidth_eq (start : Nat) (stop : Int) {lineLength first : Nat}
    (hle : first ≤ lineLength) :
    (underlineWidth start stop lineLength first : Int) =
      min (max (stop - start) 1) (max (lineLength - first) 1) := by
  unfold underlineWidth underlineEnd
  omega

/-- An offset is that of a character of a part of a text, and on the line that the part starts
on. -/
def OnFirstLine (source : String) (start : Nat) (stop : Int) (offset : Nat) : Prop :=
  let p := LinePosition.of source start
  let first := lineStart (source.toList.splitOn '\n') (p.number - 1)
  start ≤ offset ∧ offset < stop ∧ first ≤ offset ∧ offset < first + p.line.length

instance (source : String) (start : Nat) (stop : Int) (offset : Nat) :
    Decidable (OnFirstLine source start stop offset) :=
  inferInstanceAs (Decidable (_ ∧ _ ∧ _ ∧ _))

/-! ## Diagnoses -/

theorem LinePosition.newline_not_mem_line (h : start ≤ source.length) :
    '\n' ∉ (LinePosition.of source start).line.toList := by
  obtain ⟨n, line, i, hline, -, -, hplace⟩ := exists_place h
  rw [hplace, String.toList_ofList]
  exact newline_not_mem_of_mem_splitOn line (List.mem_of_getElem? hline)

/-- The line from an offset on is what stands there in the text, up to the next newline. -/
theorem LinePosition.drop_line (h : start ≤ source.length) :
    (LinePosition.of source start).line.toList.drop ((LinePosition.of source start).column - 1) =
      (source.toList.drop start).takeWhile (· != '\n') := by
  have hbefore : (source.toList.take start).length = start := by
    rw [List.length_take, String.length_toList]
    omega
  have hlead := List.IsPrefix.length_le
    (List.takeWhile_prefix (· != '\n') (l := (source.toList.take start).reverse))
  rw [List.length_reverse, hbefore] at hlead
  unfold LinePosition.of
  simp only [String.toList_ofList, List.length_reverse, hbefore, Nat.add_sub_cancel]
  rw [List.drop_append_of_le_length, List.drop_eq_nil_of_le, List.nil_append] <;>
    rw [List.length_reverse] <;> omega

/-- The two lines of a diagnosis. -/
theorem diagnosis_lines (h : start ≤ source.length) (stop : Int) :
    let p := LinePosition.of source start
    (diagnosis .plain source start stop).toList.splitOn '\n' =
      [' ' :: ' ' :: p.line.toList,
        ' ' :: ' ' :: markRow (p.column - 1)
          (underlineWidth start stop p.line.length (p.column - 1))] := by
  have hlt := lt_underlineEnd start stop (LinePosition.of source start).line.length
    ((LinePosition.of source start).column - 1)
  exact underlined_lines (LinePosition.newline_not_mem_line h) (by omega)

/-- What is underlined stands in the text from the offset on, and does not reach over its line. -/
theorem underlinedPart_eq (h : start ≤ source.length) (stop : Int) :
    let p := LinePosition.of source start
    underlinedPart source start stop =
      ((source.toList.drop start).takeWhile (· != '\n')).take
        (underlineWidth start stop p.line.length (p.column - 1)) := by
  intro p
  have hmarks := aboveMarks_markRow
    (one_le_underlineWidth start stop p.line.length (p.column - 1)) p.line.toList (p.column - 1)
  rw [LinePosition.drop_line h] at hmarks
  rw [underlinedPart, diagnosis_lines h stop]
  exact hmarks

theorem length_takeWhile_newline (h : start ≤ source.length) :
    let p := LinePosition.of source start
    ((source.toList.drop start).takeWhile (· != '\n')).length = p.line.length - (p.column - 1) := by
  intro p
  rw [← LinePosition.drop_line h, List.length_drop, String.length_toList]

section Covered

variable (h : start ≤ source.length)
include h

/-- Those offsets go on from `start` to the end of the part or of the line. -/
theorem onFirstLine_iff {offset : Nat} :
    let p := LinePosition.of source start
    OnFirstLine source start stop offset ↔
      start ≤ offset ∧ offset < stop ∧ offset < start + (p.line.length - (p.column - 1)) := by
  obtain ⟨n, line, i, -, hi, hstart, hplace⟩ := LinePosition.exists_place h
  unfold OnFirstLine
  simp only [hplace, String.length_ofList, Nat.add_sub_cancel]
  omega

/-- The marks cover just the offsets of the part that lie on its first line, if there are any. -/
theorem covered_iff (hsome : ∃ offset, OnFirstLine source start stop offset) (offset : Nat) :
    let p := LinePosition.of source start
    start ≤ offset ∧ offset < start + underlineWidth start stop p.line.length (p.column - 1) ↔
      OnFirstLine source start stop offset := by
  obtain ⟨known, hknown⟩ := hsome
  simp only [onFirstLine_iff h] at hknown ⊢
  unfold underlineWidth underlineEnd
  omega

/-- One mark stands where nothing of the part lies on its first line. -/
theorem underlineWidth_eq_one (hnone : ¬ ∃ offset, OnFirstLine source start stop offset) :
    let p := LinePosition.of source start
    underlineWidth start stop p.line.length (p.column - 1) = 1 := by
  have hfirst := not_exists.1 hnone start
  simp only [onFirstLine_iff h] at hfirst ⊢
  unfold underlineWidth underlineEnd
  omega

/-- What is covered is underlined. -/
theorem underlinedPart_of_covered (hsome : ∃ offset, OnFirstLine source start stop offset) :
    let p := LinePosition.of source start
    underlinedPart source start stop =
      (source.toList.drop start).take (underlineWidth start stop p.line.length (p.column - 1)) := by
  intro p
  have hwidth : underlineWidth start stop p.line.length (p.column - 1) ≤
      ((source.toList.drop start).takeWhile (· != '\n')).length := by
    obtain ⟨known, hknown⟩ := hsome
    obtain ⟨hstart, hstop, hline⟩ := (onFirstLine_iff h).1 hknown
    rw [length_takeWhile_newline h]
    simp only [p, underlineWidth, underlineEnd]
    omega
  rw [underlinedPart_eq h, ← List.take_append_of_le_length hwidth,
    List.takeWhile_append_dropWhile]

end Covered

/-- A word of one line that stands in a text is what is underlined at its place. -/
theorem underlinedPart_of_word (hword : '\n' ∉ word) (hne : word ≠ [])
    (hstands : (source.toList.drop start).take word.length = word) :
    underlinedPart source start ((start + word.length : Nat) : Int) = word := by
  obtain ⟨rest, hrest⟩ : ∃ rest, source.toList.drop start = word ++ rest :=
    ⟨_, by rw [← hstands, List.take_append_drop]⟩
  have hpos := List.length_pos_of_ne_nil hne
  have hstart : start ≤ source.length := by
    have hlength := congrArg List.length hrest
    rw [List.length_drop, List.length_append, String.length_toList] at hlength
    omega
  have hline := length_takeWhile_newline hstart
  rw [underlinedPart_eq hstart]
  rw [hrest, List.takeWhile_append_of_pos (bne_newline_of_not_mem hword)] at hline ⊢
  have hwidth : underlineWidth start ((start + word.length : Nat) : Int)
      (LinePosition.of source start).line.length ((LinePosition.of source start).column - 1) =
        word.length := by
    rw [List.length_append] at hline
    unfold underlineWidth underlineEnd
    omega
  rw [hwidth, List.take_left]

/-! ## Failures of a text -/

/-- In the text that a failure is located in, a diagnosis underlines a word. -/
def Failure.Underlines (failure : Failure) (text : String) (word : List Char) : Prop :=
  ∃ fault start stop, failure = .error fault ⟨some text, some start, some stop⟩ ∧
    underlinedPart text start stop = word

/-- Where the failures of a text are located, and what is underlined there: the character that
starts no token, or the token that a failure lies at.  The other failures lie at a sign and the
number after it, at the end of the text, or at a function that is defined again, which is marked
from the start of its definition on, for as long as its name is. -/
inductive Failure.PointsInto (text : String) : Failure → Prop
  | character {bad : IllegalCharacter} :
      tokenize text = .error bad → (bad.failure text).Underlines text [bad.char] →
      PointsInto text (bad.failure text)
  | place {ts : List Token} {fault : Fault} {place : Place} :
      tokenize text = .ok ts → place.Among ts →
      (∀ t, place = .token t →
        t ∈ ts ∧ (error fault (place.locate (some text))).Underlines text t.text.toList) →
      PointsInto text (.error fault (place.locate (some text)))
  | redefinition {ts : List Token} {start : Token} {name : String} :
      tokenize text = .ok ts → start ∈ ts →
      PointsInto text (.error (.alreadyDefined name)
        ⟨some text, some start.offset, some ((start.offset + max name.length 1 : Nat) : Int)⟩)

variable {text : String} {ts : List Token}

/-- The character that starts no token is underlined. -/
theorem IllegalCharacter.underlines {bad : IllegalCharacter} (h : tokenize text = .error bad) :
    (bad.failure text).Underlines text [bad.char] := by
  have hstuck := stuck_of_tokenize h
  have hword : '\n' ∉ [bad.char] := by
    rw [List.mem_singleton]
    intro hnewline
    have hblank := hstuck.startsNothing.notBlank
    rw [← hnewline] at hblank
    cases hblank
  have hstands : (text.toList.drop bad.offset).take [bad.char].length = [bad.char] := by
    rw [drop_eq_cons hstuck.char]
    rfl
  have hpart := underlinedPart_of_word hword (List.cons_ne_nil _ _) hstands
  rw [List.length_singleton, Int.natCast_add_one] at hpart
  exact ⟨_, _, _, rfl, hpart⟩

/-- A token is underlined where a fault lies at it. -/
theorem Token.underlines (h : tokenize text = .ok ts) {t : Token} (ht : t ∈ ts) (fault : Fault) :
    (Failure.error fault ((Place.token t).locate (some text))).Underlines text t.text.toList := by
  have hcut := (cut_of_tokenize h).cutFrom t ht
  have hword : '\n' ∉ t.text.toList := by
    intro hnewline
    cases hcut.isLexical.not_isBlank _ hnewline
  have hstands := hcut.standsAt
  rw [← String.length_toList] at hstands
  have hpart := underlinedPart_of_word hword hcut.isLexical.text_ne_nil hstands
  rw [String.length_toList] at hpart
  exact ⟨_, _, _, rfl, hpart⟩

theorem Place.Among.pointsInto {place : Place} (hplace : place.Among ts)
    (h : tokenize text = .ok ts) (fault : Fault) :
    Failure.PointsInto text (.error fault (place.locate (some text))) := by
  refine .place h hplace ?_
  rintro t rfl
  cases hplace with
  | token ht => exact ⟨ht, Token.underlines h ht fault⟩

/-- The fault that keeps tokens from being one expression lies among them. -/
theorem Parser.among_of_program (hlex : ∀ t ∈ ts, t.IsLexical) {left : List Token}
    {e : GrammarError} (h : program ts = .error (.grammar e) left) : e.place.Among ts := by
  obtain ⟨n, ⟨⟩, -⟩ | ⟨fault, place, he, hplace⟩ := blamesAt_of_program h
  obtain rfl := ReadError.grammar.inj he
  obtain hblame | ⟨pre, t, post, rfl, -, hplace⟩ := hplace
  · exact among_of_blamesAt hlex hblame
  · rw [hplace]
    exact .token List.mem_append_cons_self

theorem pointsInto_of_parse {fault : Fault} {location : Location}
    (h : parse source = .error (.error fault location)) :
    (Failure.error fault location).PointsInto source := by
  cases htokens : tokenize source with
  | error bad =>
    rw [parse_of_refused htokens] at h
    rw [← Except.error.inj h]
    exact .character htokens (IllegalCharacter.underlines htokens)
  | ok ts =>
    rw [parse_of_tokenize htokens] at h
    split at h
    · cases h
    · next e left hread =>
      rw [← Except.error.inj h]
      cases e with
      | grammar e =>
        have hplace := Parser.among_of_program (isLexical_of_mem_tokenize htokens) hread
        exact hplace.pointsInto htokens (.grammar e.fault)
      | oversized digits => cases h

theorem Session.TextFault.pointsInto {env : Environment} {failure : Failure}
    (h : TextFault source env failure) : failure.PointsInto (blankComments source) := by
  cases h with
  | character hbad => exact .character hbad (IllegalCharacter.underlines hbad)
  | @remainder ts fault htokens hfault =>
    have hplace := among_of_readForms (isLexical_of_mem_tokenize htokens) hfault
    exact hplace.pointsInto htokens (.grammar fault.fault)
  | notDefinition htokens hforms =>
    obtain ⟨us, vs, rest, hts, -⟩ :=
      exists_of_readForms (isLexical_of_mem_tokenize htokens) hforms
    exact Place.Among.pointsInto (.token (by simp [hts])) htokens _
  | redefinition htokens hforms =>
    obtain ⟨us, vs, rest, hts, -⟩ :=
      exists_of_readForms (isLexical_of_mem_tokenize htokens) hforms
    exact .redefinition htokens (by simp [hts])

/-- A fault of the lexer or of the grammar is a fault of the text itself, also where its forms are
evaluated. -/
theorem Session.textFault_of_execute [Machine] {env : Environment} {fault : Fault}
    {location : Location}
    (h : (execute source).outcome env = .error (.error fault location))
    (hkind : fault.kind = .lexical ∨ fault.kind = .grammar) :
    TextFault source env (.error fault location) := by
  rcases textFault_or_raises_of_execute h with htext | ⟨⟨⟩⟩ | ⟨e, he⟩
  · exact htext
  · rcases he.kind with ⟨⟨⟩⟩ | ⟨fault', hfault, hlexical, hgrammar, -⟩
    obtain ⟨rfl, -⟩ := Failure.error.inj hfault
    exact (hkind.elim hlexical hgrammar).elim

/-- **A diagnosis shows the line as it is and underlines the right part of it.**  Wherever a part of
a text starts, and wherever it stops, its diagnosis is two lines behind two blanks each: the line
that the part starts on, and a row of marks from the column of its start on.  The marks cover what
lies on this line of the part, and there is one mark if nothing does.

An error that lies at a token of a text has just this token underlined.  The errors of the lexer and
of the grammar that a text is refused for, when it is read as one expression, loaded or executed,
lie at the character that starts no token, which is underlined then, or at one of the tokens, or
they are of those few that do not lie at one token. -/
theorem diagnosis_underlines [Machine] (source : String) :
    (∀ start ≤ source.length, ∀ stop : Int,
      let p := LinePosition.of source start
      let width := underlineWidth start stop p.line.length (p.column - 1)
      (diagnosis .plain source start stop).toList.splitOn '\n' =
          [' ' :: ' ' :: p.line.toList, ' ' :: ' ' :: markRow (p.column - 1) width] ∧
        (source.toList.splitOn '\n')[p.number - 1]? = some p.line.toList ∧
        start = lineStart (source.toList.splitOn '\n') (p.number - 1) + (p.column - 1) ∧
        1 ≤ width ∧
        (width : Int) = min (max (stop - start) 1) (max (p.line.length - (p.column - 1)) 1) ∧
        ((∃ offset, OnFirstLine source start stop offset) →
          (∀ offset, start ≤ offset ∧ offset < start + width ↔
            OnFirstLine source start stop offset) ∧
          underlinedPart source start stop = (source.toList.drop start).take width) ∧
        ((¬ ∃ offset, OnFirstLine source start stop offset) → width = 1)) ∧
    (∀ ts, tokenize source = .ok ts → ∀ t ∈ ts, ∀ fault,
      (Failure.error fault ((Place.token t).locate (some source))).Underlines source
        t.text.toList) ∧
    (∀ bad, tokenize source = .error bad → (bad.failure source).Underlines source [bad.char]) ∧
    (∀ fault location, parse source = .error (.error fault location) →
      (Failure.error fault location).PointsInto source) ∧
    (∀ env fault location, (Session.load source).outcome env = .error (.error fault location) →
      (Failure.error fault location).PointsInto (blankComments source)) ∧
    ∀ env fault location, (Session.execute source).outcome env = .error (.error fault location) →
      fault.kind = .lexical ∨ fault.kind = .grammar →
        (Failure.error fault location).PointsInto (blankComments source) := by
  refine ⟨fun start h stop => ?_, fun ts hts t ht fault => Token.underlines hts ht fault,
    fun bad hbad => IllegalCharacter.underlines hbad, fun fault location h => pointsInto_of_parse h,
    fun env fault location h => ((Session.textFault_of_load h).resolve_right nofun).pointsInto,
    fun env fault location h hkind => (Session.textFault_of_execute h hkind).pointsInto⟩
  obtain ⟨n, line, i, hline, hi, hstart, hplace⟩ := LinePosition.exists_place h
  refine ⟨diagnosis_lines h stop, ?_, ?_, one_le_underlineWidth start stop _ _,
    ?_,
    fun hsome => ⟨covered_iff h hsome, underlinedPart_of_covered h hsome⟩,
    underlineWidth_eq_one h⟩
  · rw [hplace, String.toList_ofList]
    exact hline
  · rw [hplace]
    exact hstart
  · have hcolumn : (LinePosition.of source start).column = i + 1 := by rw [hplace]
    have hlength : (LinePosition.of source start).line.length = line.length := by
      rw [hplace, String.length_ofList]
    rw [underlineWidth_eq start stop (by omega), hcolumn, Nat.add_sub_cancel]
    omega

/-- A part that goes on to the next line, one that starts at the newline, tokens on two lines, and a
character that starts none. -/
theorem diagnosis_underlines_newlines :
    let _ : Machine := .ofCalls 1
    let source := "abc\nde"
    1 ≤ source.length ∧ diagnosis .plain source 1 5 = "  abc\n   ^~" ∧
      (∃ offset, OnFirstLine source 1 5 offset) ∧ underlinedPart source 1 5 = ['b', 'c'] ∧
      (¬ ∃ offset, OnFirstLine source 3 9 offset) ∧
      underlineWidth 3 9 (LinePosition.of source 3).line.length
        ((LinePosition.of source 3).column - 1) = 1 ∧
      (∃ failure, parse source = .error failure ∧ failure.PointsInto source ∧
        failure.Underlines source ['d', 'e']) ∧
      (IllegalCharacter.failure "a\n #" ⟨'#', 3⟩).Underlines "a\n #" ['#'] ∧
      (∃ failure, (Session.load "f").outcome .empty = .error failure ∧
        failure.PointsInto (blankComments "f")) ∧
      ∃ fault location, (Session.execute "(;").outcome .empty = .error (.error fault location) ∧
        fault.kind = .grammar ∧ (Failure.error fault location).PointsInto (blankComments "(;") := by
  intro _ source
  obtain ⟨hshown, htoken, -, hparse, -⟩ := diagnosis_underlines source
  obtain ⟨-, -, hcharacter, -⟩ := diagnosis_underlines "a\n #"
  obtain ⟨-, -, -, -, hload, -⟩ := diagnosis_underlines "f"
  obtain ⟨-, -, -, -, -, hexecute⟩ := diagnosis_underlines "(;"
  have hsome : ∃ offset, OnFirstLine source 1 5 offset := ⟨1, by decide +kernel⟩
  have hnone : ¬ ∃ offset, OnFirstLine source 3 9 offset := by
    rintro ⟨offset, hoffset⟩
    have hplace : LinePosition.of source 3 = ⟨"abc", 1, 4⟩ := by decide +kernel
    have hlength : "abc".length = 3 := by decide
    have hafter := (onFirstLine_iff (by decide)).1 hoffset
    simp only [hplace, hlength] at hafter
    omega
  have hpart : underlinedPart source 1 5 = ['b', 'c'] := by
    obtain ⟨-, -, -, -, -, hcovered, -⟩ := hshown 1 (by decide) 5
    rw [(hcovered hsome).2]
    decide +kernel
  have htokens : tokenize source = .ok [⟨.identifier, "abc", 0⟩, ⟨.identifier, "de", 4⟩] := by
    decide +kernel
  have htrailing : parse source =
      .error (.error (.grammar (.trailingToken "de")) ⟨some source, some 4, some 6⟩) := by
    decide +kernel
  have hnotDefinition : (Session.load "f").outcome .empty =
      .error (.error (.notDefinition (.var "f")) ⟨some "f", some 0, some 1⟩) := by decide +kernel
  have hunfinished : (Session.execute "(;").outcome .empty =
      .error (.error (.grammar .endOfInput) ⟨some "( ", some 1, some 3⟩) := by decide +kernel
  exact ⟨by decide, by decide +kernel, hsome, hpart, hnone,
    (hshown 3 (by decide) 9).2.2.2.2.2.2 hnone,
    ⟨_, htrailing, hparse _ _ htrailing, htoken _ htokens ⟨.identifier, "de", 4⟩ (by decide) _⟩,
    hcharacter ⟨'#', 3⟩ (by decide +kernel), ⟨_, hnotDefinition, hload _ _ _ hnotDefinition⟩,
    _, _, hunfinished, rfl, hexecute _ _ _ hunfinished (.inr rfl)⟩

end DynLisp
