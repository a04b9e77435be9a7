import DynLisp.Proofs.Environment.Action
import DynLisp.Proofs.Session.Likeness
import DynLisp.Shell

/-!
# Texts that are typed line by line

A shell that is fed a text line by line clears what it keeps of its comments and trims it, and puts
the next line to the rest.  This changes where the words of the text stand and nothing else.  What
the shell keeps always has the words of the lines so far, whether a text goes on depends on its
words only, and texts with the same words are executed alike.  So nothing happens before the last
line, and then the whole text is executed, `feedAll_lines`.

A text is typed as a whole if the shell takes the first line for forms, sees at every line but the
last that the text goes on, and is not told in between that the input ends: `TypedText`.
-/

namespace DynLisp

/-- Forms, and no command: a line with something on it that does not start with a question mark or
with the word of a command. -/
structure Command.IsForms (line : String) : Prop where
  nonempty : Text.trim line ≠ ""
  noQuestion : (Text.trim line).toList.head? ≠ some '?'
  noCommand : String.ofList ((Text.trim line).toList.takeWhile isNameChar) ∉
    ["help", "exit", endWord]

theorem Command.IsForms.ofLine {line : String} (h : IsForms line) :
    Command.ofLine line = .forms (Text.trim line) := by
  obtain ⟨hnonempty, hquestion, hcommand⟩ := h
  simp only [List.mem_cons, List.not_mem_nil, or_false, not_or] at hcommand
  simp only [Command.ofLine]
  rw [if_neg hnonempty, if_neg hquestion, if_neg hcommand.1, if_neg hcommand.2.1,
    if_neg hcommand.2.2]

namespace Shell

/-- Feeds lines one after the other. -/
def feedAll [Machine] (s : Shell) : List String → Shell × List Reply
  | [] => (s, [])
  | line :: lines => ((feedAll (s.feed line).1 lines).1,
      (s.feed line).2 :: (feedAll (s.feed line).1 lines).2)

/-- Lines that are one text for a shell: the first is no command, none of the others is the end of
the input, and the text goes on after every line but the last. -/
structure TypedText (first : String) (later : List String) : Prop where
  forms : Command.IsForms first
  notEnd : ∀ line ∈ later, line ≠ Command.endWord
  goesOn : ∀ n < later.length,
    (Session.prepareLine ("\n".intercalate (first :: later.take n))).2 = true
  ends : (Session.prepareLine ("\n".intercalate (first :: later))).2 = false

/-- What a shell shows of the outcome of a text: all its values, or a report of a failure that
differs in its place at most. -/
inductive Shows (r : Reporter) : Except Failure (List Value) → Reply → Prop
  | values {values : List Value} {notices : List Notice} :
      Shows r (.ok values) { output := String.join (values.map fun v => v.text ++ "\n"), notices }
  | failure {failure failure' : Failure} {notices : List Notice} :
      failure.unlocated = failure'.unlocated →
      Shows r (.error failure)
        { report := (r.judge failure'.ending).output
          escape := (r.judge failure'.ending).escape
          notices }

/-- A shell has answered to a text as a session executes it.  It has shown the outcome, its own
session has the bindings and functions that the text leaves, and no text is pending. -/
structure Answers [Machine] (session : Session) (r : Reporter) (text : String) (after : Shell)
    (reply : Reply) : Prop where
  shows : Shows r ((Session.execute text).outcome session.environment) reply
  same : ((Session.execute text).after session.environment).Same after.session.environment
  pending : after.pending = ""

/-! ## Executing a text -/

theorem answers_executeText [Machine] {s : Shell} {text text' : String} (hpending : s.pending = "")
    (hwords : wordsOf text = wordsOf text') :
    Answers s.session s.reporter text (s.executeText text').1 (s.executeText text').2 := by
  have hsame : s.session.environment.Same { s.session.environment with notices := [] } := ⟨rfl, rfl⟩
  have h := Session.alike_execute hwords _ _ hsame
  unfold executeText
  generalize Session.execute text' { s.session.environment with notices := [] } = result' at h
  cases hrun : Session.execute text s.session.environment with
  | ok values env =>
    rw [hrun] at h
    cases h with
    | ok hafter =>
      refine ⟨?_, ?_, hpending⟩
      · rw [Action.outcome, hrun]
        exact .values
      · rw [Action.after, hrun]
        exact hafter
  | error failure env =>
    rw [hrun] at h
    cases h with
    | error hfailure hafter =>
      refine ⟨?_, ?_, hpending⟩
      · rw [Action.outcome, hrun]
        exact .failure hfailure
      · rw [Action.after, hrun]
        exact hafter

/-- A text of blanks has no words. -/
theorem wordsOf_of_trim {text : String} (h : Text.trim text = "") : wordsOf text = .ok [] := by
  rw [← wordsOf_trim, h, wordsOf_empty]

/-- Nothing happens in a text without words. -/
theorem answers_of_no_words [Machine] {s : Shell} {text : String} (hpending : s.pending = "")
    (hwords : wordsOf text = .ok []) : Answers s.session s.reporter text s {} := by
  have h := Session.alike_execute (hwords.trans wordsOf_empty.symm)
  have henv : s.session.environment.Same s.session.environment := ⟨rfl, rfl⟩
  have hempty := Session.execute_empty s.session.environment
  have hafter := h.same_after henv
  rw [Action.after_of_ok hempty] at hafter
  refine ⟨?_, ⟨hafter.bindings, hafter.functions⟩, hpending⟩
  rw [h.outcome_eq_ok henv (Action.outcome_of_ok hempty)]
  exact .values

/-! ## Taking a text -/

theorem takeText_of_unfinished [Machine] {s : Shell} {text : String}
    (h : (wordsOf text).unfinished = true) :
    s.takeText text = (s.await (Session.prepareLine text).1, {}) := by
  rw [← prepareLine_snd] at h
  rw [takeText]
  simp only [h, if_true]

theorem answers_takeText [Machine] {s : Shell} {text text' : String}
    (hwords : wordsOf text = wordsOf text') (h : (wordsOf text').unfinished = false) :
    Answers s.session s.reporter text (s.takeText text').1 (s.takeText text').2 := by
  rw [← prepareLine_snd] at h
  rw [takeText]
  simp only [h, Bool.false_eq_true, if_false]
  rw [← wordsOf_prepareLine text'] at hwords
  -- what is executed, if anything is, is executed by the shell that keeps no text any more
  split
  · next hblank =>
    exact answers_of_no_words (s := s.settle) rfl (hwords.trans (wordsOf_of_trim hblank))
  · exact answers_executeText (s := s.settle) rfl hwords

/-- What is kept of an unfinished text is not nothing. -/
theorem prepareLine_ne_empty {text : String} (h : (wordsOf text).unfinished = true) :
    (Session.prepareLine text).1 ≠ "" := by
  intro hempty
  rw [← wordsOf_prepareLine, hempty, wordsOf_empty] at h
  cases h

/-! ## Taking lines -/

theorem intercalate_cons_append (first line : String) (lines : List String) :
    "\n".intercalate ((first ++ "\n" ++ line) :: lines) =
      "\n".intercalate (first :: line :: lines) := by
  cases lines with
  | nil => rw [String.intercalate_singleton, String.intercalate_cons_cons,
      String.intercalate_singleton]
  | cons next lines =>
    rw [String.intercalate_cons_cons, String.intercalate_cons_cons, String.intercalate_cons_cons]
    simp only [String.append_assoc]

/-- From a text with the words of the lines so far on, only the last line is answered to. -/
theorem takeText_feedAll [Machine] {s : Shell} {first text : String} {later : List String}
    (hwords : wordsOf first = wordsOf text) (hnotEnd : ∀ line ∈ later, line ≠ Command.endWord)
    (hgoesOn : ∀ n < later.length,
      (Session.prepareLine ("\n".intercalate (first :: later.take n))).2 = true)
    (hends : (Session.prepareLine ("\n".intercalate (first :: later))).2 = false) :
    ∃ last, (s.takeText text).2 :: ((s.takeText text).1.feedAll later).2 =
        List.replicate later.length ({} : Reply) ++ [last] ∧
      Answers s.session s.reporter ("\n".intercalate (first :: later))
        ((s.takeText text).1.feedAll later).1 last := by
  induction later generalizing s first text with
  | nil =>
    rw [String.intercalate_singleton, prepareLine_snd, hwords] at hends
    rw [String.intercalate_singleton]
    exact ⟨_, rfl, answers_takeText hwords hends⟩
  | cons line later ih =>
    have hopen := hgoesOn 0 (Nat.zero_lt_succ _)
    rw [List.take_zero, String.intercalate_singleton, prepareLine_snd, hwords] at hopen
    obtain ⟨hline, hnotEnd⟩ := List.forall_mem_cons.1 hnotEnd
    have hfed : (s.await (Session.prepareLine text).1).feed line =
        (s.await (Session.prepareLine text).1).takeText
          ((Session.prepareLine text).1 ++ "\n" ++ line) :=
      if_pos ⟨prepareLine_ne_empty hopen, hline⟩
    have hwords' : wordsOf (first ++ "\n" ++ line) =
        wordsOf ((Session.prepareLine text).1 ++ "\n" ++ line) := by
      rw [wordsOf_join, wordsOf_join, wordsOf_prepareLine, hwords]
    rw [takeText_of_unfinished hopen, feedAll, hfed]
    obtain ⟨last, hreplies, hanswers⟩ := ih
      (s := s.await (Session.prepareLine text).1) hwords' hnotEnd
      (fun n hn => by
        rw [intercalate_cons_append]
        exact hgoesOn (n + 1) (Nat.succ_lt_succ hn))
      (by rwa [intercalate_cons_append])
    rw [intercalate_cons_append] at hanswers
    exact ⟨last, congrArg (({} : Reply) :: ·) hreplies, hanswers⟩

/-- **Typing a text line by line is executing it as a whole.**  A shell without a pending text that
is fed the lines of a text answers nothing before the last line, and then as its session executes
the text: with the same values, or a report of a failure that is the same but for its place, and
with the same bindings and functions left.  Then no text is pending. -/
theorem feedAll_lines [Machine] {s : Shell} {first : String} {later : List String}
    (hpending : s.pending = "") (htyped : TypedText first later) :
    ∃ last, (s.feedAll (first :: later)).2 = List.replicate later.length ({} : Reply) ++ [last] ∧
      Answers s.session s.reporter ("\n".intercalate (first :: later))
        (s.feedAll (first :: later)).1 last := by
  have hfed : s.feed first = s.takeText (Text.trim first) := by
    rw [feed, if_neg (fun h => h.1 hpending), htyped.forms.ofLine, obey]
  rw [feedAll, hfed]
  exact takeText_feedAll (wordsOf_trim first).symm htyped.notEnd htyped.goesOn htyped.ends

/-- A definition over three lines, with a bracket in a comment and with a line that would be a
command by itself, and a call of the function after it. -/
theorem feedAll_lines_definition :
    let _ : Machine := .ofCalls 1
    let s : Shell := .start (.new "<in>") ⟨"<in>", .plain, true⟩
    let later := ["exit", ") (f 2)"]
    s.pending = "" ∧ TypedText " (define (f exit) ; (" later ∧
      ∃ last, (s.feedAll (" (define (f exit) ; (" :: later)).2 = [{}, {}, last] ∧
        last.output = "2\n" ∧ last.report = "" := by
  intro _ s later
  have htyped : TypedText " (define (f exit) ; (" later :=
    ⟨⟨by decide +kernel, by decide +kernel, by decide +kernel⟩, by decide +kernel,
      by decide +kernel, by decide +kernel⟩
  obtain ⟨last, hreplies, hanswers⟩ := feedAll_lines (s := s) rfl htyped
  refine ⟨rfl, htyped, last, hreplies, ?_⟩
  have hvalue : (Session.execute (" (define (f exit) ; (\nexit\n) (f 2)")).outcome
      s.session.environment = .ok [.number 2] := by decide +kernel
  have hjoined : "\n".intercalate (" (define (f exit) ; (" :: later) =
      " (define (f exit) ; (\nexit\n) (f 2)" := by decide +kernel
  have hshows := hanswers.shows
  rw [hjoined, hvalue] at hshows
  have htext : String.join ([Value.number 2].map fun v => v.text ++ "\n") = "2\n" := by
    decide +kernel
  cases hshows
  exact ⟨htext, rfl⟩

end Shell

end DynLisp
