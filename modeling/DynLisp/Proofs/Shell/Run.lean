import DynLisp.CommandLine
import DynLisp.Proofs.Session.Closed
import DynLisp.Proofs.Session.Midway
import DynLisp.Proofs.Shell.Lines
import Mathlib.Data.List.DropRight

/-!
# Whole runs of a shell

What a line does to a shell is one of four things (`Shell.feed_cases`): the shell keeps an
unfinished text and asks for more, it settles, it settles and executes the text that the line
completes, or it stays as it is.  So the prompt always tells whether a text is pending, and what is
pending is a text that goes on as it stands (`Unfinished`).  What the session of a shell has was
read from texts, `Shell.Steady`.  Every line keeps this up, and with it every run
(`Shell.Steady.feedAll`).

Nothing is bound between two lines, since a text that is executed restores its bindings
(`Shell.bindings_feedAll`), unless calls are nested too deeply in it on a machine that is not
steady.

The failures of texts that are executed are those of the language, none of which goes on beyond the
reporter of a shell, except that a number of too many digits ends in one that does
(`Shell.Steady.escape_feed`).  Hence a shell that is fed no such number stops at a line that says so
and for no other reason (`Shell.run_steady`).
-/

namespace DynLisp

/-! ## Texts that go on -/

/-- A text that goes on as it stands: there is no comment in it, it does not end in a blank, and it
cuts into tokens of which more are opening than closing delimiters. -/
structure Unfinished (text : String) : Prop where
  noComment : ';' ∉ text.toList
  trimmed : Text.trimEnd text = text
  opens : ∃ ts, tokenize text = .ok ts ∧
    ts.countP (·.kind = .closing) < ts.countP (·.kind = .opening)

theorem trimEnd_trimEnd (s : String) : Text.trimEnd (Text.trimEnd s) = Text.trimEnd s := by
  rw [Text.trimEnd, Text.trimEnd, String.toList_ofList, Text.dropBlankEnd, Text.dropBlankEnd,
    List.reverse_reverse, List.dropWhile_idempotent]

namespace Session

/-- What is kept of a line that goes on is a text that goes on as it stands. -/
theorem unfinished_of_prepareLine {line : String} (h : (prepareLine line).2 = true) :
    Unfinished (prepareLine line).1 := by
  cases htokenize : tokenize (Text.trimEnd (blankComments line)) with
  | error bad =>
    rw [prepareLine, htokenize] at h
    cases h
  | ok ts =>
    rw [prepareLine, htokenize] at h ⊢
    exact ⟨semicolon_not_mem_of_lex htokenize, trimEnd_trimEnd _, ts, htokenize,
      of_decide_eq_true h⟩

/-- Such a text is kept as it is. -/
theorem prepareLine_of_unfinished {text : String} (h : Unfinished text) :
    prepareLine text = (text, true) := by
  obtain ⟨hcomment, htrimmed, ts, htokenize, hopens⟩ := h
  have hblanked : blankComments text = text := by
    rw [blankComments, blankFrom_of_not_mem hcomment, String.ofList_toList]
  rw [prepareLine, hblanked, htrimmed, htokenize]
  exact congrArg (Prod.mk text) (decide_eq_true hopens)

end Session

/-! ## Lines that stop -/

/-- A line that stops a shell: a word that does so, with nothing but blanks after it. -/
structure Command.Stops (line : String) : Prop where
  word : String.ofList ((Text.trim line).toList.takeWhile isNameChar) ∈ ["exit", endWord]
  blank : ∀ c ∈ (Text.trim line).toList.dropWhile isNameChar, isBlank c = true

theorem dropBlankEnd_eq_nil_iff {cs : List Char} :
    Text.dropBlankEnd cs = [] ↔ ∀ c ∈ cs, isBlank c = true := by
  rw [Text.dropBlankEnd, List.reverse_eq_nil_iff, List.dropWhile_eq_nil_iff]
  simp only [List.mem_reverse]

theorem trim_ofList_eq_empty_iff {cs : List Char} :
    Text.trim (String.ofList cs) = "" ↔ ∀ c ∈ cs, isBlank c = true := by
  rw [Text.trim, String.toList_ofList, String.ofList_eq_empty_iff, dropBlankEnd_eq_nil_iff]
  constructor
  · intro h c hc
    rw [← List.takeWhile_append_dropWhile (p := isBlank) (l := cs), List.mem_append] at hc
    rcases hc with hc | hc
    · exact List.mem_takeWhile_imp hc
    · exact h c hc
  · intro h c hc
    rw [List.dropWhile_eq_nil_iff.2 h] at hc
    cases hc

theorem Command.stops_iff {line : String} :
    Command.Stops line ↔
      String.ofList ((Text.trim line).toList.takeWhile isNameChar) ∈ ["exit", endWord] ∧
        Text.trim (String.ofList ((Text.trim line).toList.dropWhile isNameChar)) = "" := by
  rw [trim_ofList_eq_empty_iff]
  exact ⟨fun h => ⟨h.word, h.blank⟩, fun h => ⟨h.1, h.2⟩⟩

namespace Shell

/-! ## What a line does -/

/-- A text that is executed changes the environment of the session and nothing else of a shell. -/
theorem executeText_fst [Machine] (s : Shell) (text : String) :
    ∃ env, (s.executeText text).1 = { s with session.environment := env } := by
  unfold executeText
  cases Session.execute text { s.session.environment with notices := [] } with
  | ok values env => exact ⟨env, rfl⟩
  | error failure env => exact ⟨env, rfl⟩

/-- A text is kept if it goes on.  Otherwise nothing is pending any more, and the text is executed
unless it is blank. -/
theorem takeText_cases [Machine] (s : Shell) (text : String) :
    ((Session.prepareLine text).2 = true ∧
        s.takeText text = (s.await (Session.prepareLine text).1, {})) ∨
      s.takeText text = (s.settle, {}) ∨
      (Session.prepareLine text = ((Session.prepareLine text).1, false) ∧
        Text.trim (Session.prepareLine text).1 ≠ "" ∧
        s.takeText text = s.settle.executeText (Session.prepareLine text).1) := by
  rw [takeText]
  by_cases hmore : (Session.prepareLine text).2 = true
  · exact .inl ⟨hmore, if_pos hmore⟩
  · by_cases hblank : Text.trim (Session.prepareLine text).1 = ""
    · exact .inr (.inl ((if_neg hmore).trans (if_pos hblank)))
    · exact .inr (.inr ⟨Prod.ext rfl (Bool.eq_false_iff.2 hmore), hblank,
        (if_neg hmore).trans (if_neg hblank)⟩)

theorem escape_exit (s : Shell) (argument : String) : (s.exit argument).escape = none := by
  rw [exit]
  split <;> rfl

/-- The text that a line completes and that is executed then: the pending text goes on with the
line, or the line holds forms and no text is pending, and neither goes on any further. -/
def Completes (s : Shell) (line text : String) : Prop :=
  ∃ taken, (s.pending ≠ "" ∧ line ≠ Command.endWord ∧ taken = s.pending ++ "\n" ++ line ∨
      (s.pending = "" ∨ line = Command.endWord) ∧ Command.ofLine line = .forms taken) ∧
    Session.prepareLine taken = (text, false) ∧ Text.trim text ≠ ""

/-- A text that is pending or that a line holds is kept, dropped, or executed.  Any other line
leaves the shell as it is. -/
theorem feed_cases [Machine] (s : Shell) (line : String) :
    (∃ text, (Session.prepareLine text).2 = true ∧
        s.feed line = (s.await (Session.prepareLine text).1, {})) ∨
      s.feed line = (s.settle, {}) ∨
      (∃ text, s.Completes line text ∧ s.feed line = s.settle.executeText text) ∨
      (s.feed line).1 = s ∧ (s.feed line).2.escape = none := by
  have htaken : ∀ taken, (s.pending ≠ "" ∧ line ≠ Command.endWord ∧
      taken = s.pending ++ "\n" ++ line ∨
        (s.pending = "" ∨ line = Command.endWord) ∧ Command.ofLine line = .forms taken) →
      s.feed line = s.takeText taken →
        (∃ text, (Session.prepareLine text).2 = true ∧
          s.feed line = (s.await (Session.prepareLine text).1, {})) ∨
        s.feed line = (s.settle, {}) ∨
        (∃ text, s.Completes line text ∧ s.feed line = s.settle.executeText text) ∨
        (s.feed line).1 = s ∧ (s.feed line).2.escape = none := by
    intro taken hline hfeed
    rw [hfeed]
    rcases s.takeText_cases taken with ⟨hmore, htake⟩ | htake | ⟨hends, hblank, htake⟩
    · exact .inl ⟨taken, hmore, htake⟩
    · exact .inr (.inl htake)
    · exact .inr (.inr (.inl ⟨_, ⟨taken, hline, hends, hblank⟩, htake⟩))
  by_cases hpending : s.pending ≠ "" ∧ line ≠ Command.endWord
  · exact htaken _ (.inl ⟨hpending.1, hpending.2, rfl⟩) (if_pos hpending)
  · have hfeed : s.feed line = s.obey (Command.ofLine line) := if_neg hpending
    rw [not_and_or, not_ne_iff, not_ne_iff] at hpending
    cases hcommand : Command.ofLine line with
    | forms taken =>
      rw [hcommand] at hfeed
      exact htaken taken (.inr ⟨hpending, hcommand⟩) hfeed
    | nothing | help =>
      rw [hfeed, hcommand]
      exact .inr (.inr (.inr ⟨rfl, rfl⟩))
    | exit argument | endOfInput argument =>
      rw [hfeed, hcommand]
      exact .inr (.inr (.inr ⟨rfl, s.escape_exit argument⟩))

/-! ## Stopping -/

theorem stop_exit_iff (s : Shell) (argument : String) :
    (s.exit argument).stop = true ↔ argument = "" := by
  rw [exit]
  split
  · next h => exact iff_of_true rfl h
  · next h => exact iff_of_false Bool.false_ne_true h

theorem stop_takeText [Machine] (s : Shell) (text : String) :
    (s.takeText text).2.stop = false := by
  rcases s.takeText_cases text with ⟨-, h⟩ | h | ⟨-, -, h⟩
  · rw [h]
  · rw [h]
  · rw [h, executeText]
    split <;> rfl

theorem stop_obey_iff [Machine] (s : Shell) (line : String) :
    (s.obey (Command.ofLine line)).2.stop = true ↔ Command.Stops line := by
  rw [Command.stops_iff]
  simp only [Command.ofLine]
  split_ifs with hempty hquestion hhelp hexit hend
  · rw [hempty]
    exact iff_of_false Bool.false_ne_true fun h => absurd h.1 (by decide)
  · obtain ⟨cs, hcs⟩ := List.head?_eq_some_iff.1 hquestion
    have hword : ('?' :: cs).takeWhile Command.isNameChar = [] :=
      List.takeWhile_cons_of_neg (by decide)
    rw [hcs, hword]
    exact iff_of_false Bool.false_ne_true fun h => absurd h.1 (by decide)
  · rw [hhelp]
    exact iff_of_false Bool.false_ne_true fun h => absurd h.1 (by decide)
  · rw [hexit, obey, stop_exit_iff]
    exact (and_iff_right (by decide)).symm
  · have hobey : ∀ argument,
        (s.obey (.endOfInput argument)).2.stop = (s.exit argument).stop := fun _ => rfl
    rw [hend, hobey, stop_exit_iff]
    exact (and_iff_right (by decide)).symm
  · refine iff_of_false (Bool.eq_false_iff.1 (s.stop_takeText _)) fun h => ?_
    simp only [List.mem_cons, List.not_mem_nil, or_false] at h
    exact h.1.elim hexit hend

/-- A shell stops at the end of the input, also if a text is pending, and at a word that stops it if
no text is pending. -/
theorem stop_feed_iff [Machine] (s : Shell) (line : String) :
    (s.feed line).2.stop = true ↔
      s.pending ≠ "" ∧ line = Command.endWord ∨ s.pending = "" ∧ Command.Stops line := by
  by_cases hpending : s.pending = ""
  · have hfeed : s.feed line = s.obey (Command.ofLine line) := if_neg fun h => h.1 hpending
    rw [hfeed, stop_obey_iff]
    simp [hpending]
  · by_cases hline : line = Command.endWord
    · have hfeed : s.feed line = s.obey (Command.ofLine line) := if_neg fun h => h.2 hline
      have hstops : Command.Stops Command.endWord := Command.stops_iff.2 (by decide +kernel)
      rw [hfeed, stop_obey_iff, hline]
      simp [hpending, hstops]
    · have hfeed : s.feed line = s.takeText (s.pending ++ "\n" ++ line) := if_pos ⟨hpending, hline⟩
      rw [hfeed, stop_takeText]
      simp [hpending, hline]

/-! ## Failures -/

/-- A text ends in no failure that goes on beyond a reporter which does not stop the program, unless
a number in it has too many digits. -/
theorem escape_executeText [Machine] {s : Shell} (hreporter : s.reporter.fatal = false)
    (hfunctions : s.session.environment.FromText) {text : String} {escape : Escape}
    (h : (s.executeText text).2.escape = some escape) :
    ∃ t, (Job.execute text).Holds t ∧ t.kind = .number ∧ ¬ t.Convertible ∧
      escape = .unknown "ValueError" (tooManyDigits t.text.length) := by
  have hgone : ∀ escape?, s.reporter.afterReport escape? = escape? := by
    intro escape?
    rw [Reporter.afterReport, hreporter]
    rfl
  have hread : Environment.FromText { s.session.environment with notices := [] } := hfunctions
  unfold executeText at h
  cases hrun : Session.execute text { s.session.environment with notices := [] } with
  | ok values env =>
    rw [hrun] at h
    cases h
  | error failure env =>
    rw [hrun] at h
    have hfails : (Job.execute text).act.outcome _ = .error failure :=
      Action.outcome_of_error hrun
    rcases Job.closed hread hfails with rfl | hexceeds | ⟨fault, location, rfl, -⟩
    · cases (hgone none).symm.trans h
    · cases hexceeds with
      | intro ht hk hconv =>
        have hescape := (hgone _).symm.trans h
        exact ⟨_, ht, hk, hconv, (Option.some.inj hescape).symm⟩
    · cases (hgone none).symm.trans h

/-! ## Runs -/

/-- What every line keeps up: the prompt tells whether a text is pending, which goes on as it
stands; reports stop nothing; and the session has functions that were read. -/
structure Steady (s : Shell) : Prop where
  prompt : s.prompt = if s.pending = "" then firstPrompt else furtherPrompt
  pending : s.pending ≠ "" → Unfinished s.pending
  reporter : s.reporter.fatal = false
  functions : s.session.environment.FromText

theorem steady_start (path : String) (reporter : Reporter) :
    Steady (start (.new path) reporter) where
  prompt := rfl
  pending h := absurd rfl h
  reporter := rfl
  functions := List.forall_mem_nil _

namespace Steady

variable [Machine] {s : Shell} (h : Steady s)
include h

theorem feed (line : String) : Steady (s.feed line).1 := by
  have hfunctions := fromText_invariant.feed h.functions line
  rcases s.feed_cases line with ⟨text, hmore, hfeed⟩ | hfeed | ⟨text, -, hfeed⟩ | ⟨hfeed, -⟩
  · have hnonempty : (Session.prepareLine text).1 ≠ "" :=
      prepareLine_ne_empty (prepareLine_snd text ▸ hmore)
    rw [hfeed] at hfunctions ⊢
    exact ⟨(if_neg hnonempty).symm, fun _ => Session.unfinished_of_prepareLine hmore,
      h.reporter, hfunctions⟩
  · rw [hfeed] at hfunctions ⊢
    exact ⟨rfl, fun hne => absurd rfl hne, h.reporter, hfunctions⟩
  · obtain ⟨env, hexecute⟩ := s.settle.executeText_fst text
    rw [hfeed, hexecute] at hfunctions ⊢
    exact ⟨rfl, fun hne => absurd rfl hne, h.reporter, hfunctions⟩
  · rwa [hfeed]

theorem feedAll (lines : List String) : Steady (s.feedAll lines).1 := by
  induction lines generalizing s with
  | nil => exact h
  | cons line lines ih => exact ih (h.feed line)

/-- Only the failure of a number of too many digits goes on beyond the reporter. -/
theorem escape_feed {line : String} {escape : Escape}
    (hescape : (s.feed line).2.escape = some escape) :
    ∃ text t, s.Completes line text ∧ (Job.execute text).Holds t ∧ t.kind = .number ∧
      ¬ t.Convertible ∧ escape = .unknown "ValueError" (tooManyDigits t.text.length) := by
  rcases s.feed_cases line with ⟨text, -, hfeed⟩ | hfeed | ⟨text, hcompletes, hfeed⟩ | ⟨-, hnone⟩
  · rw [hfeed] at hescape
    cases hescape
  · rw [hfeed] at hescape
    cases hescape
  · rw [hfeed] at hescape
    obtain ⟨t, ht⟩ := escape_executeText (s := s.settle) h.reporter h.functions hescape
    exact ⟨text, t, hcompletes, ht⟩
  · rw [hnone] at hescape
    cases hescape

end Steady

/-! ## Bindings between lines -/

section

variable [Machine]

/-- Calls are nested too deeply in the text that a line completes. -/
def Overruns (s : Shell) (line : String) : Prop :=
  ∃ text, s.Completes line text ∧
    (Session.execute text).outcome s.session.environment = .error .depthExceeded

/-- Calls are nested too deeply in a text that some of the lines complete. -/
def OverrunsIn (s : Shell) : List String → Prop
  | [] => False
  | line :: lines => s.Overruns line ∨ (s.feed line).1.OverrunsIn lines

/-- Texts that are executed bind nothing that stays. -/
theorem bindings_executeText {s : Shell} {text : String}
    (h : s.session.environment.bindings = .empty)
    (hdeep : Machine.Steady ∨
      (Session.execute text).outcome s.session.environment ≠ .error .depthExceeded) :
    (s.executeText text).1.session.environment.bindings = .empty := by
  have hquiet : Environment.Same s.session.environment
      { s.session.environment with notices := [] } := ⟨rfl, rfl⟩
  have hdeep' : Machine.Steady ∨ (Session.execute text).outcome
      { s.session.environment with notices := [] } ≠ .error .depthExceeded := by
    refine hdeep.imp_right fun hne hdepth => ?_
    obtain ⟨failure, hfails, hsame⟩ :=
      (Session.alike_execute rfl).exists_outcome_eq_error hquiet hdepth
    cases failure with
    | depthExceeded => exact hne hfails
    | _ => cases hsame
  obtain ⟨es, hspared⟩ :=
    Session.exists_spared_execute text { s.session.environment with notices := [] }
  have hempty : ∀ entry ∈ s.session.environment.bindings.entries, entry.2 ≠ [] := by
    rw [h]
    exact List.forall_mem_nil _
  have hrestored : ((Session.execute text).after
      { s.session.environment with notices := [] }).bindings = .empty := by
    rw [← h]
    exact (hspared.restored hdeep').pruned.bindings_eq hempty
  unfold Action.after at hrestored
  unfold executeText
  cases hrun : Session.execute text { s.session.environment with notices := [] } with
  | ok values env =>
    rw [hrun] at hrestored
    exact hrestored
  | error failure env =>
    rw [hrun] at hrestored
    exact hrestored

theorem bindings_feed {s : Shell} {line : String} (h : s.session.environment.bindings = .empty)
    (hdeep : Machine.Steady ∨ ¬ s.Overruns line) :
    (s.feed line).1.session.environment.bindings = .empty := by
  rcases s.feed_cases line with ⟨text, -, hfeed⟩ | hfeed | ⟨text, hcompletes, hfeed⟩ | ⟨hfeed, -⟩
  · rwa [hfeed]
  · rwa [hfeed]
  · rw [hfeed]
    exact bindings_executeText (s := s.settle) h
      (hdeep.imp_right fun hoverruns hdepth => hoverruns ⟨text, hcompletes, hdepth⟩)
  · rwa [hfeed]

/-- Nothing is bound after lines if nothing was before. -/
theorem bindings_feedAll {s : Shell} {lines : List String}
    (h : s.session.environment.bindings = .empty) (hdeep : Machine.Steady ∨ ¬ s.OverrunsIn lines) :
    (s.feedAll lines).1.session.environment.bindings = .empty := by
  induction lines generalizing s with
  | nil => exact h
  | cons line lines ih =>
    rw [OverrunsIn, not_or, or_and_left] at hdeep
    exact ih (bindings_feed h hdeep.1) hdeep.2

theorem feedAll_concat (s : Shell) (lines : List String) (line : String) :
    (s.feedAll (lines ++ [line])).1 = ((s.feedAll lines).1.feed line).1 := by
  induction lines generalizing s with
  | nil => rfl
  | cons first lines ih => exact ih _

end

/-! ## What holds after every line -/

/-- The functions that there are stay in front. -/
theorem functions_invariant [Machine] (functions : List (String × Definition)) :
    Session.Invariant (functions <+: ·.functions) fun _ => True where
  restored hrestored h := by
    rwa [hrestored.functions]
  defined _ _ h := h.trans (List.prefix_append _ _)
  evaluated {limit e} _ env' h := by
    have hkept : functions <+: ((evaluate limit e).after env').functions := by
      rwa [(restores_evaluate limit e).functions env']
    exact ⟨hkept, fun _ _ => trivial⟩

/-- **What holds after every line of every run.**  A shell is started on a new session, with any
reporter, and fed any lines.  Its further prompt is up if and only if a text is pending; a pending
text goes on as it stands; the functions of before are there in front, and nothing is bound, unless
calls were nested too deeply on a machine that is not steady.  It stops if and only if a text is
pending and the input ends, or none is pending and the line is a word that stops it.  No failure
goes on beyond it, except the one about a number of too many digits in the text that the line
completes. -/
theorem run_steady [Machine] (path : String) (reporter : Reporter) (lines : List String)
    (line : String) :
    let started := start (.new path) reporter
    let s := (started.feedAll lines).1
    let s' := (s.feed line).1
    let reply := (s.feed line).2
    (s'.prompt = furtherPrompt ↔ s'.pending ≠ "") ∧ (s'.prompt = firstPrompt ↔ s'.pending = "") ∧
      (s'.pending ≠ "" → Session.prepareLine s'.pending = (s'.pending, true) ∧
        Unfinished s'.pending) ∧
      (Machine.Steady ∨ ¬ started.OverrunsIn (lines ++ [line]) →
        s'.session.environment.bindings = .empty) ∧
      s.session.environment.functions <+: s'.session.environment.functions ∧
      (reply.stop = true ↔
        s.pending ≠ "" ∧ line = Command.endWord ∨ s.pending = "" ∧ Command.Stops line) ∧
      ∀ escape, reply.escape = some escape →
        ∃ text t, s.Completes line text ∧ (Job.execute text).Holds t ∧ t.kind = .number ∧
          ¬ t.Convertible ∧ escape = .unknown "ValueError" (tooManyDigits t.text.length) := by
  intro started s s' reply
  have hsteady : Steady s := (steady_start path reporter).feedAll lines
  have hafter : Steady s' := hsteady.feed line
  have hfunctions : s.session.environment.functions <+: s'.session.environment.functions :=
    (functions_invariant _).feed (List.prefix_refl _) line
  have hprompts : furtherPrompt ≠ firstPrompt := by decide
  refine ⟨?_, ?_, fun hpending => ?_, fun hdeep => ?_, hfunctions, s.stop_feed_iff line,
    fun escape hescape => hsteady.escape_feed hescape⟩
  · rw [hafter.prompt]
    by_cases hpending : s'.pending = "" <;> simp [hpending, hprompts.symm]
  · rw [hafter.prompt]
    by_cases hpending : s'.pending = "" <;> simp [hpending, hprompts]
  · have hunfinished := hafter.pending hpending
    exact ⟨Session.prepareLine_of_unfinished hunfinished, hunfinished⟩
  · have hempty := bindings_feedAll (s := started) rfl hdeep
    rwa [feedAll_concat] at hempty

/-- A definition over two lines, a call that divides by zero, and a line that stops the shell, whose
reporter was to stop the program. -/
theorem run_steady_division :
    let _ : Machine := .ofCalls 5
    let first := ((start (.new "<in>") ⟨"<in>", .plain, true⟩).feed "(define (f x) ; (").1
    let second := ((start (.new "<in>") ⟨"<in>", .plain, true⟩).feedAll
      ["(define (f x) ; (", "(/ 6 x))"]).1
    (first.pending = "(define (f x)" ∧ first.prompt = furtherPrompt ∧
      Session.prepareLine first.pending = (first.pending, true)) ∧
    ((Session.execute "(f 0)").outcome second.session.environment =
        .error (Fault.arithmetic (.divisionByZero 6)).failure ∧
      (second.feed "(f 0)").1.session.environment.bindings = .empty) ∧
    second.pending = "" ∧ Command.Stops " exit " ∧ (second.feed " exit ").2.stop = true := by
  intro _ first second
  have hpending : first.pending = "(define (f x)" := by decide +kernel
  have hnonempty : first.pending ≠ "" := by
    rw [hpending]
    decide
  have hfails : (Session.execute "(f 0)").outcome second.session.environment =
      .error (Fault.arithmetic (.divisionByZero 6)).failure := by decide +kernel
  have hsettled : second.pending = "" := by decide +kernel
  have hexit : Command.Stops " exit " := Command.stops_iff.2 (by decide +kernel)
  obtain ⟨hprompt, -, hunfinished, -⟩ :=
    run_steady "<in>" ⟨"<in>", .plain, true⟩ [] "(define (f x) ; ("
  obtain ⟨-, -, -, hbindings, -⟩ :=
    run_steady "<in>" ⟨"<in>", .plain, true⟩ ["(define (f x) ; (", "(/ 6 x))"] "(f 0)"
  obtain ⟨-, -, -, -, -, hstop, -⟩ :=
    run_steady "<in>" ⟨"<in>", .plain, true⟩ ["(define (f x) ; (", "(/ 6 x))"] " exit "
  exact ⟨⟨hpending, hprompt.2 hnonempty, (hunfinished hnonempty).1⟩,
    ⟨hfails, hbindings (.inl fun _ => rfl)⟩, hsettled, hexit, hstop.2 (.inr ⟨hsettled, hexit⟩)⟩

/-! ## A line of too many digits -/

theorem trim_of_not_isBlank {s : String} (h : ∀ c ∈ s.toList, isBlank c = false) :
    Text.trim s = s ∧ Text.trimEnd s = s := by
  have hdrop : ∀ cs : List Char, (∀ c ∈ cs, isBlank c = false) → cs.dropWhile isBlank = cs := by
    intro cs hcs
    cases cs with
    | nil => rfl
    | cons c cs => exact List.dropWhile_cons_of_neg (by simp [hcs c List.mem_cons_self])
  have hend : Text.dropBlankEnd s.toList = s.toList := by
    rw [Text.dropBlankEnd, hdrop _ fun c hc => h c (List.mem_reverse.1 hc), List.reverse_reverse]
  rw [Text.trim, Text.trimEnd, hdrop _ h, hend, String.ofList_toList]
  exact ⟨rfl, rfl⟩

section

variable {c : Char} {n : Nat} (hc : c.isDigit = true) (hn : Decimal.maxDigits < n)
include hc hn

theorem trim_repeated : Text.trim (Token.repeated c n).text = (Token.repeated c n).text ∧
    Text.trimEnd (Token.repeated c n).text = (Token.repeated c n).text :=
  trim_of_not_isBlank (Token.isLexical_repeated hc (Nat.ne_zero_of_lt hn)).not_isBlank

/-- A line of digits only is no command if these are too many. -/
theorem isForms_repeated : Command.IsForms (Token.repeated c n).text := by
  have hword : (Token.repeated c n).text.toList.takeWhile Command.isNameChar =
      (Token.repeated c n).text.toList := by
    rw [List.takeWhile_eq_self_iff, Token.toList_repeated]
    intro d hd
    rw [List.eq_of_mem_replicate hd, Command.isNameChar, Char.isAlphanum, hc]
    simp
  have hlong : ∀ s : String, s.length ≤ Decimal.maxDigits → (Token.repeated c n).text ≠ s := by
    rintro s hs rfl
    rw [Token.length_repeated] at hs
    omega
  refine ⟨?_, ?_, ?_⟩
  · rw [(trim_repeated hc hn).1]
    exact hlong "" (by decide)
  · rw [(trim_repeated hc hn).1, Token.toList_repeated]
    intro hhead
    rw [← List.eq_of_mem_replicate (List.mem_of_mem_head? hhead)] at hc
    cases hc
  · rw [(trim_repeated hc hn).1, hword, String.ofList_toList]
    simp only [List.mem_cons, List.not_mem_nil, or_false, not_or]
    exact ⟨hlong _ (by decide), hlong _ (by decide), hlong _ (by decide)⟩

theorem prepareLine_repeated :
    Session.prepareLine (Token.repeated c n).text = ((Token.repeated c n).text, false) := by
  rw [Session.prepareLine, Session.blankComments_repeated hc, (trim_repeated hc hn).2,
    Token.tokenize_repeated hc (Nat.ne_zero_of_lt hn)]
  rfl

/-- A shell executes a line of too many digits, and the failure goes on beyond it. -/
theorem escape_feed_repeated [Machine] {s : Shell} (hpending : s.pending = "")
    (hreporter : s.reporter.fatal = false) :
    (s.feed (Token.repeated c n).text).2.escape =
      some (.unknown "ValueError" (tooManyDigits n)) := by
  have htrim := (trim_repeated hc hn).1
  have hfeed : s.feed (Token.repeated c n).text = s.takeText (Token.repeated c n).text := by
    rw [feed, if_neg (fun h => h.1 hpending), (isForms_repeated hc hn).ofLine, htrim]
    rfl
  have htake : s.takeText (Token.repeated c n).text =
      s.settle.executeText (Token.repeated c n).text := by
    have hnonempty := (isForms_repeated hc hn).nonempty
    rw [takeText, prepareLine_repeated hc hn]
    exact (if_neg Bool.false_ne_true).trans (if_neg hnonempty)
  have hexecute := Session.takeText_repeated hc hn Session.executeForm
    { s.session.environment with notices := [] }
  have hafter : s.reporter.afterReport (some (.unknown "ValueError" (tooManyDigits n))) =
      some (.unknown "ValueError" (tooManyDigits n)) := by
    rw [Reporter.afterReport, hreporter]
    rfl
  rw [← Session.execute_eq] at hexecute
  rw [hfeed, htake]
  unfold executeText
  have henv : s.settle.session.environment = s.session.environment := rfl
  rw [henv, hexecute]
  exact hafter

theorem not_stops_repeated : ¬ Command.Stops (Token.repeated c n).text := fun h =>
  (isForms_repeated hc hn).noCommand (List.mem_cons_of_mem _ h.word)

end

/-- What goes on beyond a shell ends its loop. -/
theorem converse_of_escape [Machine] {s : Shell} {line : String} {escape : Escape}
    (h : (s.feed line).2.escape = some escape) (verbose : Bool) (lines : List String) :
    CommandLine.converse verbose s (line :: lines) =
      CommandLine.exchange verbose s (s.feed line).2 := by
  rw [CommandLine.converse]
  simp [h]

/-- A line of 4301 digits is no command and ends the loop of a shell, whatever lines are to come. -/
theorem run_steady_ones :
    let _ : Machine := .ofCalls 1
    let s := start (.new "<in>") ⟨"<in>", .plain, false⟩
    (s.feed (Token.repeated '1' 4301).text).2.escape =
        some (.unknown "ValueError" (tooManyDigits 4301)) ∧
      ¬ Command.Stops (Token.repeated '1' 4301).text ∧
      ∀ lines, CommandLine.converse false s ((Token.repeated '1' 4301).text :: lines) =
        CommandLine.exchange false s (s.feed (Token.repeated '1' 4301).text).2 := by
  intro _ s
  have hdigit : '1'.isDigit = true := rfl
  have hlt : Decimal.maxDigits < 4301 := by decide
  have hescape := @escape_feed_repeated '1' 4301 hdigit hlt _ s rfl rfl
  exact ⟨hescape, not_stops_repeated hdigit hlt, converse_of_escape hescape false⟩

end Shell

end DynLisp
