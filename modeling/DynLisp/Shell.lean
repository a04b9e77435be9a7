import DynLisp.Report
import DynLisp.Session
import DynLisp.Shell.Command

/-!
# The shell

A session that is fed one line at a time.  Lines with more opening than closing delimiters are
unfinished: the shell keeps their text and asks for the next line, until the text can be executed
as a whole.  While a text is unfinished every line belongs to it, also one that spells a command,
and only the end of the input is still understood.

`Shell.feed` takes one line and answers with what is to be shown.  The values of a text are shown
when all of its forms have been taken; if one of them fails the failure is reported instead, and
what was defined before it stays.  No failure stops the shell.

What asks for the next line is changed together with the unfinished text, and before anything is
executed, so that it is right whatever the execution ends in.
-/

namespace DynLisp

/-- A session with the text of an unfinished line and the way in which errors are reported. -/
structure Shell where
  session : Session
  reporter : Reporter
  /-- The unfinished text, or nothing. -/
  pending : String
  /-- What asks for the next line. -/
  prompt : String
  deriving Inhabited

/-- What the shell answers to a line: whether it stops, what it shows, what it reports, the notices
given meanwhile, and what went on beyond its reporter. -/
structure Reply where
  stop : Bool := false
  output : String := ""
  report : String := ""
  notices : List Notice := []
  escape : Option Escape := none
  deriving DecidableEq, Repr, Inhabited

namespace Shell

/-- What the shell shows when it starts. -/
def intro : String :=
  "tinylisp interpreter :: Python backend\nType '?' or 'help' for more information.\n"

/-- What the shell shows when it is asked for help. -/
def helpText : String :=
  "Welcome to the tinylisp interpreter!\n\n" ++
  "Expressions are written in prefix notation and evaluate to a number or a boolean:\n" ++
  "try typing '(+ 1 (* 2 3))' or '(cond ((< 1 0) 1) (true 2))'.\n\n" ++
  "Functions are defined with '(define (square x) (* x x))' and can be called from\n" ++
  "any later line, for example '(square 4)'. Type 'exit' or press Ctrl-D to leave.\n"

/-- What asks for a line that is the first of a text. -/
def firstPrompt : String := "> "

/-- What asks for a line that goes on with a text. -/
def furtherPrompt : String := ". "

/-- A shell on a session.  Its reporter is never fatal. -/
def start (session : Session) (reporter : Reporter) : Shell where
  session
  reporter := { reporter with fatal := false }
  pending := ""
  prompt := firstPrompt

/-- The shell when a text is unfinished. -/
def await (s : Shell) (text : String) : Shell :=
  { s with pending := text, prompt := furtherPrompt }

/-- The shell when no text is unfinished. -/
def settle (s : Shell) : Shell := { s with pending := "", prompt := firstPrompt }

/-- Executes a finished text. -/
def executeText [Machine] (s : Shell) (text : String) : Shell × Reply :=
  match Session.execute text { s.session.environment with notices := [] } with
  | .ok values env =>
    ({ s with session.environment := env },
      { output := String.join (values.map fun v => v.text ++ "\n")
        notices := env.notices.reverse })
  | .error failure env =>
    let verdict := s.reporter.judge failure.ending
    ({ s with session.environment := env },
      { report := verdict.output
        notices := env.notices.reverse
        escape := verdict.escape })

/-- Takes a text that is finished or goes on in the next line. -/
def takeText [Machine] (s : Shell) (text : String) : Shell × Reply :=
  let (text, more) := Session.prepareLine text
  if more then
    (s.await text, {})
  else
    let s := s.settle
    if Text.trim text = "" then (s, {}) else s.executeText text

/-- Stops, unless a word stands where none is understood. -/
def exit (s : Shell) (argument : String) : Reply :=
  if argument = "" then
    { stop := true }
  else
    { report := s.reporter.lines (.ofFault (.unrecognized argument) .unknown) }

/-- Does what a line asks for when no text is unfinished. -/
def obey [Machine] (s : Shell) : Command → Shell × Reply
  | .nothing => (s, {})
  | .help => (s, { output := helpText })
  | .exit argument => (s, s.exit argument)
  | .endOfInput argument => (s, { s.exit argument with output := "\n" })
  | .forms line => s.takeText line

/-- Takes one line. -/
def feed [Machine] (s : Shell) (line : String) : Shell × Reply :=
  if s.pending ≠ "" ∧ line ≠ Command.endWord then
    s.takeText (s.pending ++ "\n" ++ line)
  else
    s.obey (Command.ofLine line)

end Shell

end DynLisp
